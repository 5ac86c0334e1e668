import Mathlib.Tactic.MkIffOfInductiveProp
import Pagnet.Fabric.Framing

/-!
# Signing bytes tell the frame

`Valid` says of each kind of frame which checks of its fields `SigningBytes`
makes, and `Fits` what the encoder does. A frame that passes them is encoded. A
parser takes exactly the bytes that the encoder gives for a frame, and no two
frames have the same signing bytes. A `Codec` is what the four frames of
`fabric/framing.go` with a parser have in common.
-/

namespace Pagnet.Signing
open Json Fabric List

/-! ## Texts and fields -/

theorem utf8_eq (s : String) : utf8 s = s.toByteArray.data.toList := by
  unfold utf8
  rw [bytesOf_eq, chars_eq_toList, String.ofList_toList]

variable {s : String} {field : Bytes} {n : UInt64} {f : ControlFrame}

theorem text?_eq_some {bytes : Bytes} : text? bytes = some s ↔ utf8 s = bytes := by
  rw [utf8_eq]
  unfold text? String.fromUTF8?
  constructor
  · intro h
    split at h
    · cases h
      rfl
    · cases h
  · rintro rfl
    have same : (⟨s.toByteArray.data.toList.toArray⟩ : ByteArray) = s.toByteArray := by simp
    rw [same, dif_pos s.isValidUTF8]
    rfl

theorem utf8_injective {t : String} (h : utf8 s = utf8 t) : s = t :=
  Option.some.inj ((text?_eq_some.2 h).symm.trans (text?_eq_some.2 rfl))

theorem copySigningDigest_ofFn (d : Digest) : copySigningDigest (List.ofFn d) = some d := by
  refine congrArg some (funext fun i => ?_)
  have bound : i.val < (List.ofFn d).length := by rw [List.length_ofFn]; exact i.isLt
  rw [List.getD_eq_getElem?_getD, List.getElem?_eq_getElem bound, Option.getD_some, List.getElem_ofFn]

theorem ofFn_of_copy {d : Digest} (h : copySigningDigest field = some d) : List.ofFn d = field := by
  unfold copySigningDigest at h
  split at h
  next length =>
    cases h
    apply ext_getElem
    · rw [length_ofFn, length]
    · intro i _ bound
      rw [List.getElem_ofFn, List.getD_eq_getElem?_getD, List.getElem?_eq_getElem bound, Option.getD_some]
  · cases h

theorem signingCounter_small (n : UInt64) : n.toNat < 256 ^ 8 := n.toNat_lt

theorem decodeSigningCounter_counter (positive : n ≠ 0) : decodeSigningCounter (signingCounter n) = some n := by
  unfold decodeSigningCounter signingCounter
  rw [if_pos (length_bigEndian 8 _), ofBigEndian_bigEndian (signingCounter_small n), UInt64.ofNat_toNat]
  have above : 0 < n := UInt64.pos_iff_ne_zero.2 positive
  simp [above]

theorem counter_of_decode (h : decodeSigningCounter field = some n) : signingCounter n = field := by
  unfold decodeSigningCounter at h
  split at h
  next length =>
    obtain ⟨h, -⟩ := Option.filter_eq_some_iff.1 h
    cases h
    have small : ofBigEndian field < 2 ^ 64 := by
      have bound := ofBigEndian_lt field
      rw [length] at bound
      exact bound
    unfold signingCounter
    rw [UInt64.toNat_ofNat_of_lt' small, ← length]
    exact bigEndian_ofBigEndian field
  · cases h

theorem signingCounter_injective {m : UInt64} (h : signingCounter m = signingCounter n) : m = n := by
  have values := congrArg ofBigEndian h
  unfold signingCounter at values
  rw [ofBigEndian_bigEndian (signingCounter_small m), ofBigEndian_bigEndian (signingCounter_small n)] at values
  exact UInt64.toNat_inj.1 values

@[simp] theorem orRefuse_eq_ok {α : Type} {message : String} {o : Option α} {a : α} :
    orRefuse message o = .ok a ↔ o = some a := by
  cases o <;> simp [orRefuse]

theorem orRefuse_digest (message : String) (d : Digest) : orRefuse message (copySigningDigest (List.ofFn d)) = .ok d :=
  orRefuse_eq_ok.2 (copySigningDigest_ofFn d)

theorem orRefuse_counter (message : String) (positive : n ≠ 0) :
    orRefuse message (decodeSigningCounter (signingCounter n)) = .ok n :=
  orRefuse_eq_ok.2 (decodeSigningCounter_counter positive)

theorem parseReference_eq_ok {text : Bytes} {r : EndpointRef} :
    parseReference text = .ok r ↔ r ≠ .zero ∧ utf8 r.toString = text := by
  unfold parseReference
  constructor
  · intro h
    split at h
    next s is =>
      have parsed := orRefuse_eq_ok.1 h
      obtain ⟨nonzero, text⟩ := of_parse parsed
      rw [text]
      exact ⟨nonzero, text?_eq_some.1 is⟩
    · cases h
  · rintro ⟨nonzero, rfl⟩
    rw [text?_eq_some.2 rfl]
    exact orRefuse_eq_ok.2 (parse_toString nonzero)

theorem addFields_eq_ok {fields : List Bytes} {size total : Nat} (start : size ≤ maxSigningFrameBytes) :
    fields.foldlM addField size = .ok total ↔ (∀ field ∈ fields, field.length ≤ maxSigningTextBytes) ∧
      total = size + (frame 4 fields).length ∧ total ≤ maxSigningFrameBytes := by
  induction fields generalizing size with
  | nil =>
    constructor
    · intro h
      cases h
      exact ⟨forall_mem_nil _, rfl, start⟩
    · rintro ⟨-, rfl, -⟩
      rfl
  | cons field fields ih =>
    rw [foldlM_cons, forall_mem_cons, frame_cons, length_append, length_append, length_bigEndian]
    unfold addField
    rw [bind_assoc, refuse_bind_eq_ok]
    simp only [Bool.or_eq_false_iff, decide_eq_false_iff_not, Nat.not_lt, pure_bind]
    constructor
    · rintro ⟨⟨short, fits⟩, h⟩
      obtain ⟨rest, is, bounded⟩ := (ih fits).1 h
      exact ⟨⟨short, rest⟩, by omega, bounded⟩
    · rintro ⟨⟨short, rest⟩, is, bounded⟩
      have fits : size + 4 + field.length ≤ maxSigningFrameBytes := by omega
      exact ⟨⟨short, fits⟩, (ih fits).2 ⟨rest, by omega, bounded⟩⟩

theorem readFields_eq_ok {count : Nat} {raw : Bytes} {fields : List Bytes} : readFields count raw = .ok fields ↔
    fields.length = count ∧ (∀ field ∈ fields, field.length ≤ maxSigningTextBytes) ∧ raw = frame 4 fields := by
  induction count generalizing raw fields with
  | zero =>
    unfold readFields
    rw [refuse_bind_eq_ok, bne_eq_false_iff_eq]
    constructor
    · rintro ⟨rfl, h⟩
      cases h
      exact ⟨rfl, forall_mem_nil _, rfl⟩
    · rintro ⟨length, -, rfl⟩
      rw [length_eq_zero_iff.1 length]
      exact ⟨rfl, rfl⟩
  | succ count ih =>
    unfold readFields
    rw [refuse_bind_eq_ok]
    rw [refuse_bind_eq_ok, bind_eq_ok]
    simp only [Bool.or_eq_false_iff, decide_eq_false_iff_not, Nat.not_lt, ih]
    constructor
    · rintro ⟨long, ⟨short, inside⟩, rest, ⟨length, bounded, is⟩, h⟩
      cases h
      have size : ((raw.drop 4).take (ofBigEndian (raw.take 4))).length = ofBigEndian (raw.take 4) :=
        length_take_of_le inside
      have counted : (raw.take 4).length = 4 := length_take_of_le long
      have digits := bigEndian_ofBigEndian (raw.take 4)
      rw [counted] at digits
      refine ⟨congrArg (· + 1) length, forall_mem_cons.2 ⟨size.trans_le short, bounded⟩, ?_⟩
      rw [frame_cons, size, digits, ← is, take_append_drop, take_append_drop]
    · rintro ⟨length, bounded, rfl⟩
      cases fields with
      | nil => cases length
      | cons field fields =>
        obtain ⟨short, bounded⟩ := forall_mem_cons.1 bounded
        have small : field.length < 256 ^ 4 := Nat.lt_of_le_of_lt short (by decide)
        obtain ⟨size, rest⟩ := frame_cons_parts fields small
        rw [size, rest, take_left' rfl, drop_left' rfl, length_append]
        refine ⟨?_, ⟨short, Nat.le_add_right _ _⟩, fields, ⟨Nat.succ.inj length, bounded, rfl⟩, rfl⟩
        rw [frame_cons, length_append, length_bigEndian]
        exact Nat.le_add_right _ _

/-! ## Frames -/

def purposes : List String :=
  [GenesisFrame.purpose, RegistryFrame.purpose, CallerProofFrame.purpose, DispatchAdmissionFrame.purpose,
    ControlFrame.purpose, ForwardFrame.purpose]

theorem purposes_plain : ∀ purpose ∈ purposes,
    (utf8 purpose).length + 1 ≤ maxSigningFrameBytes ∧ (0 : UInt8) ∉ utf8 purpose := by
  decide +kernel

variable {raw : Bytes}

section
variable {purpose : String} {fields : List Bytes}

theorem encode_eq_ok (listed : purpose ∈ purposes) : encodeSigningFields purpose fields = .ok raw ↔
    (∀ field ∈ fields, field.length ≤ maxSigningTextBytes) ∧ raw = utf8 purpose ++ 0 :: frame 4 fields ∧
      raw.length ≤ maxSigningFrameBytes := by
  have start := (purposes_plain purpose listed).1
  have length : (utf8 purpose ++ 0 :: frame 4 fields).length = (utf8 purpose).length + 1 + (frame 4 fields).length := by
    rw [length_append, length_cons]
    omega
  unfold encodeSigningFields
  rw [bind_eq_ok]
  constructor
  · rintro ⟨total, sizes, h⟩
    obtain ⟨bounded, is, within⟩ := (addFields_eq_ok start).1 sizes
    cases h
    exact ⟨bounded, rfl, by omega⟩
  · rintro ⟨bounded, rfl, within⟩
    exact ⟨_, (addFields_eq_ok start).2 ⟨bounded, rfl, by omega⟩, rfl⟩

/-- The bounds of the encoder. -/
def Fits (purpose : String) (fields : List Bytes) : Prop :=
  (∀ field ∈ fields, field.length ≤ maxSigningTextBytes) ∧
    (utf8 purpose ++ 0 :: frame 4 fields).length ≤ maxSigningFrameBytes

theorem encoded_iff (listed : purpose ∈ purposes) :
    (∃ raw, encodeSigningFields purpose fields = .ok raw) ↔ Fits purpose fields := by
  simp only [encode_eq_ok listed, Fits]
  exact ⟨fun ⟨_, bounded, is, within⟩ => ⟨bounded, is ▸ within⟩, fun ⟨bounded, within⟩ => ⟨_, bounded, rfl, within⟩⟩

/-- Decoding is the inverse of encoding. -/
theorem decode_eq_ok (listed : purpose ∈ purposes) {count : Nat} : decodeSigningFields raw purpose count = .ok fields ↔
    fields.length = count ∧ encodeSigningFields purpose fields = .ok raw := by
  have head : (utf8 purpose ++ [0]) ++ frame 4 fields = utf8 purpose ++ 0 :: frame 4 fields := by simp
  unfold decodeSigningFields
  rw [refuse_bind_eq_ok, readFields_eq_ok, encode_eq_ok listed, Bool.or_eq_false_iff, bne_eq_false_iff_eq,
    decide_eq_false_iff_not, Nat.not_lt]
  constructor
  · rintro ⟨⟨within, start⟩, length, bounded, rest⟩
    refine ⟨length, bounded, ?_, within⟩
    rw [← head, ← rest]
    conv_lhs => rw [← take_append_drop (utf8 purpose ++ [0]).length raw]
    rw [start]
  · rintro ⟨length, bounded, rfl, within⟩
    rw [← head, take_left' rfl, drop_left' rfl]
    exact ⟨⟨head ▸ within, rfl⟩, length, bounded, rfl⟩

/-- Equal signing bytes have the same purpose and the same fields. -/
theorem encode_inj {purpose' : String} {fields' : List Bytes} (listed : purpose ∈ purposes) (listed' : purpose' ∈ purposes)
    (h : encodeSigningFields purpose fields = .ok raw) (h' : encodeSigningFields purpose' fields' = .ok raw) :
    purpose = purpose' ∧ fields = fields' := by
  obtain ⟨bounded, is, -⟩ := (encode_eq_ok listed).1 h
  obtain ⟨bounded', is', -⟩ := (encode_eq_ok listed').1 h'
  obtain ⟨heads, -⟩ := append_separator_inj (purposes_plain purpose listed).2 (purposes_plain purpose' listed').2
    (is.symm.trans is')
  obtain rfl := utf8_injective heads
  have rest : frame 4 fields = frame 4 fields' := (List.cons.inj (append_cancel_left (is.symm.trans is'))).2
  have small : maxSigningTextBytes < 256 ^ 4 := by decide
  exact ⟨rfl, frame_inj (by decide) (fun field mem => (bounded field mem).trans_lt small)
    (fun field mem => (bounded' field mem).trans_lt small) rest⟩

end

/-- A frame with a parser. -/
structure Codec (F : Type) where
  purpose : String
  count : Nat
  fields : F → List Bytes
  ofFields : List Bytes → Except Error F
  signingBytes : F → Except Error Bytes
  Valid : F → Prop
  listed : purpose ∈ purposes
  /-- the fields are encoded, once they have been checked -/
  signs : ∀ {f raw}, signingBytes f = .ok raw ↔ Valid f ∧ encodeSigningFields purpose (fields f) = .ok raw
  length : ∀ f, (fields f).length = count
  /-- the fields of a valid frame give it back -/
  gives : ∀ {f}, Valid f → ofFields (fields f) = .ok f
  /-- a frame has the fields that it was made from -/
  takes : ∀ {given f}, given.length = count → ofFields given = .ok f → fields f = given

/-- A frame is encoded exactly if its fields are valid and fit. -/
theorem Codec.signed_iff {F : Type} (k : Codec F) {f : F} :
    (∃ raw, k.signingBytes f = .ok raw) ↔ k.Valid f ∧ Fits k.purpose (k.fields f) := by
  simp only [k.signs, exists_and_left, encoded_iff k.listed]

/-- The parser takes exactly what the encoder gives. -/
theorem Codec.parse_eq_ok {F : Type} (k : Codec F) {f : F} :
    parseFrame k.purpose k.count k.ofFields k.signingBytes raw = .ok f ↔ k.signingBytes f = .ok raw := by
  unfold parseFrame
  constructor
  · intro h
    obtain ⟨fields, decoded, h⟩ := of_bind h
    obtain ⟨g, made, h⟩ := of_bind h
    obtain ⟨signed, signs, h⟩ := of_bind h
    cases h
    obtain ⟨length, encoded⟩ := (decode_eq_ok k.listed).1 decoded
    have again := (k.signs.1 signs).2
    rw [k.takes length made, encoded] at again
    cases again
    exact signs
  · intro signs
    obtain ⟨valid, encoded⟩ := k.signs.1 signs
    have decoded := (decode_eq_ok k.listed).2 ⟨k.length f, encoded⟩
    rw [decoded, ok_bind, k.gives valid, ok_bind, signs]
    rfl

/-- No two frames of a kind have the same signing bytes. -/
theorem Codec.injective {F : Type} (k : Codec F) {f g : F} (first : k.signingBytes f = .ok raw)
    (second : k.signingBytes g = .ok raw) : f = g :=
  Except.ok.inj ((k.parse_eq_ok.2 first).symm.trans (k.parse_eq_ok.2 second))

/-- A list by its elements. -/
theorem eq_map_getD (given : List Bytes) : given = (List.range given.length).map (given.getD · []) := by
  apply ext_getElem
  · simp
  · intro i bound _
    simp [getD_eq_getElem?_getD, getElem?_eq_getElem bound]

/-- The namespace is that of the key. -/
def GenesisFrame.Valid (sha256 : Bytes → Digest) (f : GenesisFrame) : Prop :=
  domainNamespace sha256 f.genesisPublicKey = f.ns

def GenesisFrame.codec (sha256 : Bytes → Digest) : Codec GenesisFrame where
  purpose := purpose
  count := 3
  fields := fields
  ofFields := ofFields
  signingBytes := signingBytes sha256
  Valid := Valid sha256
  listed := by decide
  signs := by
    intro f raw
    rw [signingBytes, refuse_bind_eq_ok, bne_eq_false_iff_eq]
    rfl
  length _ := rfl
  gives := by
    intro f _
    unfold ofFields fields
    simp only [getD_cons_zero, getD_cons_succ, orRefuse_digest, ok_bind]
    rfl
  takes := by
    intro given f length made
    rw [eq_map_getD given, length]
    obtain ⟨key, copied, made⟩ := of_bind made
    obtain ⟨digest, digested, made⟩ := of_bind made
    cases made
    unfold fields
    rw [ofFn_of_copy (orRefuse_eq_ok.1 copied), ofFn_of_copy (orRefuse_eq_ok.1 digested)]
    rfl

@[mk_iff] structure RegistryFrame.Valid (f : RegistryFrame) : Prop where
  issuerNamespace : passes canonicalDomainNamespace f.issuerNamespace
  audienceDomain : passes canonicalDomainNamespace f.audienceDomain
  issuerKeyRevision : f.issuerKeyRevision ≠ 0
  sequence : f.sequence ≠ 0
  actionKind : validSigningText f.actionKind false
  expectedPriorRevision : validSigningText f.expectedPriorRevision true
  newRevision : validSigningText f.newRevision false
  exactTargetRef : f.exactTargetRef ≠ .zero

theorem parse_own_reference {r : EndpointRef} : (∃ r', parseReference (utf8 r.toString) = .ok r') ↔ r ≠ .zero := by
  constructor
  · rintro ⟨r', parsed⟩
    obtain ⟨nonzero, same⟩ := parseReference_eq_ok.1 parsed
    rwa [EndpointRef.toString_injective (utf8_injective same)] at nonzero
  · exact fun nonzero => ⟨r, parseReference_eq_ok.2 ⟨nonzero, rfl⟩⟩

def RegistryFrame.codec : Codec RegistryFrame where
  purpose := purpose
  count := 10
  fields := fields
  ofFields := ofFields
  signingBytes := signingBytes
  Valid := Valid
  listed := by decide
  signs := by
    intro f raw
    rw [valid_iff, signingBytes, refuse_bind_eq_ok, bind_eq_ok, exists_and_right, parse_own_reference]
    simp only [Bool.or_eq_false_iff, Bool.not_eq_false', beq_eq_false_iff_ne, and_assoc]
  length _ := rfl
  gives := by
    intro f valid
    unfold ofFields fields
    simp only [getD_cons_zero, getD_cons_succ, orRefuse_digest, orRefuse_counter _ valid.issuerKeyRevision,
      orRefuse_counter _ valid.sequence, parseReference_eq_ok.2 ⟨valid.exactTargetRef, rfl⟩, ok_bind]
    rfl
  takes := by
    intro given f length made
    rw [eq_map_getD given, length]
    obtain ⟨revision, counted, made⟩ := of_bind made
    obtain ⟨sequence, sequenced, made⟩ := of_bind made
    obtain ⟨target, parsed, made⟩ := of_bind made
    obtain ⟨previous, copied, made⟩ := of_bind made
    obtain ⟨payload, digested, made⟩ := of_bind made
    cases made
    unfold fields
    rw [counter_of_decode (orRefuse_eq_ok.1 counted), counter_of_decode (orRefuse_eq_ok.1 sequenced),
      (parseReference_eq_ok.1 parsed).2, ofFn_of_copy (orRefuse_eq_ok.1 copied),
      ofFn_of_copy (orRefuse_eq_ok.1 digested)]
    rfl

@[mk_iff] structure CallerProofFrame.Valid (f : CallerProofFrame) : Prop where
  sourceDomain : passes canonicalDomainNamespace f.sourceDomain
  audienceDomain : passes canonicalDomainNamespace f.audienceDomain
  issuerKeyRevision : f.issuerKeyRevision ≠ 0
  callerRef : validSigningText f.callerRef false
  operation : validSigningText f.operation false
  originalEnvelopeID : validSigningText f.originalEnvelopeID false
  replayID : validSigningText f.replayID false
  deadline : validSigningDeadline f.deadline

def CallerProofFrame.codec : Codec CallerProofFrame where
  purpose := purpose
  count := 9
  fields := fields
  ofFields := ofFields
  signingBytes := signingBytes
  Valid := Valid
  listed := by decide
  signs := by
    intro f raw
    rw [valid_iff, signingBytes, refuse_bind_eq_ok]
    simp only [Bool.or_eq_false_iff, Bool.not_eq_false', beq_eq_false_iff_ne, and_assoc]
  length _ := rfl
  gives := by
    intro f valid
    unfold ofFields fields
    simp only [getD_cons_zero, getD_cons_succ, orRefuse_digest, orRefuse_counter _ valid.issuerKeyRevision, ok_bind]
    rfl
  takes := by
    intro given f length made
    rw [eq_map_getD given, length]
    obtain ⟨revision, counted, made⟩ := of_bind made
    obtain ⟨digest, copied, made⟩ := of_bind made
    cases made
    unfold fields
    rw [counter_of_decode (orRefuse_eq_ok.1 counted), ofFn_of_copy (orRefuse_eq_ok.1 copied)]
    rfl

@[mk_iff] structure DispatchAdmissionFrame.Valid (f : DispatchAdmissionFrame) : Prop where
  sourceDomain : passes canonicalDomainNamespace f.sourceDomain
  audienceDomain : passes canonicalDomainNamespace f.audienceDomain
  callerRef : validSigningText f.callerRef false
  invocationID : validSigningText f.invocationID false
  attemptID : validSigningText f.attemptID false
  replayID : validSigningText f.replayID false
  deadline : validSigningDeadline f.deadline

def DispatchAdmissionFrame.codec : Codec DispatchAdmissionFrame where
  purpose := purpose
  count := 8
  fields := fields
  ofFields := ofFields
  signingBytes := signingBytes
  Valid := Valid
  listed := by decide
  signs := by
    intro f raw
    rw [valid_iff, signingBytes, refuse_bind_eq_ok]
    simp only [Bool.or_eq_false_iff, Bool.not_eq_false', and_assoc]
  length _ := rfl
  gives := by
    intro f _
    unfold ofFields fields
    simp only [getD_cons_zero, getD_cons_succ, orRefuse_digest, ok_bind]
    rfl
  takes := by
    intro given f length made
    rw [eq_map_getD given, length]
    obtain ⟨digest, copied, made⟩ := of_bind made
    cases made
    unfold fields
    rw [ofFn_of_copy (orRefuse_eq_ok.1 copied)]
    rfl

/-! ## All frames -/

theorem ControlFrame.checkAction_ok : f.checkAction = .ok () ↔ (f.action = utf8 "status" ∨ f.action = utf8 "cancel") ∨
    (f.action = utf8 "pull" ∨ f.action = utf8 "ack") ∧ f.attemptID ≠ [] := by
  unfold checkAction
  split_ifs with plain attempt
  · simp only [Bool.or_eq_true, beq_iff_eq] at plain
    simp [plain]
  · simp only [Bool.or_eq_true, beq_iff_eq] at plain attempt
    simp [plain, attempt]
  · simp only [Bool.or_eq_true, beq_iff_eq] at plain attempt
    simp [plain, attempt]

@[mk_iff] structure ControlFrame.Valid (f : ControlFrame) : Prop where
  protocolVersion : f.protocolVersion = utf8 "1"
  sourceDomain : passes canonicalDomainNamespace f.sourceDomain
  destinationDomain : passes canonicalDomainNamespace f.destinationDomain
  remote : f.sourceDomain ≠ f.destinationDomain
  sourceStoreID : passes forwardStoreID f.sourceStoreID
  destinationStoreID : passes forwardStoreID f.destinationStoreID
  sourceKeyRevision : f.sourceKeyRevision ≠ 0
  sourcePeerBindingDigest : f.sourcePeerBindingDigest ≠ noDigest
  destinationPeerBindingDigest : f.destinationPeerBindingDigest ≠ noDigest
  receiptDigest : f.receiptDigest ≠ noDigest
  payloadDigest : f.payloadDigest ≠ noDigest
  originalPrincipal : f.originalPrincipal.valid
  principal : f.principal.valid
  invocationID : validSigningText f.invocationID false
  replayID : validSigningText f.replayID false
  attemptID : validSigningText f.attemptID true
  bindingProfile : f.bindingProfile = forwardBindingProfile
  action : (f.action = utf8 "status" ∨ f.action = utf8 "cancel") ∨
    (f.action = utf8 "pull" ∨ f.action = utf8 "ack") ∧ f.attemptID ≠ []
  issued : f.issuedAt ≠ []
  expires : f.expiresAt ≠ []
  issuedAt : validSigningDeadline f.issuedAt
  expiresAt : validSigningDeadline f.expiresAt
  after : (timeOf f.issuedAt).instant < (timeOf f.expiresAt).instant
  within : (timeOf f.expiresAt).instant - (timeOf f.issuedAt).instant ≤ 30 * 1000000000

theorem ControlFrame.signs : f.signingBytes = .ok raw ↔ f.Valid ∧ encodeSigningFields purpose f.fields = .ok raw := by
  rw [valid_iff, signingBytes]
  simp only [unit_bind_eq_ok, refuse_eq_ok, checkAction_ok, Bool.or_eq_false_iff, Bool.not_eq_false', beq_eq_false_iff_ne,
    bne_eq_false_iff_eq, decide_eq_false_iff_not, not_le, not_lt, and_assoc]

theorem ControlFrame.eq_of_fields {g : ControlFrame} (h : f.fields = g.fields) : f = g := by
  simp only [fields, List.cons.injEq, and_true] at h
  obtain ⟨version, source, store, revision, destination, store', binding, binding', ref, kind, issuer, ref', kind',
    issuer', invocation, receipt, attempt, action, payload, replay, issued, expires, profile⟩ := h
  exact ControlFrame.ext version source store (signingCounter_injective revision) destination store'
    (ofFn_injective binding) (ofFn_injective binding') (Principal.ext ref' kind' issuer')
    (Principal.ext ref kind issuer) invocation (ofFn_injective receipt) attempt action
    (ofFn_injective payload) replay issued expires profile

@[mk_iff] structure Provenance.Valid (p : Provenance) : Prop where
  origin : passes (validText · 4096) p.origin
  hops : p.hops ≤ 64
  lengths : ∀ list ∈ p.lists, list.length ≤ 64
  texts : ∀ list ∈ p.lists, ∀ value ∈ list, passes (validText · 256) value
  parentID : p.parentID ≠ [] → passes (validText · 256) p.parentID
  size : (bytesOf p.toJson.render).length ≤ maxSigningFrameBytes

/-- Only an invocation has a target, and it is in the domain the frame is for. -/
def ForwardFrame.Targets (f : ForwardFrame) : Prop :=
  if f.operation = utf8 "invoke" then
    (∃ r, f.target = some r ∧ utf8 r.domain = f.destinationDomain) ∧ f.expectedRevision ≠ [] ∧
      validSigningText f.expectedRevision false
  else f.target = none ∧ f.expectedRevision = []

theorem ForwardFrame.checkTarget_ok {f : ForwardFrame} : f.checkTarget = .ok () ↔ f.Targets := by
  unfold checkTarget Targets
  by_cases invokes : f.operation = utf8 "invoke"
  · simp [invokes, Option.any_eq_true, and_assoc]
  · simp [invokes]

@[mk_iff] structure ForwardFrame.Valid (f : ForwardFrame) : Prop where
  sourceDomain : passes canonicalDomainNamespace f.sourceDomain
  destinationDomain : passes canonicalDomainNamespace f.destinationDomain
  remote : f.sourceDomain ≠ f.destinationDomain
  sourceStoreID : passes forwardStoreID f.sourceStoreID
  destinationStoreID : passes forwardStoreID f.destinationStoreID
  sourceKeyRevision : f.sourceKeyRevision ≠ 0
  sourcePeerBindingDigest : f.sourcePeerBindingDigest ≠ noDigest
  destinationPeerBindingDigest : f.destinationPeerBindingDigest ≠ noDigest
  originalEnvelopeDigest : f.originalEnvelopeDigest ≠ noDigest
  forwardedEnvelopeDigest : f.forwardedEnvelopeDigest ≠ noDigest
  principal : f.principal.valid
  invocationID : validSigningText f.invocationID false
  replayID : validSigningText f.replayID false
  bindingProfile : f.bindingProfile = forwardBindingProfile
  operation : f.operation ≠ utf8 "discover" → f.operation ≠ utf8 "describe" → f.operation = utf8 "invoke"
  targets : f.Targets
  issuedAt : validSigningDeadline f.issuedAt
  expiresAt : validSigningDeadline f.expiresAt
  issued : f.issuedAt ≠ []
  expires : f.expiresAt ≠ []
  deadline : validSigningDeadline f.deadline
  after : (timeOf f.issuedAt).instant < (timeOf f.expiresAt).instant
  within : (timeOf f.expiresAt).instant - (timeOf f.issuedAt).instant ≤ 24 * 3600 * 1000000000
  inTime : f.deadline ≠ [] → (timeOf f.expiresAt).instant ≤ (timeOf f.deadline).instant
  originalProvenance : f.originalProvenance.Valid
  forwardedProvenance : f.forwardedProvenance.Valid

section
variable (sha256 : Bytes → Digest)

variable {f g : ForwardFrame}

theorem forwardProvenanceDigest_ok {p : Provenance} {d : Digest} : forwardProvenanceDigest sha256 p = .ok d ↔
    p.Valid ∧ sha256 (bytesOf p.toJson.render) = d := by
  rw [Provenance.valid_iff, forwardProvenanceDigest, Provenance.validate]
  simp only [bind_assoc, unit_bind_eq_ok, refuse_eq_ok, Bool.or_eq_false_iff, Bool.not_eq_false', decide_eq_false_iff_not,
    not_lt, UInt32.not_lt, any_eq_false, decide_eq_true_eq, any_eq_true, Bool.not_eq_true', not_exists, not_and,
    Bool.not_eq_false, Bool.and_eq_false_imp, bne_iff_ne, pure, Except.pure, Except.ok.injEq, and_assoc]

/-- The digests of the lineages. -/
abbrev lineage (p : Provenance) : Digest := sha256 (bytesOf p.toJson.render)

theorem ForwardFrame.signs : f.signingBytes sha256 = .ok raw ↔ f.Valid ∧
    encodeSigningFields purpose (f.fields (lineage sha256 f.originalProvenance) (lineage sha256 f.forwardedProvenance)) =
      .ok raw := by
  rw [valid_iff, signingBytes]
  simp only [unit_bind_eq_ok, refuse_eq_ok, checkTarget_ok, Bool.or_eq_false_iff, Bool.not_eq_false', beq_eq_false_iff_ne,
    bne_eq_false_iff_eq, Bool.and_eq_false_imp, bne_iff_ne, decide_eq_false_iff_not, not_le, not_lt, Bool.and_eq_true,
    and_imp, and_assoc]
  simp only [bind_eq_ok, forwardProvenanceDigest_ok, and_assoc, exists_and_left, exists_eq_left']

/-- Equal fields up to lineages, which only have equal digests. -/
structure ForwardFrame.Same (f g : ForwardFrame) : Prop where
  fields : { f with originalProvenance := g.originalProvenance, forwardedProvenance := g.forwardedProvenance } = g
  original : forwardProvenanceDigest sha256 f.originalProvenance = forwardProvenanceDigest sha256 g.originalProvenance
  forwarded : forwardProvenanceDigest sha256 f.forwardedProvenance = forwardProvenanceDigest sha256 g.forwardedProvenance

/-- The same kind of frame with equal fields. -/
def SigningFrame.Same : SigningFrame → SigningFrame → Prop
  | .forward f, .forward g => f.Same sha256 g
  | f, g => f = g

theorem ForwardFrame.target_eq (first : f.Targets) (second : g.Targets) (operation : f.operation = g.operation)
    (text : f.targetText = g.targetText) : f.target = g.target := by
  unfold Targets at first second
  rw [← operation] at second
  split_ifs at first second
  · obtain ⟨⟨r, left, -⟩, -⟩ := first
    obtain ⟨⟨r', right, -⟩, -⟩ := second
    rw [targetText, targetText, left, right] at text
    rw [left, right, EndpointRef.toString_injective (utf8_injective text)]
  · rw [first.1, second.1]

theorem ForwardFrame.same_of_fields {original forwarded original' forwarded' : Digest}
    (h : f.fields original forwarded = g.fields original' forwarded') (first : f.Targets) (second : g.Targets) :
    original = original' ∧ forwarded = forwarded' ∧ { f with originalProvenance := g.originalProvenance, forwardedProvenance := g.forwardedProvenance } = g := by
  simp only [fields, List.cons.injEq, and_true] at h
  obtain ⟨source, store, revision, destination, store', binding, binding', ref, kind, issuer, operation, invocation,
    replay, envelope, envelope', lineage, lineage', target, expected, issued, expires, deadline, profile⟩ := h
  exact ⟨ofFn_injective lineage, ofFn_injective lineage', ForwardFrame.ext source store
    (signingCounter_injective revision) destination store' (ofFn_injective binding) (ofFn_injective binding')
    (Principal.ext ref kind issuer) operation invocation replay (ofFn_injective envelope)
    (ofFn_injective envelope') rfl rfl (target_eq first second operation target) expected issued expires deadline
    profile⟩

theorem ForwardFrame.same (first : f.signingBytes sha256 = .ok raw)
    (second : g.signingBytes sha256 = .ok raw) : f.Same sha256 g := by
  obtain ⟨valid, encoded⟩ := (signs sha256).1 first
  obtain ⟨valid', encoded'⟩ := (signs sha256).1 second
  have listed : purpose ∈ purposes := by decide
  obtain ⟨original, forwarded, same⟩ :=
    same_of_fields (encode_inj listed listed encoded encoded').2 valid.targets valid'.targets
  refine ⟨same, ?_, ?_⟩
  · rw [(forwardProvenanceDigest_ok sha256).2 ⟨valid.originalProvenance, original⟩,
      (forwardProvenanceDigest_ok sha256).2 ⟨valid'.originalProvenance, rfl⟩]
  · rw [(forwardProvenanceDigest_ok sha256).2 ⟨valid.forwardedProvenance, forwarded⟩,
      (forwardProvenanceDigest_ok sha256).2 ⟨valid'.forwardedProvenance, rfl⟩]

/-- What `SigningBytes` checks of a frame. -/
def SigningFrame.Valid : SigningFrame → Prop
  | .genesis f => f.Valid sha256 ∧ Fits GenesisFrame.purpose f.fields
  | .registry f => f.Valid ∧ Fits RegistryFrame.purpose f.fields
  | .callerProof f => f.Valid ∧ Fits CallerProofFrame.purpose f.fields
  | .dispatchAdmission f => f.Valid ∧ Fits DispatchAdmissionFrame.purpose f.fields
  | .control f => f.Valid ∧ Fits ControlFrame.purpose f.fields
  | .forward f => f.Valid ∧
    Fits ForwardFrame.purpose (f.fields (lineage sha256 f.originalProvenance) (lineage sha256 f.forwardedProvenance))

/-- A frame is encoded exactly if it passes the checks. -/
theorem SigningFrame.signed_iff (f : SigningFrame) : (∃ raw, f.signingBytes sha256 = .ok raw) ↔ f.Valid sha256 := by
  cases f with
  | genesis f => exact (GenesisFrame.codec sha256).signed_iff
  | registry f => exact RegistryFrame.codec.signed_iff
  | callerProof f => exact CallerProofFrame.codec.signed_iff
  | dispatchAdmission f => exact DispatchAdmissionFrame.codec.signed_iff
  | control f =>
    have listed : ControlFrame.purpose ∈ purposes := by decide
    simp only [signingBytes, Valid, ControlFrame.signs, exists_and_left, encoded_iff listed]
  | forward f =>
    have listed : ForwardFrame.purpose ∈ purposes := by decide
    simp only [signingBytes, Valid, ForwardFrame.signs, exists_and_left, encoded_iff listed]

/-- What a frame is signed for. -/
def SigningFrame.purpose : SigningFrame → String
  | .genesis _ => GenesisFrame.purpose
  | .registry _ => RegistryFrame.purpose
  | .callerProof _ => CallerProofFrame.purpose
  | .dispatchAdmission _ => DispatchAdmissionFrame.purpose
  | .control _ => ControlFrame.purpose
  | .forward _ => ForwardFrame.purpose

theorem SigningFrame.purpose_mem (f : SigningFrame) : f.purpose ∈ purposes := by
  cases f <;> simp [purpose, purposes]

theorem SigningFrame.signs {f : SigningFrame} (h : f.signingBytes sha256 = .ok raw) :
    ∃ fields, encodeSigningFields f.purpose fields = .ok raw := by
  cases f with
  | genesis f => exact ⟨_, ((GenesisFrame.codec sha256).signs.1 h).2⟩
  | registry f => exact ⟨_, (RegistryFrame.codec.signs.1 h).2⟩
  | callerProof f => exact ⟨_, (CallerProofFrame.codec.signs.1 h).2⟩
  | dispatchAdmission f => exact ⟨_, (DispatchAdmissionFrame.codec.signs.1 h).2⟩
  | control f => exact ⟨_, (ControlFrame.signs.1 h).2⟩
  | forward f => exact ⟨_, ((ForwardFrame.signs sha256).1 h).2⟩

/-- Signing bytes tell the frame that they are signed for. -/
theorem SigningFrame.same {f g : SigningFrame} (first : f.signingBytes sha256 = .ok raw)
    (second : g.signingBytes sha256 = .ok raw) : f.Same sha256 g := by
  obtain ⟨_, encoded⟩ := signs sha256 first
  obtain ⟨_, encoded'⟩ := signs sha256 second
  have same := (encode_inj f.purpose_mem g.purpose_mem encoded encoded').1
  cases f with
  | genesis f =>
    cases g with
    | genesis g => exact congrArg _ ((GenesisFrame.codec sha256).injective first second)
    | _ => exact absurd same (by dsimp only [purpose]; decide)
  | registry f =>
    cases g with
    | registry g => exact congrArg _ (RegistryFrame.codec.injective first second)
    | _ => exact absurd same (by dsimp only [purpose]; decide)
  | callerProof f =>
    cases g with
    | callerProof g => exact congrArg _ (CallerProofFrame.codec.injective first second)
    | _ => exact absurd same (by dsimp only [purpose]; decide)
  | dispatchAdmission f =>
    cases g with
    | dispatchAdmission g => exact congrArg _ (DispatchAdmissionFrame.codec.injective first second)
    | _ => exact absurd same (by dsimp only [purpose]; decide)
  | control f =>
    cases g with
    | control g =>
      have listed : ControlFrame.purpose ∈ purposes := by decide
      have fields := (encode_inj listed listed (ControlFrame.signs.1 first).2 (ControlFrame.signs.1 second).2).2
      exact congrArg _ (ControlFrame.eq_of_fields fields)
    | _ => exact absurd same (by dsimp only [purpose]; decide)
  | forward f =>
    cases g with
    | forward g => exact ForwardFrame.same sha256 first second
    | _ => exact absurd same (by dsimp only [purpose]; decide)

/-- Every frame that passes its checks is encoded, every parser is the inverse of its encoder, and no two frames
of any kind have the same signing bytes. -/
theorem signing_bytes_unambiguous :
    (∀ f : SigningFrame, (∃ raw, f.signingBytes sha256 = .ok raw) ↔ f.Valid sha256) ∧
    (∀ raw f, parseGenesisFrame sha256 raw = .ok f ↔ f.signingBytes sha256 = .ok raw) ∧
    (∀ raw f, parseRegistryFrame raw = .ok f ↔ f.signingBytes = .ok raw) ∧
    (∀ raw f, parseCallerProofFrame raw = .ok f ↔ f.signingBytes = .ok raw) ∧
    (∀ raw f, parseDispatchAdmissionFrame raw = .ok f ↔ f.signingBytes = .ok raw) ∧
    ∀ (f g : SigningFrame) raw, f.signingBytes sha256 = .ok raw → g.signingBytes sha256 = .ok raw → f.Same sha256 g :=
  ⟨SigningFrame.signed_iff sha256, fun _ _ => (GenesisFrame.codec sha256).parse_eq_ok,
    fun _ _ => RegistryFrame.codec.parse_eq_ok, fun _ _ => CallerProofFrame.codec.parse_eq_ok,
    fun _ _ => DispatchAdmissionFrame.codec.parse_eq_ok, fun _ _ _ => SigningFrame.same sha256⟩

end

/-! A frame of each kind. -/

def sampleID (c : Char) : String := String.ofList (List.replicate 51 c ++ ['a'])

def sampleDomain (c : Char) : Bytes := utf8 ("d-" ++ sampleID c)

def sampleStoreID : Bytes := utf8 (String.ofList (List.replicate 64 '0'))

def sampleRef : EndpointRef := ⟨"d-" ++ sampleID 'b', sampleID 'a', "", by decide +kernel⟩

def samplePrincipal : Principal := ⟨utf8 "r", utf8 "a.b", utf8 "i"⟩

def sampleProvenance : Provenance := ⟨utf8 "o", [], none, 1, some [utf8 "x"], none⟩

def noon : Bytes := utf8 "2024-02-29T12:00:00Z"

def later : Bytes := utf8 "2024-02-29T12:00:30Z"

def sampleGenesis : GenesisFrame := ⟨domainNamespace sampleDigest (sampleDigest [1]), sampleDigest [1], sampleDigest [2]⟩

def sampleRegistry : RegistryFrame :=
  ⟨sampleDomain 'a', 1, sampleDomain 'b', utf8 "act", sampleRef, [], utf8 "2", 3, noDigest, sampleDigest [2]⟩

def sampleCallerProof : CallerProofFrame :=
  ⟨sampleDomain 'a', utf8 "c", 1, sampleDomain 'b', utf8 "invoke", utf8 "e", utf8 "r", sampleDigest [3], later⟩

def sampleDispatchAdmission : DispatchAdmissionFrame :=
  ⟨sampleDomain 'a', utf8 "c", sampleDomain 'b', utf8 "n", utf8 "t", utf8 "r", sampleDigest [4], []⟩

def sampleControl : ControlFrame :=
  ⟨utf8 "1", sampleDomain 'a', sampleStoreID, 1, sampleDomain 'b', sampleStoreID, sampleDigest [1], sampleDigest [2],
    samplePrincipal, samplePrincipal, utf8 "n", sampleDigest [3], utf8 "t", utf8 "pull", sampleDigest [4], utf8 "r", noon,
    later, forwardBindingProfile⟩

def sampleForward : ForwardFrame :=
  ⟨sampleDomain 'a', sampleStoreID, 1, sampleDomain 'b', sampleStoreID, sampleDigest [1], sampleDigest [2],
    samplePrincipal, utf8 "invoke", utf8 "n", utf8 "r", sampleDigest [3], sampleDigest [4], sampleProvenance,
    sampleProvenance, some sampleRef, utf8 "2", noon, later, later, forwardBindingProfile⟩

theorem samples_signed : (∃ raw, sampleGenesis.signingBytes sampleDigest = .ok raw) ∧
    (∃ raw, sampleRegistry.signingBytes = .ok raw) ∧ (∃ raw, sampleCallerProof.signingBytes = .ok raw) ∧
    (∃ raw, sampleDispatchAdmission.signingBytes = .ok raw) ∧ (∃ raw, sampleControl.signingBytes = .ok raw) ∧
    ∃ raw, sampleForward.signingBytes sampleDigest = .ok raw := by
  refine ⟨exists_eq_ok ?_, exists_eq_ok ?_, exists_eq_ok ?_, exists_eq_ok ?_, exists_eq_ok ?_, exists_eq_ok ?_⟩ <;> decide +kernel

theorem sample_frames_parsed :
    (∃ raw, sampleGenesis.signingBytes sampleDigest = .ok raw ∧ parseGenesisFrame sampleDigest raw = .ok sampleGenesis) ∧
    (∃ raw, sampleRegistry.signingBytes = .ok raw ∧ parseRegistryFrame raw = .ok sampleRegistry) ∧
    (∃ raw, sampleCallerProof.signingBytes = .ok raw ∧ parseCallerProofFrame raw = .ok sampleCallerProof) ∧
    (∃ raw, sampleDispatchAdmission.signingBytes = .ok raw ∧
      parseDispatchAdmissionFrame raw = .ok sampleDispatchAdmission) ∧
    SigningFrame.Valid sampleDigest (.control sampleControl) ∧
    SigningFrame.Valid sampleDigest (.forward sampleForward) := by
  obtain ⟨valid, genesis, registry, caller, admission, -⟩ := signing_bytes_unambiguous sampleDigest
  obtain ⟨first, second, third, fourth, fifth, sixth⟩ := samples_signed
  refine ⟨?_, ?_, ?_, ?_, (valid (.control sampleControl)).1 fifth, (valid (.forward sampleForward)).1 sixth⟩
  · exact first.imp fun raw signed => ⟨signed, (genesis raw _).2 signed⟩
  · exact second.imp fun raw signed => ⟨signed, (registry raw _).2 signed⟩
  · exact third.imp fun raw signed => ⟨signed, (caller raw _).2 signed⟩
  · exact fourth.imp fun raw signed => ⟨signed, (admission raw _).2 signed⟩

end Pagnet.Signing
