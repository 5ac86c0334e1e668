import Pagnet.Json.Fields

/-!
# Frames of a pull page

An invocation frame travels in a record with the digest of the pull request, encoded
as JSON: the data as base64, the sequence number as a decimal string.
-/

namespace Pagnet.Federation

open Json List

/-- `fabric.MaxFrameBytes`. -/
def maxFrameBytes : Nat := 64 * 1024

def maxRecordPlaintext : Nat := 64 * 1024

def maxInt64 : Nat := 2 ^ 63 - 1

inductive FrameKind
  | start
  | chunk
  | progress
  | complete
  | error
  | other (name : GoString)
  deriving DecidableEq, Repr

def FrameKind.name : FrameKind → GoString
  | .start => .ofString "start"
  | .chunk => .ofString "chunk"
  | .progress => .ofString "progress"
  | .complete => .ofString "complete"
  | .error => .ofString "error"
  | .other name => name

def FrameKind.ofName (name : GoString) : FrameKind :=
  if name = .ofString "start" then .start
  else if name = .ofString "chunk" then .chunk
  else if name = .ofString "progress" then .progress
  else if name = .ofString "complete" then .complete
  else if name = .ofString "error" then .error
  else .other name

/-- `fabric.Error`. -/
structure FrameError where
  code : GoString
  message : GoString
  effect : GoString
  deriving DecidableEq, Repr

structure InvocationFrame where
  invocationID : GoString
  sequence : Nat
  kind : FrameKind
  contentType : GoString
  data : List UInt8
  error : Option FrameError
  deriving DecidableEq, Repr

/-- A SHA-256 digest. -/
abbrev Digest := Fin 32 → UInt8

/-! ## Encoding -/

def FrameError.toJson (e : FrameError) : Value :=
  .ofFields [("code", .ofGoString e.code), ("message", .ofGoString e.message), ("effect", .ofGoString e.effect)]

variable (f : InvocationFrame)

def InvocationFrame.fields : List (String × Value) :=
  [("invocationId", .ofGoString f.invocationID), ("sequence", .string (Nat.toDigits 10 f.sequence)),
    ("kind", .ofGoString f.kind.name)] ++ omitEmpty "contentType" [] Value.ofGoString f.contentType ++
    omitEmpty "data" [] Value.ofBytes f.data ++ f.error.toList.map fun e => ("error", e.toJson)

def InvocationFrame.toJson : Value := .ofFields f.fields

/-- An array of bytes is an array of numbers. -/
def digestJson (digest : Digest) : Value := .ofList ((List.ofFn digest).map fun b => .ofNat b.toNat)

/-- `originalPullFrame`. -/
def pullFrame (digest : Digest) (f : InvocationFrame) : Value :=
  .ofFields [("requestDigest", digestJson digest), ("frame", f.toJson)]

/-! ## Decoding -/

/-- An unsigned integer that is written as a string. -/
def decodeQuoted : Value → Option Nat
  | .null => some 0
  | .string raw => (decimal? (unescape raw)).filter (· < 2 ^ 64)
  | _ => none

def errorNames : List String := ["code", "message", "effect"]

def decodeError : Value → Option (Option FrameError)
  | .null => some none
  | .object members =>
    if members.known errorNames then do
      let code ← field "code" members [] Value.goString?
      let message ← field "message" members [] Value.goString?
      let effect ← field "effect" members [] Value.goString?
      return some ⟨code, message, effect⟩
    else none
  | _ => none

def frameNames : List String := ["invocationId", "sequence", "kind", "contentType", "data", "error"]

def decodeFrame (members : Members) : Option InvocationFrame :=
  if members.known frameNames then do
    let invocationID ← field "invocationId" members [] Value.goString?
    let sequence ← field "sequence" members 0 decodeQuoted
    let kind ← field "kind" members [] Value.goString?
    let contentType ← field "contentType" members [] Value.goString?
    let data ← field "data" members [] Value.bytes?
    let error ← field "error" members none decodeError
    return ⟨invocationID, sequence, .ofName kind, contentType, data, error⟩
  else none

/-- The elements of an array of bytes. -/
def byteElements : Elements → Option (List UInt8)
  | .nil => some []
  | .cons value rest => do
    let n ← value.nat?.filter (· < 256)
    let bytes ← byteElements rest
    return UInt8.ofNat n :: bytes

/-- An array of 32 bytes: elements behind are dropped, elements that miss are zero. -/
def decodeDigest : Value → Option Digest
  | .null => some fun _ => 0
  | .array elements => (byteElements elements).map fun bytes i => bytes.getD i 0
  | _ => none

def decodeFrameValue : Value → Option InvocationFrame
  | .null => decodeFrame .nil
  | .object members => decodeFrame members
  | _ => none

/-- The limits of a record. -/
def recordLimits : WireLimits where
  maxBytes := maxRecordPlaintext - 1
  maxDepth := 16
  maxMembers := 256

/-- The zero frame. -/
def zeroFrame : InvocationFrame := ⟨[], 0, .ofName [], [], [], none⟩

/-- `fabric.DecodeJSONWithLimits` into an `originalPullFrame`. -/
def decodePullFrame (text : Text) : Option (Digest × InvocationFrame) :=
  if decodesText recordLimits text then
    match parse text with
    | some (.object members) =>
      if members.known ["requestDigest", "frame"] then do
        let digest ← field "requestDigest" members (fun _ => 0) decodeDigest
        let frame ← field "frame" members zeroFrame decodeFrameValue
        return (digest, frame)
      else none
    | _ => none
  else none

/-! ## What is sent is read back -/

/-- The strings of a frame are valid UTF-8. -/
def InvocationFrame.Utf8 : Prop :=
  f.invocationID.isValid ∧ f.contentType.isValid ∧
    ∀ e ∈ f.error, e.code.isValid ∧ e.message.isValid ∧ e.effect.isValid

instance : Decidable f.Utf8 :=
  inferInstanceAs (Decidable (_ ∧ _ ∧ ∀ e ∈ f.error, _))

/-- A kind that the protocol knows. -/
def FrameKind.isKnown : FrameKind → Bool
  | .other _ => false
  | _ => true

variable {kind : FrameKind} {f : InvocationFrame}

theorem FrameKind.name_valid (known : kind.isKnown) : kind.name.isValid := by
  cases kind with
  | other name => cases known
  | _ => exact GoString.isValid_ofString _

theorem FrameKind.ofName_name (known : kind.isKnown) : FrameKind.ofName kind.name = kind := by
  cases kind with
  | other name => cases known
  | _ => decide

theorem decodeError_toJson {e : FrameError} (code : e.code.isValid) (message : e.message.isValid)
    (effect : e.effect.isValid) : decodeError e.toJson = some (some e) := by
  have known : (Members.ofFields [("code", Value.ofGoString e.code), ("message", .ofGoString e.message),
      ("effect", .ofGoString e.effect)]).known errorNames := known_ofFields (by simp [errorNames])
  unfold FrameError.toJson Value.ofFields decodeError
  dsimp only
  rw [if_pos known]
  simp [field_cons_self, field_cons_ne, goString?_valid code, goString?_valid message, goString?_valid effect]

theorem decodeQuoted_toDigits {n : Nat} (small : n < 2 ^ 64) : decodeQuoted (.string (Nat.toDigits 10 n)) = some n := by
  have plain : ∀ c ∈ Nat.toDigits 10 n, c ≠ '\\' := by
    rintro c mem rfl
    exact absurd (Nat.isDigit_of_mem_toDigits (by decide) (by decide) mem) (by decide)
  unfold decodeQuoted
  dsimp only
  rw [unescape_of_plain plain, decimal?_toDigits]
  simpa using small

theorem bytes?_ofBytes (bytes : List UInt8) : (Value.ofBytes bytes).bytes? = some bytes := by
  unfold Value.ofBytes Value.bytes?
  dsimp only
  rw [unescape_of_plain (base64_plain bytes), unbase64_base64]

/-- The fields behind the first three. -/
def InvocationFrame.optionalFields (f : InvocationFrame) : List (String × Value) :=
  omitEmpty "contentType" [] Value.ofGoString f.contentType ++
    (omitEmpty "data" [] Value.ofBytes f.data ++ f.error.toList.map fun e => ("error", e.toJson))

theorem InvocationFrame.fields_eq (f : InvocationFrame) : f.fields =
    ("invocationId", .ofGoString f.invocationID) :: ("sequence", .string (Nat.toDigits 10 f.sequence)) ::
      ("kind", .ofGoString f.kind.name) :: f.optionalFields := by
  simp [InvocationFrame.fields, InvocationFrame.optionalFields]

/-- The fields stand in the order of the struct. -/
theorem InvocationFrame.fields_names (f : InvocationFrame) : (f.fields.map (·.1)).Sublist frameNames := by
  rw [InvocationFrame.fields_eq, InvocationFrame.optionalFields]
  simp only [map_cons, map_append, map_map]
  refine .cons_cons _ (.cons_cons _ (.cons_cons _ ((omitEmpty_names _ _ _ _).append ((omitEmpty_names _ _ _ _).append ?_))))
  cases f.error with
  | none => exact nil_sublist _
  | some e => exact List.Sublist.refl _

theorem InvocationFrame.mem_optionalFields {x : String × Value} (mem : x ∈ f.optionalFields) :
    x = ("contentType", .ofGoString f.contentType) ∨ x = ("data", .ofBytes f.data) ∨ ∃ e ∈ f.error, x = ("error", e.toJson) := by
  rcases mem_append.1 mem with mem | mem
  · exact .inl (mem_omitEmpty mem)
  rcases mem_append.1 mem with mem | mem
  · exact .inr (.inl (mem_omitEmpty mem))
  · obtain ⟨e, listed, rfl⟩ := mem_map.1 mem
    exact .inr (.inr ⟨e, Option.mem_toList.1 listed, rfl⟩)

theorem field_error (utf8 : f.Utf8) :
    field "error" (.ofFields (f.error.toList.map fun e => ("error", e.toJson))) none decodeError = some f.error := by
  cases error : f.error with
  | none => rfl
  | some e =>
    obtain ⟨code, message, effect⟩ := utf8.2.2 e error
    rw [Option.toList_some, map_singleton, field_cons_self, decodeError_toJson code message effect]

/-- A frame is read back. -/
theorem decodeFrameValue_toJson (utf8 : f.Utf8) (known : f.kind.isKnown)
    (small : f.sequence < 2 ^ 64) : decodeFrameValue f.toJson = some f := by
  have id := utf8.1
  have content := utf8.2.1
  have names : (Members.ofFields f.fields).known frameNames :=
    known_ofFields fun x mem => f.fields_names.subset (mem_map_of_mem mem)
  have errors_only : ∀ x ∈ f.error.toList.map fun e => ("error", e.toJson), x.1 = "error" := by
    simp only [forall_mem_map, implies_true]
  have contentType : field "contentType" (.ofFields f.optionalFields) [] Value.goString? = some f.contentType := by
    refine field_omit_self (goString?_valid content) fun x mem => ?_
    rcases mem_append.1 mem with mem | mem
    · rw [mem_omitEmpty mem]; exact (by decide : "data" ≠ "contentType")
    · rw [errors_only x mem]; decide
  have data : field "data" (.ofFields f.optionalFields) [] Value.bytes? = some f.data := by
    unfold InvocationFrame.optionalFields
    rw [field_omit_ne (by decide)]
    exact field_omit_self (bytes?_ofBytes f.data) fun x mem => by rw [errors_only x mem]; decide
  have error : field "error" (.ofFields f.optionalFields) none decodeError = some f.error := by
    unfold InvocationFrame.optionalFields
    rw [field_omit_ne (by decide), field_omit_ne (by decide), field_error utf8]
  unfold InvocationFrame.toJson Value.ofFields decodeFrameValue decodeFrame
  dsimp only
  rw [if_pos names, InvocationFrame.fields_eq]
  simp [field_cons_ne, contentType, data, error, goString?_valid id, decodeQuoted_toDigits small,
    goString?_valid (FrameKind.name_valid known), FrameKind.ofName_name known]

theorem byteElements_ofList (bytes : List UInt8) :
    byteElements (Elements.ofList (bytes.map fun b => .ofNat b.toNat)) = some bytes := by
  induction bytes with
  | nil => rfl
  | cons b rest ih =>
    have small : b.toNat < 256 := b.toNat_lt
    have kept : (some b.toNat).filter (fun x => decide (x < 256)) = some b.toNat := by simpa using small
    rw [map_cons, Elements.ofList, byteElements, nat?_ofNat, ih, kept]
    simp

theorem decodeDigest_digestJson (digest : Digest) : decodeDigest (digestJson digest) = some digest := by
  unfold digestJson Value.ofList decodeDigest
  dsimp only
  rw [byteElements_ofList]
  refine congrArg some (funext fun i => ?_)
  have bound : i.val < (List.ofFn digest).length := by rw [List.length_ofFn]; exact i.isLt
  show (List.ofFn digest).getD i.val 0 = digest i
  rw [List.getD_eq_getElem?_getD, List.getElem?_eq_getElem bound, Option.getD_some, List.getElem_ofFn]

/-! ## Records -/

section

variable (digest : Digest) (f : InvocationFrame)

theorem digits_literal (n : Nat) : RawLiteral (Nat.toDigits 10 n) := by
  refine plain_literal fun c mem => ?_
  have digit : c.isDigit := Nat.isDigit_of_mem_toDigits (by decide) (by decide) mem
  have printable : ¬ c.toNat < 0x20 := by
    have low : 48 ≤ c.toNat := by
      simp only [Char.isDigit, Bool.and_eq_true, decide_eq_true_eq] at digit
      exact digit.1
    omega
  have other {d : Char} (no_digit : d.isDigit = false) : c ≠ d := fun same => by
    rw [same, no_digit] at digit
    cases digit
  simp [printable, other (d := '\\') (by decide), other (d := '"') (by decide)]

variable {P : Value → Prop}

/-- What holds of the values in a frame's fields. -/
theorem InvocationFrame.forall_fields (string : ∀ s, P (.ofGoString s)) (number : ∀ n, P (.string (Nat.toDigits 10 n)))
    (bytes : ∀ b, P (.ofBytes b)) (error : ∀ e : FrameError, P e.toJson) : ∀ x ∈ f.fields, P x.2 := by
  rw [InvocationFrame.fields_eq]
  simp only [forall_mem_cons]
  refine ⟨string _, number _, string _, fun x mem => ?_⟩
  rcases InvocationFrame.mem_optionalFields mem with rfl | rfl | ⟨e, -, rfl⟩
  · exact string _
  · exact bytes _
  · exact error e

theorem FrameError.forall_fields (string : ∀ s, P (.ofGoString s)) (e : FrameError) :
    ∀ x ∈ [("code", Value.ofGoString e.code), ("message", .ofGoString e.message), ("effect", .ofGoString e.effect)], P x.2 := by
  simp only [forall_mem_cons]
  exact ⟨string _, string _, string _, forall_mem_nil _⟩

theorem pullFrame_wellFormed : (pullFrame digest f).WellFormed := by
  refine ofFields_wellFormed (forall_mem_cons.2 ⟨?_, forall_mem_singleton.2 ?_⟩)
  · exact ofList_wellFormed (forall_mem_map.2 fun b _ => ofNat_wellFormed _)
  · exact ofFields_wellFormed (f.forall_fields ofGoString_wellFormed digits_literal ofBytes_wellFormed
      fun e => ofFields_wellFormed (FrameError.forall_fields ofGoString_wellFormed e))

theorem pullFrame_depth : (pullFrame digest f).depth ≤ 3 := by
  refine depth_ofFields_le (forall_mem_cons.2 ⟨?_, forall_mem_singleton.2 ?_⟩)
  · exact depth_ofList_le (forall_mem_map.2 fun b _ => Nat.zero_le 1)
  · refine depth_ofFields_le (f.forall_fields (P := fun v => v.depth ≤ 1) (fun _ => Nat.zero_le 1) (fun _ => Nat.zero_le 1)
      (fun _ => Nat.zero_le 1) fun e => ?_)
    exact depth_ofFields_le (FrameError.forall_fields (P := fun v => v.depth ≤ 0) (fun _ => Nat.zero_le 0) e)

theorem pullFrame_members : (pullFrame digest f).members ≤ 64 := by
  have number (n : Nat) : (Value.ofNat n).members ≤ 0 := Nat.le_refl 0
  have error (e : FrameError) : e.toJson.members ≤ 3 :=
    members_ofFields_le (FrameError.forall_fields (P := fun v => v.members ≤ 0) (fun _ => Nat.le_refl 0) e)
  have digits := sum_succ_le (forall_mem_map.2 fun b (_ : b ∈ List.ofFn digest) => number b.toNat)
  rw [← members_ofList] at digits
  have fields := members_ofFields_le
    (f.forall_fields (P := fun v => v.members ≤ 3) (fun _ => Nat.zero_le 3) (fun _ => Nat.zero_le 3) (fun _ => Nat.zero_le 3) error)
  have few : f.fields.length ≤ 6 := by simpa [frameNames] using f.fields_names.length_le
  rw [length_map, length_ofFn] at digits
  unfold pullFrame digestJson
  rw [members_ofFields]
  simp only [map_cons, map_nil, sum_cons, sum_nil]
  unfold InvocationFrame.toJson
  omega

theorem pullFrame_distinct : (pullFrame digest f).distinct := by
  have error (e : FrameError) : e.toJson.distinct :=
    distinct_ofFields (names_nodup (by simp)) (FrameError.forall_fields (P := fun v => v.distinct) (fun _ => rfl) e)
  refine distinct_ofFields (names_nodup (by simp)) (forall_mem_cons.2 ⟨?_, forall_mem_singleton.2 ?_⟩)
  · exact distinct_ofList (forall_mem_map.2 fun b _ => rfl)
  · exact distinct_ofFields (names_nodup (f.fields_names.nodup (by decide))) (f.forall_fields (P := fun v => v.distinct) (fun _ => rfl)
      (fun _ => rfl) (fun _ => rfl) error)

end

/-- A record within the limit is read back. -/
theorem decodePullFrame_render {digest : Digest} (utf8 : f.Utf8) (known : f.kind.isKnown)
    (small : f.sequence < 2 ^ 64) (fits : (pullFrame digest f).size < maxRecordPlaintext) :
    decodePullFrame (pullFrame digest f).render = some (digest, f) := by
  have parsed := parse_render (pullFrame_wellFormed digest f)
  have accepted : decodesText recordLimits (pullFrame digest f).render := by
    rw [decodesText_render (pullFrame_wellFormed digest f), decodesValue_eq_true (by decide) (by decide) (by decide)]
    have depth := pullFrame_depth digest f
    have members := pullFrame_members digest f
    refine ⟨?_, ?_, ?_, pullFrame_distinct digest f, ?_⟩
    · show ((pullFrame digest f).size : Int) ≤ (65536 - 1 : Nat)
      unfold maxRecordPlaintext at fits
      omega
    · show ((pullFrame digest f).depth : Int) ≤ 16
      omega
    · show ((pullFrame digest f).members : Int) ≤ 256
      omega
    · unfold maxNestingDepth
      omega
  unfold decodePullFrame
  rw [if_pos accepted, parsed]
  unfold pullFrame Value.ofFields
  dsimp only
  rw [if_pos (known_ofFields (by simp))]
  simp [field_cons_ne, decodeDigest_digestJson, decodeFrameValue_toJson utf8 known small]

end Pagnet.Federation
