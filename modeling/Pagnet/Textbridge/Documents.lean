import Pagnet.Textbridge.Ledger

/-!
# What the ledger reads back

A sealed job is read back with its raw messages as the encoder wrote them, and
with the encoder's replacements in its strings.
-/

namespace Pagnet.Textbridge
open Json

/-! ## Sealed data -/

variable {text : Text} {v : Value} {d : Data} {j : Job} {sealed : Sealed}

theorem marshalRaw_eq_some (h : marshalRaw text = some v) :
    ∃ u, parse text = some u ∧ u.depth ≤ maxNestingDepth ∧ v = u.escapeHTML := by
  unfold marshalRaw at h
  split at h
  case isTrue accepted =>
    obtain ⟨u, parsed, rfl⟩ := Option.map_eq_some_iff.1 h
    refine ⟨u, parsed, ?_, rfl⟩
    simpa [Json.valid, parsed] using accepted
  case isFalse => cases h

/-- A raw message as it was encoded. -/
structure Encoded (v : Value) : Prop where
  formed : v.WellFormed
  depth : v.depth ≤ maxNestingDepth

theorem Encoded.ofRaw (h : marshalRaw text = some v) : Encoded v := by
  obtain ⟨u, parsed, shallow, rfl⟩ := marshalRaw_eq_some h
  exact ⟨(parse_wellFormed parsed).escapeHTML, (depth_escapeHTML u).symm ▸ shallow⟩

theorem Encoded.ofReceipt {receipt : Option Text} (h : marshalReceipt receipt = some v) : Encoded v := by
  cases receipt with
  | none =>
    cases h
    exact ⟨trivial, Nat.zero_le _⟩
  | some text => exact .ofRaw h

/-- What the encoder writes is valid, and encoded again as it is. -/
theorem Encoded.valid (e : Encoded v) : Json.valid v.render := by
  rw [Json.valid, parse_render e.formed]
  simpa using e.depth

/-- The data that is read back. -/
def Data.stored (d : Data) (header receipt : Value) : Data :=
  { d with
    header := header.render
    wireDigest := d.wireDigest.coerce
    providerConfigFingerprint := d.providerConfigFingerprint.coerce
    replyID := d.replyID.coerce
    replyDigest := d.replyDigest.coerce
    receipt := some receipt.render }

/-- What is written is read back. -/
theorem marshal_eq_some (h : marshal d = some v) : ∃ header receipt, marshalRaw d.header = some header ∧
    marshalReceipt d.receipt = some receipt ∧ unmarshal v = some (d.stored header receipt) := by
  obtain ⟨header, encoded, h⟩ := Option.bind_eq_some_iff.1 h
  obtain ⟨receipt, written, h⟩ := Option.bind_eq_some_iff.1 h
  obtain ⟨shallow, h⟩ := Option.ite_none_left_eq_some.1 h
  cases h
  refine ⟨header, receipt, encoded, written, ?_⟩
  unfold Value.ofFields at shallow ⊢
  unfold unmarshal
  dsimp only
  rw [if_neg shallow]
  simp [Data.fields, member?_ofFields_cons, bytes?_ofSlice, goString?_ofGoString, Data.stored]

/-! ## Sealed rows -/

variable {c : Config}

theorem encode_ok (h : encode c j = .ok sealed) :
    j.projectID ≠ [] ∧ j.askID ≠ [] ∧ 1 ≤ j.revision ∧ validData c j.data ∧ ∃ plain, marshal j.data = some plain ∧
      sealed = ⟨j.projectID.coerce, j.askID.coerce, j.revision, j.phase, j.revoked, plain⟩ := by
  obtain ⟨accepted, h⟩ := of_refuse h
  simp only [Bool.or_eq_false_iff, beq_eq_false_iff_ne, ne_eq, decide_eq_false_iff_not, not_lt, Bool.not_eq_false'] at accepted
  obtain ⟨⟨⟨project, ask⟩, revision⟩, checked⟩ := accepted
  refine ⟨project, ask, revision, checked, ?_⟩
  split at h
  case h_1 => cases h
  case h_2 plain written =>
    cases h
    exact ⟨plain, written, rfl⟩

theorem validDigest_isValid {s : GoString} (h : validDigest s) : s.isValid := by
  unfold validDigest at h
  rw [Bool.and_eq_true, List.all_eq_true] at h
  unfold GoString.isValid
  rw [List.all_eq_true]
  intro x mem
  have each := h.2 x mem
  cases x with
  | inl ch => rfl
  | inr b => cases each

theorem validData_iff : validData c d ↔ d.predecessorWire ≠ [] ∧
    d.wireDigest = .ofString (hexEncode (c.sha256 d.predecessorWire)) ∧ Json.valid d.header ∧
    (emptyReceipt d.receipt ∨ d.receipt.any Json.valid) ∧
    (d.replyDigest = [] ∨ validDigest d.replyDigest) := by
  simp [validData, and_assoc]

/-- Valid data is read back as valid data. -/
theorem validData_stored {header receipt : Value} (checked : validData c d) (head : Encoded header)
    (tail : Encoded receipt) : validData c (d.stored header receipt) := by
  obtain ⟨wire, digest, -, -, reply⟩ := validData_iff.1 checked
  refine validData_iff.2 ⟨wire, ?_, head.valid, .inr (by simpa [Data.stored] using tail.valid), ?_⟩
  · change d.wireDigest.coerce = _
    rw [digest]
    exact GoString.coerce_of_valid (GoString.isValid_ofString _)
  · change d.replyDigest.coerce = [] ∨ validDigest d.replyDigest.coerce
    rcases reply with empty | digits
    · exact .inl (GoString.coerce_eq_nil.2 empty)
    · rw [GoString.coerce_of_valid (validDigest_isValid digits)]
      exact .inr digits

/-- A row that was written is read back. -/
theorem scan_row (written : encode c j = .ok sealed) :
    ∃ header receipt, marshalRaw j.data.header = some header ∧ marshalReceipt j.data.receipt = some receipt ∧
      scan c (j.row sealed) = .ok { j with data := j.data.stored header receipt } := by
  obtain ⟨project, ask, revision, checked, plain, marshalled, rfl⟩ := encode_ok written
  obtain ⟨header, receipt, head, tail, read⟩ := marshal_eq_some marshalled
  refine ⟨header, receipt, head, tail, ?_⟩
  have again := validData_stored checked (.ofRaw head) (.ofReceipt tail)
  have positive : ¬ j.revision < 1 := by omega
  unfold scan Job.row
  rw [read]
  simp only [bne_self_eq_false, Bool.or_self, refuse_false, ok_bind, beq_eq_false_iff_ne.2 project,
    beq_eq_false_iff_ne.2 ask, positive, decide_false, again, Bool.not_true]
  rfl

end Pagnet.Textbridge
