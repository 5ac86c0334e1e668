import Mathlib.Data.Nat.Digits.Defs
import Pagnet.Data.Framing
import Pagnet.Search.Written

/-!
# What the digest of a header commits to

The rows are hashed one after the other, each with its length in front of it,
so different rows are different messages: two checkpoints with one digest have
the same rows, or two messages with one digest were found.
-/

namespace Pagnet.Search
open Json Fabric List

variable {S : Type} {c : Config S} {lib : Library} {g g' : Generation}

/-! ## Frames -/

theorem bigEndian64_eq (n : Nat) : bigEndian64 n = bigEndian 8 n := by
  simp [bigEndian64, bigEndian, range_succ, Nat.div_div_eq_div_mul]

/-- The rows are the fields of a frame. -/
theorem flatMap_frame (values : List Value) :
    values.flatMap frame = Pagnet.frame 8 (values.map (bytesOf ∘ Value.render)) := by
  unfold Pagnet.frame
  rw [flatMap_map]
  refine flatMap_congr fun v _ => ?_
  rw [frame, bigEndian64_eq, Function.comp, length_bytesOf]
  rfl

/-- Framed encodings can be told apart. -/
theorem frames_injective {as bs : List Value} (small : ∀ v ∈ as, v.size < 2 ^ 64) (small' : ∀ v ∈ bs, v.size < 2 ^ 64)
    (h : as.flatMap frame = bs.flatMap frame) : as.map Value.render = bs.map Value.render := by
  have short {values : List Value} (small : ∀ v ∈ values, v.size < 2 ^ 64) :
      ∀ field ∈ values.map (bytesOf ∘ Value.render), field.length < 256 ^ 8 := by
    rw [forall_mem_map]
    exact fun v mem => (length_bytesOf _).trans_lt (small v mem)
  rw [flatMap_frame, flatMap_frame] at h
  have same := frame_inj (by decide) (short small) (short small') h
  rw [← map_map, ← map_map] at same
  exact map_injective_iff.2 (fun _ _ => bytesOf_injective) same

/-! ## The sizes of rows -/

/-- The fields of a struct within a bound. -/
theorem size_ofFields_bounded {fields : List (String × Value)} {bound : Nat}
    (each : ∀ field ∈ fields, field.1.utf8ByteSize ≤ 64 ∧ field.2.size ≤ bound) :
    (Value.ofFields fields).size ≤ 2 + fields.length * (bound + 400) := by
  have field_le : ∀ n ∈ fields.map fun f => Json.size (quote f.1) + f.2.size + 4, n ≤ bound + 400 := by
    rw [forall_mem_map]
    intro field mem
    have whole := size_ofString_le field.1
    have short := each field mem
    simp only [Value.ofString, Value.size, render_string, size_cons, size_append, size_nil] at whole short ⊢
    omega
  have sum := sum_le_card_nsmul _ _ field_le
  rw [length_map] at sum
  calc (Value.ofFields fields).size
    _ ≤ (fields.map fun f => Json.size (quote f.1) + f.2.size + 4).sum + 2 := size_ofFields_le fields
    _ ≤ fields.length * (bound + 400) + 2 := Nat.add_le_add_right sum 2
    _ = 2 + fields.length * (bound + 400) := Nat.add_comm _ _

theorem size_le_four (text : Text) : Json.size text ≤ 4 * text.length := by
  induction text with
  | nil => exact Nat.le_refl 0
  | cons ch rest ih =>
    have := ch.utf8Size_le_four
    rw [size_cons, length_cons]
    omega

theorem size_ref_le (r : EndpointRef) : r.toString.utf8ByteSize ≤ 1024 := by
  by_cases zeroed : r = .zero
  · rw [zeroed, EndpointRef.toString_zero]
    decide
  obtain ⟨canonical, endpoint, offer⟩ := EndpointRef.canonical_of_ne zeroed
  have length : r.toString.toList.length ≤ 173 := by
    have rest : (if r.offerID = "" then [] else "#o-".toList ++ r.offerID.toList).length ≤ 55 := by
      rcases offer with plain | offered
      · simp [plain]
      · split
        · simp
        · rw [length_append, canonicalReferenceID_length offered]
          decide
    have constants : referencePrefix.toList.length = 9 ∧ "/e/".toList.length = 3 := by decide
    rw [EndpointRef.toString_toList canonical endpoint]
    simp only [length_append, canonicalDomainNamespace_length canonical, canonicalReferenceID_length endpoint,
      constants.1, constants.2]
    omega
  have bytes := size_le_four r.toString.toList
  rw [utf8ByteSize_eq_size]
  omega

theorem size_ofInt_le {n : Nat} (small : n < 10 ^ 10) : (Value.ofInt n).size ≤ 40 := by
  have digits := Nat.repr_length n 10 (by decide) small
  have bytes := size_le_four n.repr.toList
  rw [String.length_toList] at bytes
  change Json.size n.repr.toList ≤ 40
  omega

/-- The rows of a sound generation are short. -/
theorem size_referenceRow {nextID : Nat} {r : CheckpointReference} (readable : r.Readable lib nextID)
    (few : nextID ≤ maxDocuments) : r.toJson.size < 2 ^ 64 := by
  have ref := (size_ofString_le r.ref.toString).trans (Nat.add_le_add_right (Nat.mul_le_mul_left 6 (size_ref_le r.ref)) 2)
  have id : (Value.ofInt r.storageID).size ≤ 40 := by
    have inside := readable.id
    simp only [maxDocuments] at few
    exact size_ofInt_le (by omega)
  have revision := (size_ofString_le r.revision).trans (Nat.add_le_add_right (Nat.mul_le_mul_left 6 readable.revision.2) 2)
  have document : (documentJson r.document).size ≤ 16384 := by
    cases found : r.document with
    | none => decide
    | some d =>
      obtain ⟨-, -, digest, compacted⟩ := readable.document found
      exact (compact_ok compacted).2.2.1
  have whole := @size_ofFields_bounded [("ref", .ofString r.ref.toString), ("storageId", .ofInt r.storageID),
    ("revision", .ofString r.revision), ("document", documentJson r.document)] 16384 (by
      simp only [mem_cons, not_mem_nil, or_false, forall_eq_or_imp, forall_eq]
      refine ⟨⟨by decide, by omega⟩, ⟨by decide, by omega⟩, ⟨by decide, by omega⟩, by decide, document⟩)
  simp only [length_cons, length_nil] at whole
  change (Value.ofFields _).size < _
  omega

theorem size_revisionRow {refRows : List CheckpointReference} {rows : List CheckpointRevision}
    (ledger : RevisionRows refRows rows) {r : CheckpointRevision} (mem : r ∈ rows) : r.toJson.size < 2 ^ 64 := by
  obtain ⟨a, -, revision, key_is, -, short⟩ := ledger.identity r mem
  have key : (Value.ofString r.key).size ≤ 16384 := by
    have bytes : r.key.utf8ByteSize ≤ 1024 + 1 + 256 := by
      have parts : Json.size (historyKey a.key revision).toList = Json.size a.key.toList + (1 + Json.size revision.toList) := by
        rw [historyKey_toList, size_append, size_cons]
        rfl
      have ref := size_ref_le a.ref
      rw [utf8ByteSize_eq_size] at ref short
      rw [key_is, utf8ByteSize_eq_size, parts]
      change Json.size a.key.toList ≤ 1024 at ref
      omega
    have := size_ofString_le r.key
    omega
  have digest : (Value.ofString r.sha256).size ≤ 16384 := by
    have valid := ledger.digest r mem
    simp only [validDigest, Bool.and_eq_true, beq_iff_eq] at valid
    have := size_ofString_le r.sha256
    omega
  have whole := @size_ofFields_bounded [("key", .ofString r.key), ("sha256", .ofString r.sha256)] 16384 (by
    simp only [mem_cons, not_mem_nil, or_false, forall_eq_or_imp, forall_eq]
    exact ⟨⟨by decide, key⟩, by decide, digest⟩)
  simp only [length_cons, length_nil] at whole
  change (Value.ofFields _).size < _
  omega

/-! ## One digest, one set of rows -/

/-- Two messages with one digest. -/
def Collision (lib : Library) (a b : List UInt8) : Prop := a ≠ b ∧ lib.sha256 a = lib.sha256 b

/-- Rows of a generation with the digest of other rows are the same ones. -/
theorem rows_of_digest {header : CheckpointHeader S} {refRows refRows' : List CheckpointReference}
    {revRows revRows' : List CheckpointRevision} (few : header.nextID ≤ maxDocuments)
    (rows : ReferenceRows c.lib header.nextID refRows) (rows' : ReferenceRows c.lib header.nextID refRows')
    (ledger : RevisionRows refRows revRows) (ledger' : RevisionRows refRows' revRows')
    (counts : refRows.length = refRows'.length)
    (same : hexEncode (c.lib.sha256 (commitment c header refRows revRows)) =
      hexEncode (c.lib.sha256 (commitment c header refRows' revRows'))) :
    (refRows.map (·.toJson.render) = refRows'.map (·.toJson.render) ∧
      revRows.map (·.toJson.render) = revRows'.map (·.toJson.render)) ∨
    Collision c.lib (commitment c header refRows revRows) (commitment c header refRows' revRows') := by
  by_cases equal : commitment c header refRows revRows = commitment c header refRows' revRows'
  case neg => exact .inr ⟨equal, hexEncode_injective same⟩
  refine .inl ?_
  unfold commitment at equal
  rw [append_assoc, append_assoc, append_cancel_left_eq] at equal
  have framed : (refRows.map CheckpointReference.toJson ++ revRows.map CheckpointRevision.toJson).flatMap frame =
      (refRows'.map CheckpointReference.toJson ++ revRows'.map CheckpointRevision.toJson).flatMap frame := by
    simp only [flatMap_append, flatMap_map]
    exact equal
  have small : ∀ {refs : List CheckpointReference} {revs : List CheckpointRevision},
      ReferenceRows c.lib header.nextID refs → RevisionRows refs revs →
      ∀ v ∈ refs.map CheckpointReference.toJson ++ revs.map CheckpointRevision.toJson, v.size < 2 ^ 64 := by
    intro refs revs rows ledger v mem
    rcases mem_append.1 mem with first | second
    · obtain ⟨r, listed, rfl⟩ := mem_map.1 first
      exact size_referenceRow (rows.readable r listed) few
    · obtain ⟨r, listed, rfl⟩ := mem_map.1 second
      exact size_revisionRow ledger listed
  have texts := frames_injective (small rows ledger) (small rows' ledger') framed
  simp only [map_append, map_map] at texts
  exact append_inj texts (by simpa using counts)

end Pagnet.Search
