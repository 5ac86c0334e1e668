import Pagnet.Search.Moves
import Pagnet.Search.Rows

/-!
# Generations that tell the same

Two generations with the same labels, references and revisions may have
dictionaries and trees of different shapes, one having grown with its
publications and the other having been built from rows. Every batch does the
same to both, so the records of one are the records of the other.
-/

namespace Pagnet.Search
open Json Fabric Dictionary

variable {S : Type} {c : Config S} {lib : Library} {g g' : Generation}

/-- The same generation up to the shape of its dictionaries and its tree. -/
structure Generation.Twin (g g' : Generation) : Prop where
  labels : g.SameLabels g'
  refs : g'.refs.toList = g.refs.toList
  seen : g'.seen.toList = g.seen.toList

/-! ## Batches -/

/-- How far a tree grows does not depend on what it holds. -/
theorem growTo_level_congr (fuel : Nat) (root root' : Node) (level id : Nat) :
    (growTo fuel root level id).2 = (growTo fuel root' level id).2 := by
  induction fuel generalizing root root' level with
  | zero => rfl
  | succ fuel ih =>
    rw [growTo, growTo]
    split
    · rfl
    · exact ih _ _ _

variable {g₁ : Generation}

theorem allocate_twin (twin : g.Twin g') {ref : String} {e : Entry}
    (h : allocate g ref = .ok (g₁, e)) : ∃ g₁', allocate g' ref = .ok (g₁', e) ∧ g₁.Twin g₁' := by
  unfold allocate at h ⊢
  rw [get_congr twin.refs, twin.labels.nextID, twin.labels.level]
  cases found : g.refs.get ref with
  | some old =>
    rw [found] at h
    cases h
    exact ⟨g', rfl, twin⟩
  | none =>
    rw [found] at h
    obtain ⟨room, h⟩ := of_refuse h
    cases h
    refine ⟨_, refuse_bind_eq_ok.2 ⟨room, rfl⟩, ⟨?_, twin.refs, twin.seen⟩⟩
    obtain ⟨number, -, -, versions, sequence, floor, cursor, hash⟩ := twin.labels
    exact ⟨number, rfl, growTo_level_congr _ _ _ _ _, versions, sequence, floor, cursor, hash⟩

theorem replaceValue_twin (twin : g.Twin g') (ref : String) (e : Entry) (value : Option Indexed) (revision : String) :
    (replaceValue g ref e value revision).Twin (replaceValue g' ref e value revision) := by
  obtain ⟨⟨number, nextID, level, versions, sequence, floor, cursor, hash⟩, refs, seen⟩ := twin
  exact ⟨⟨number, nextID, level, versions, sequence, floor, cursor, hash⟩, toList_put_congr refs _ _, seen⟩

theorem upsert_twin (twin : g.Twin g') {d : SearchDocument} (h : upsert c g d = .ok g₁) :
    ∃ g₁', upsert c g' d = .ok g₁' ∧ g₁.Twin g₁' := by
  obtain ⟨value, digest, compacted, same | written⟩ := upsert_ok h
  · obtain ⟨found, rfl⟩ := same
    refine ⟨g', ?_, twin⟩
    unfold upsert
    rw [compacted, ok_bind]
    dsimp only
    rw [get_congr twin.seen, found]
    simp [pure, Except.pure]
  · obtain ⟨missing, room, g₂, e, allocated, rfl⟩ := written
    obtain ⟨g₂', allocated', twin₂⟩ := allocate_twin twin allocated
    have after := replaceValue_twin twin₂ d.ref.toString e (some value) d.revision
    obtain ⟨⟨number, nextID, level, versions, sequence, floor, cursor, hash⟩, refs, seen⟩ := after
    refine ⟨{ replaceValue g₂' d.ref.toString e (some value) d.revision with
      versions := g₂'.versions + 1, seen := g₂'.seen.put (historyKey d.ref.toString d.revision) digest }, ?_, ?_⟩
    · unfold upsert
      rw [compacted, ok_bind]
      dsimp only
      rw [get_congr twin.seen, missing]
      rw [twin.labels.versions, decide_eq_false (Nat.not_le.2 room), refuse_false, ok_bind, allocated', ok_bind]
      rfl
    · exact ⟨⟨number, nextID, level, congrArg (· + 1) versions, sequence, floor, cursor, hash⟩, refs,
        toList_put_congr seen _ _⟩

theorem delete_twin (twin : g.Twin g') {d : Deletion} (h : delete g d = .ok g₁) :
    ∃ g₁', delete g' d = .ok g₁' ∧ g₁.Twin g₁' := by
  unfold delete at h ⊢
  obtain ⟨parsed, h⟩ := of_refuse h
  rw [parsed, refuse_false, ok_bind, get_congr twin.refs]
  cases found : g.refs.get d.ref.toString with
  | none =>
    rw [found] at h
    cases h
  | some e =>
    rw [found] at h
    obtain ⟨same, h⟩ := of_refuse h
    dsimp only
    rw [same, refuse_false, ok_bind]
    cases value : e.value with
    | none =>
      rw [value] at h
      cases h
      exact ⟨g', rfl, twin⟩
    | some old =>
      rw [value] at h
      cases h
      exact ⟨_, rfl, replaceValue_twin twin d.ref.toString e none e.revision⟩

/-- What every turn does alike to both sides, the loop does. -/
theorem foldlM_twin {α : Type} {f : Generation → α → Except Error Generation}
    (turn : ∀ {g g' g₁ a}, g.Twin g' → f g a = .ok g₁ → ∃ g₁', f g' a = .ok g₁' ∧ g₁.Twin g₁') {as : List α}
    (twin : g.Twin g') (h : as.foldlM f g = .ok g₁) : ∃ g₁', as.foldlM f g' = .ok g₁' ∧ g₁.Twin g₁' := by
  induction as generalizing g g' with
  | nil =>
    cases h
    exact ⟨g', rfl, twin⟩
  | cons a as ih =>
    obtain ⟨next, first, rest⟩ := of_bind h
    obtain ⟨next', first', twin'⟩ := turn twin first
    obtain ⟨g₁', rest', twin₁⟩ := ih twin' rest
    exact ⟨g₁', by rw [List.foldlM_cons, first', ok_bind, rest'], twin₁⟩

/-- A batch makes the same record on both. -/
theorem prepare_twin (twin : g.Twin g') {batch : Batch} {record : CommitRecord S}
    (h : prepare c g batch = .ok (g₁, record)) : ∃ g₁', prepare c g' batch = .ok (g₁', record) ∧ g₁.Twin g₁' := by
  obtain ⟨sequence, upserted, deleted, hash, p, rfl, rfl⟩ := prepare_ok.1 h
  obtain ⟨number, nextID, level, versions, source, floor, cursor, commit⟩ := twin.labels
  have ordered : batchSequence c g' batch.upstreamCursor = .ok sequence := by
    rw [← p.ordered]
    unfold batchSequence
    rw [source, floor]
  have start : Generation.Twin { g with sourceSequence := sequence } { g' with sourceSequence := sequence } :=
    ⟨⟨number, nextID, level, versions, rfl, floor, cursor, commit⟩, twin.refs, twin.seen⟩
  obtain ⟨upserted', upserts, twin₁⟩ := foldlM_twin (f := upsert c) (fun twin h => upsert_twin twin h) start p.upserts
  obtain ⟨deleted', deletes, twin₂⟩ := foldlM_twin (f := delete) (fun twin h => delete_twin twin h) twin₁ p.deletes
  have record : makeRecord c g' sequence batch = makeRecord c g sequence batch := by
    unfold makeRecord
    rw [number]
  have more : g'.number + 1 ≠ 2 ^ 64 := by
    rw [number]
    exact p.number
  have hashed : hashRecord c (makeRecord c g' sequence batch) = .ok hash := by
    rw [record]
    exact p.hashed
  refine ⟨deleted'.labelled g' batch hash, ?_, ?_⟩
  · rw [← record]
    exact prepare_ok.2 ⟨sequence, upserted', deleted', hash, ⟨p.bounds, ordered, upserts, deletes, more, hashed⟩, rfl, rfl⟩
  · obtain ⟨-, nextID, level, versions, source, floor, -, -⟩ := twin₂.labels
    have next : g'.number + 1 = g.number + 1 := by rw [number]
    exact ⟨⟨next, nextID, level, versions, source, floor, rfl, rfl⟩, twin₂.refs, twin₂.seen⟩

end Pagnet.Search
