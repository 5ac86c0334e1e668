import Pagnet.Search.Moves

/-!
# The history of a generation

The catalogue as its publications tell it: a list of changes, the last one
first. An upsert is effective when its revision of the reference was not
published before, and a reference has the document of its last effective upsert
unless a deletion came after it. The index holds exactly this catalogue.
-/

namespace Pagnet.Search
open Fabric

variable {S : Type} {c : Config S} {g g' : Generation}

inductive Change where
  | upsert (d : SearchDocument)
  | delete (ref : EndpointRef)
  deriving DecidableEq

/-- The changes of a batch, the last one first. -/
def Batch.changes (batch : Batch) : List Change :=
  (batch.upserts.map Change.upsert ++ batch.deletes.map fun d => Change.delete d.ref).reverse

def Change.isRevision (ref : EndpointRef) (revision : String) : Change → Bool
  | .upsert d => d.ref = ref && d.revision = revision
  | .delete _ => false

/-- This revision of the reference was published before. -/
def wasPublished (changes : List Change) (ref : EndpointRef) (revision : String) : Bool :=
  changes.any (Change.isRevision ref revision)

theorem wasPublished_upsert (d : SearchDocument) (changes : List Change) (ref : EndpointRef) (revision : String) :
    wasPublished (.upsert d :: changes) ref revision =
      (decide (d.ref = ref ∧ d.revision = revision) || wasPublished changes ref revision) := by
  rw [wasPublished, List.any_cons, Change.isRevision, ← Bool.decide_and]
  rfl

/-- The last effective upsert of a reference that no deletion follows. -/
def lastEffective : List Change → EndpointRef → Option SearchDocument
  | [], _ => none
  | .upsert d :: earlier, ref =>
    if d.ref = ref ∧ wasPublished earlier ref d.revision = false then some d else lastEffective earlier ref
  | .delete deleted :: earlier, ref => if deleted = ref then none else lastEffective earlier ref

/-- The document the index holds for a reference. -/
def Generation.document (g : Generation) (ref : EndpointRef) : Option SearchDocument :=
  ((g.refs.get ref.toString).bind (·.value)).map (·.doc)

/-- A generation after these changes. -/
structure Tracks (g : Generation) (changes : List Change) : Prop where
  seen : ∀ ref revision, (g.seen.get (historyKey ref.toString revision)).isSome = wasPublished changes ref revision
  document : ∀ ref, g.document ref = lastEffective changes ref

theorem tracks_initial : Tracks .initial [] := ⟨fun _ _ => rfl, fun _ => rfl⟩

variable {changes : List Change}

theorem Tracks.same (tracks : Tracks g changes) (refs : g'.refs = g.refs)
    (seen : g'.seen = g.seen) : Tracks g' changes := by
  refine ⟨?_, ?_⟩
  · rw [seen]
    exact tracks.seen
  · unfold Generation.document
    rw [refs]
    exact tracks.document

/-- The documents after one entry was written. -/
theorem document_put (refs : Dictionary String Entry) (r : EndpointRef) (e : Entry) (ref : EndpointRef) :
    (((refs.put r.toString e).get ref.toString).bind (·.value)).map (·.doc) =
      if r = ref then e.value.map (·.doc) else ((refs.get ref.toString).bind (·.value)).map (·.doc) := by
  rw [Dictionary.get_put]
  by_cases same : r = ref
  · rw [if_pos (congrArg _ same.symm), if_pos same]
    rfl
  · rw [if_neg fun eq => same (EndpointRef.toString_injective eq).symm, if_neg same]

section

variable (tracks : Tracks g changes)
include tracks

theorem upsert_tracks (sound : g.Sound c.lib) {d : SearchDocument}
    (h : upsert c g d = .ok g') : Tracks g' (.upsert d :: changes) := by
  obtain ⟨value, digest, compacted, ⟨found, rfl⟩ | ⟨missing, -, g₁, e, allocated, rfl⟩⟩ := upsert_ok h
  · have before : wasPublished changes d.ref d.revision := by
      rw [← tracks.seen, found]
      rfl
    constructor
    · intro ref revision
      rw [tracks.seen, wasPublished_upsert]
      by_cases same : d.ref = ref ∧ d.revision = revision
      · obtain ⟨rfl, rfl⟩ := same
        rw [before, Bool.or_true]
      · rw [decide_eq_false same, Bool.false_or]
    · intro ref
      rw [tracks.document, lastEffective, if_neg]
      rintro ⟨rfl, fresh⟩
      rw [before] at fresh
      cases fresh
  · have before : wasPublished changes d.ref d.revision = false := by
      rw [← tracks.seen, missing]
      rfl
    obtain ⟨-, alloc⟩ := allocate_core sound.core allocated
    obtain ⟨doc, -, -⟩ := compact_self compacted
    constructor
    · intro ref revision
      rw [Dictionary.get_put, alloc.seen, wasPublished_upsert]
      by_cases same : d.ref = ref ∧ d.revision = revision
      · obtain ⟨rfl, rfl⟩ := same
        simp
      · have other : historyKey ref.toString revision ≠ historyKey d.ref.toString d.revision := by
          intro eq
          obtain ⟨rfl, rfl⟩ := historyKey_inj eq
          exact same ⟨rfl, rfl⟩
        rw [if_neg other, decide_eq_false same, Bool.false_or, tracks.seen]
    · intro ref
      refine (document_put g₁.refs d.ref ⟨e.id, some value, d.revision⟩ ref).trans ?_
      rw [alloc.refs, lastEffective]
      rcases eq_or_ne d.ref ref with rfl | same
      · rw [if_pos rfl, if_pos ⟨rfl, before⟩, Option.map_some, doc]
      · rw [if_neg same, if_neg fun both => same both.1]
        exact tracks.document ref

theorem delete_tracks {d : Deletion} (h : delete g d = .ok g') : Tracks g' (.delete d.ref :: changes) := by
  obtain ⟨e, found, -, ⟨deleted, rfl⟩ | ⟨-, rfl⟩⟩ := delete_ok h
  · refine ⟨tracks.seen, fun ref => ?_⟩
    rw [lastEffective]
    split
    case isTrue same =>
      rw [Generation.document, ← same, found, Option.bind_some, deleted]
      rfl
    case isFalse => exact tracks.document ref
  · refine ⟨tracks.seen, fun ref => ?_⟩
    refine (document_put g.refs d.ref ⟨e.id, none, e.revision⟩ ref).trans ?_
    rw [lastEffective]
    split
    · rfl
    · exact tracks.document ref

/-- The changes of a list of upserts, on top of those before them. -/
theorem upserts_track (sound : g.Sound c.lib)
    {upserts : List SearchDocument} (h : upserts.foldlM (upsert c) g = .ok g') :
    Tracks g' ((upserts.map Change.upsert).reverse ++ changes) := by
  induction upserts generalizing g changes with
  | nil =>
    cases h
    exact tracks
  | cons d rest ih =>
    obtain ⟨next, upserted, h⟩ := of_bind h
    have later := ih (upsert_tracks tracks sound upserted) (upsert_sound sound upserted) h
    simpa using later

theorem deletes_track {deletes : List Deletion} (h : deletes.foldlM delete g = .ok g') :
    Tracks g' ((deletes.map fun d => Change.delete d.ref).reverse ++ changes) := by
  induction deletes generalizing g changes with
  | nil =>
    cases h
    exact tracks
  | cons d rest ih =>
    obtain ⟨next, deleted, h⟩ := of_bind h
    simpa using ih (delete_tracks tracks deleted) h

theorem prepare_tracks (sound : g.Sound c.lib) {batch : Batch}
    {record : CommitRecord S} (h : prepare c g batch = .ok (g', record)) : Tracks g' (batch.changes ++ changes) := by
  obtain ⟨sequence, upserted, deleted, hash, p, rfl, -⟩ := prepare_ok.1 h
  have start : Tracks { g with sourceSequence := sequence } changes := tracks.same rfl rfl
  have first := upserts_track start sound.same p.upserts
  have both := deletes_track first p.deletes
  rw [Batch.changes, List.reverse_append, List.append_assoc]
  exact both.same rfl rfl

end

end Pagnet.Search
