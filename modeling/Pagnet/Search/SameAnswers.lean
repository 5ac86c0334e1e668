import Pagnet.Search.Answers
import Pagnet.Search.Twin

/-!
# Twins answer alike

Two sound generations with the same labels, references and revisions have the
same documents in the same slots and the same statistics, so no search can tell
them apart, its cursors included.
-/

namespace Pagnet.Search
open Fabric

variable {S : Type} {c : Config S} {lib : Library} {g g' : Generation}

/-- What can be observed of a generation. -/
structure Generation.Same (g g' : Generation) : Prop where
  number : g'.number = g.number
  cursor : g'.cursor = g.cursor
  commitHash : g'.commitHash = g.commitHash
  sourceSequence : g'.sourceSequence = g.sourceSequence
  replayFloor : g'.replayFloor = g.replayFloor
  nextID : g'.nextID = g.nextID
  level : g'.level = g.level
  /-- The storage id, the document and the revision of every reference. -/
  entries : ∀ ref, g'.refs.get ref = g.refs.get ref
  ledger : ∀ key, g'.seen.get key = g.seen.get key
  live : g'.live = g.live
  slots : ∀ i < spanOf g.level, g'.root.get g'.level i = g.root.get g.level i
  count : g'.stats.count = g.stats.count
  totalLength : g'.stats.totalLength = g.stats.totalLength
  df : ∀ name, g'.stats.df.get name = g.stats.df.get name
  bytes : g'.bytes = g.bytes

namespace Generation.Twin

theorem live (twin : g.Twin g') : g'.live = g.live := by
  rw [Generation.live, Generation.live, twin.refs]

theorem slots (twin : g.Twin g') (core : g.Core lib) (core' : g'.Core lib) {i : Nat} (inside : i < spanOf g.level) :
    g'.root.get g'.level i = g.root.get g.level i := by
  have filled : ∀ {h h' : Generation}, h.Twin h' → h.Core lib → h'.Core lib → i < spanOf h.level → ∀ {d},
      h.root.get h.level i = some d → h'.root.get h'.level i = some d := by
    intro h h' twin core core' inside d found
    obtain ⟨e, entry, rfl⟩ := core.filled inside found
    rw [core.slots entry] at found
    rw [core'.slots ((Dictionary.get_congr twin.refs d.ref).trans entry)]
    exact found
  have back : g'.Twin g := by
    obtain ⟨⟨number, nextID, level, versions, source, floor, cursor, hash⟩, refs, seen⟩ := twin
    exact ⟨⟨number.symm, nextID.symm, level.symm, versions.symm, source.symm, floor.symm, cursor.symm, hash.symm⟩,
      refs.symm, seen.symm⟩
  apply Option.ext
  intro d
  exact ⟨filled back core' core (by rw [twin.labels.level]; exact inside), filled twin core core' inside⟩

theorem same (twin : g.Twin g') (core : g.Core lib) (core' : g'.Core lib) : g.Same g' where
  __ := twin.labels
  entries := Dictionary.get_congr twin.refs
  ledger := Dictionary.get_congr twin.seen
  live := twin.live
  slots _ inside := twin.slots core core' inside
  count := by rw [core.stats.count, core'.stats.count, twin.live]
  totalLength := by rw [core.stats.totalLength, core'.stats.totalLength, twin.live]
  df name := by rw [core.stats.df, core'.stats.df, twin.live]
  bytes := by rw [core.bytes, core'.bytes, twin.live]

end Generation.Twin

/-! ## Searches -/

variable {refs : List EndpointRef} {p p' : Pointer}

theorem gather_fold_twin (twin : g.Twin g') {acc out : Gathered}
    (h : refs.foldlM (gather g) acc = .ok out) (acc' : Gathered) : ∃ out', refs.foldlM (gather g') acc' = .ok out' := by
  induction refs generalizing acc acc' with
  | nil => exact ⟨acc', rfl⟩
  | cons ref rest ih =>
    obtain ⟨next, first, h⟩ := of_bind h
    -- whether a reference is gathered depends on its entry alone
    have found : ∃ next', gather g' acc' ref = .ok next' := by
      unfold gather at first ⊢
      rw [Dictionary.get_congr twin.refs]
      split at first
      case h_1 => cases first
      case h_2 e entry =>
        split at first
        case h_1 => cases first
        case h_2 d value =>
          split <;> exact ⟨_, rfl⟩
    obtain ⟨next', found⟩ := found
    obtain ⟨out', rest'⟩ := ih h next'
    exact ⟨out', by rw [List.foldlM_cons, found, ok_bind, rest']⟩

theorem newVisibility_twin (twin : p.generation.Twin p'.generation)
    {authority : String} {v : Visibility} (h : newVisibility c p refs authority = .ok v) :
    ∃ v', newVisibility c p' refs authority = .ok v' := by
  obtain ⟨bounds, h⟩ := of_refuse h
  obtain ⟨acc, gathered, -⟩ := of_bind h
  obtain ⟨acc', gathered'⟩ := gather_fold_twin twin gathered .empty
  exact ⟨_, refuse_bind_eq_ok.2 ⟨bounds, bind_eq_ok.2 ⟨acc', gathered', rfl⟩⟩⟩

variable [Field S] [LinearOrder S] [IsStrictOrderedRing S]

/-- The same answers to every search, of everything and of what is visible. -/
structure SameAnswers (c : Config S) (p p' : Pointer) : Prop where
  all : ∀ (codec : CursorCodec S) (r : DiscoverRequest) (operator : String) (finalValidate : Except String Unit)
    (final final' : Nat), searchWithOptions c codec p' r ⟨operator, none, finalValidate⟩ final' =
      searchWithOptions c codec p r ⟨operator, none, finalValidate⟩ final
  visible : ∀ (refs : List EndpointRef) (authority : String) (v : Visibility),
    newVisibility c p refs authority = .ok v → ∃ v', newVisibility c p' refs authority = .ok v' ∧
      ∀ (codec : CursorCodec S) (r : DiscoverRequest) (operator : String) (finalValidate : Except String Unit),
        searchWithOptions c codec p' r ⟨operator, some v', finalValidate⟩ p'.address =
          searchWithOptions c codec p r ⟨operator, some v, finalValidate⟩ p.address

theorem Generation.Twin.sameAnswers (good : c.Good) (twin : p.generation.Twin p'.generation)
    (core : p.generation.Core c.lib) (core' : p'.generation.Core c.lib) : SameAnswers c p p' where
  all codec r operator finalValidate final final' := by
    rw [search_all good codec core, search_all good codec core', twin.live, twin.labels.number]
  visible refs authority v made := by
    obtain ⟨v', made'⟩ := newVisibility_twin twin made
    refine ⟨v', made', fun codec r operator finalValidate => ?_⟩
    rw [search_visible good codec core made, search_visible good codec core' made', Generation.visible,
      Generation.visible, twin.live, twin.labels.number]

end Pagnet.Search
