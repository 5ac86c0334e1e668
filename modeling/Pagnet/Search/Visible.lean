import Pagnet.Search.IdSets
import Pagnet.Search.Publication
import Pagnet.Search.Sound

/-!
# Visibility

`NewVisibility` gathers the ids and the statistics of the references it is
given, each one once: exactly those of the visible live documents.
-/

namespace Pagnet.Search
open Fabric List

variable {S : Type} {lib : Library} {g : Generation}

/-- The document has one of the references. -/
def visibleTo (refs : List EndpointRef) (d : Indexed) : Bool := decide (d.ref ∈ refs.map EndpointRef.toString)

/-- The visible live documents. -/
def Generation.visible (g : Generation) (refs : List EndpointRef) : List Indexed := g.live.filter (visibleTo refs)

/-- What was gathered of the references so far. -/
structure Gathered.Valid (g : Generation) (acc : Gathered) (refs : List EndpointRef) : Prop where
  set : acc.set.WellFormed g.level
  mem : ∀ i < spanOf g.level, acc.set.mem g.level i = decide (i ∈ acc.seen)
  seen : ∀ i, i ∈ acc.seen ↔ ∃ r ∈ refs, ∃ e, g.refs.get r.toString = some e ∧ e.id = i
  live : ∀ r ∈ refs, ∃ e d, g.refs.get r.toString = some e ∧ e.value = some d
  stats : acc.stats.Describes (g.visible refs)

theorem gathered_empty : Gathered.empty.Valid g [] where
  set := IdSet.wellFormed_nil _
  mem i _ := by
    rw [Gathered.empty, IdSet.mem_nil]
    rfl
  seen i := by simp [Gathered.empty]
  live := nofun
  stats := by
    have none_visible : g.visible [] = [] := filter_eq_nil_iff.2 fun d _ => by simp [visibleTo]
    rw [none_visible]
    exact Corpus.describes_nil

variable {r : EndpointRef} {refs : List EndpointRef}

/-- One more reference is visible, of a document that was not. -/
theorem visible_snoc (core : g.Core lib) {d : Indexed} (mem : d ∈ g.live)
    (ref : d.ref = r.toString) (hidden : visibleTo refs d = false) :
    (g.visible (refs ++ [r])).Perm (d :: g.visible refs) := by
  have absent : d ∉ g.visible refs := by
    intro inside
    rw [(List.mem_filter.1 inside).2] at hidden
    cases hidden
  refine (perm_ext_iff_of_nodup (core.live_nodup.filter _)
    (nodup_cons.2 ⟨absent, core.live_nodup.filter _⟩)).2 fun x => ?_
  simp only [Generation.visible, mem_cons, List.mem_filter, visibleTo, map_append, map_singleton,
    mem_append, not_mem_nil, or_false, decide_eq_true_eq]
  constructor
  · rintro ⟨inside, old | new⟩
    · exact .inr ⟨inside, old⟩
    · exact .inl (core.live_unique inside mem (new.trans ref.symm))
  · rintro (rfl | ⟨inside, old⟩)
    · exact ⟨mem, .inr ref⟩
    · exact ⟨inside, .inl old⟩

/-- A reference that was visible already. -/
theorem visible_again (again : r ∈ refs) : g.visible (refs ++ [r]) = g.visible refs := by
  refine filter_congr fun d _ => ?_
  refine decide_eq_decide.2 ?_
  rw [map_append, mem_append]
  refine ⟨fun h => h.elim id fun last => ?_, .inl⟩
  rw [map_singleton, mem_singleton] at last
  rw [last]
  exact mem_map_of_mem again

theorem gather_valid (core : g.Core lib) {acc acc' : Gathered}
    (valid : acc.Valid g refs) (h : gather g acc r = .ok acc') : acc'.Valid g (refs ++ [r]) := by
  unfold gather at h
  split at h
  case h_1 => cases h
  case h_2 e found =>
    split at h
    case h_1 => cases h
    case h_2 d value =>
      have live : ∀ r' ∈ refs ++ [r], ∃ e d, g.refs.get r'.toString = some e ∧ e.value = some d := by
        intro r' mem
        rcases mem_append.1 mem with old | new
        · exact valid.live r' old
        · rw [mem_singleton.1 new]
          exact ⟨e, d, found, value⟩
      have inside : e.id < spanOf g.level := (core.ids found).trans_le core.room
      split at h
      case isTrue again =>
        cases h
        obtain ⟨r', old, e', found', same⟩ := (valid.seen e.id).1 again
        have known : r ∈ refs := by
          have texts := core.unique found' found same
          rw [EndpointRef.toString_injective texts] at old
          exact old
        refine ⟨valid.set, valid.mem, fun i => ?_, live, ?_⟩
        · rw [valid.seen]
          constructor
          · rintro ⟨r', mem, rest⟩
            exact ⟨r', mem_append_left _ mem, rest⟩
          · rintro ⟨r', mem, rest⟩
            rcases mem_append.1 mem with old | new
            · exact ⟨r', old, rest⟩
            · rw [mem_singleton.1 new] at rest
              exact ⟨r, known, rest⟩
        · rw [visible_again known]
          exact valid.stats
      case isFalse fresh =>
        cases h
        have added := setAdd_added valid.set (Nat.zero_le e.id) (by omega)
        refine ⟨added.wellFormed, fun i within => ?_, fun i => ?_, live, ?_⟩
        · rw [added.mem i within, valid.mem i within, ← Bool.decide_or]
          exact decide_eq_decide.2 mem_cons.symm
        · rw [mem_cons, valid.seen]
          constructor
          · rintro (rfl | ⟨r', mem, rest⟩)
            · exact ⟨r, mem_append_right _ (mem_singleton_self r), e, found, rfl⟩
            · exact ⟨r', mem_append_left _ mem, rest⟩
          · rintro ⟨r', mem, e', found', same⟩
            rcases mem_append.1 mem with old | new
            · exact .inr ⟨r', old, e', found', same⟩
            · rw [mem_singleton.1 new, found] at found'
              exact .inl (same.symm.trans (congrArg Entry.id (Option.some.inj found')).symm)
        · have in_live : d ∈ g.live := mem_live.2 ⟨_, e, found, value⟩
          have ref := (core.values found value).1
          have hidden : visibleTo refs d = false := by
            rw [visibleTo, decide_eq_false_iff_not, mem_map]
            rintro ⟨r', mem, text⟩
            refine fresh ((valid.seen e.id).2 ⟨r', mem, e, ?_, rfl⟩)
            rw [text, ref]
            exact found
          have perm := visible_snoc core in_live ref hidden
          have small : Small lib (d :: g.visible refs) := by
            refine ⟨fun x mem => ?_, ?_⟩
            · exact core.compacted (List.mem_filter.1 (perm.mem_iff.2 mem)).1
            · rw [← perm.length_eq]
              exact (length_filter_le ..).trans (core.length_live.trans (Nat.le_succ _))
          exact (adjustStats_add valid.stats small.head.wellFormed small.fits small.lengths).perm perm.symm

/-- The visible documents and their statistics. -/
structure Visibility.Valid (g : Generation) (v : Visibility) (refs : List EndpointRef) : Prop where
  set : v.set.WellFormed g.level
  mem : ∀ {i d}, i < spanOf g.level → g.root.get g.level i = some d → v.set.mem g.level i = visibleTo refs d
  stats : v.stats.Describes (g.visible refs)

theorem newVisibility_valid {c : Config S} {p : Pointer} {authority : String} {v : Visibility}
    (core : p.generation.Core c.lib) (h : newVisibility c p refs authority = .ok v) :
    v.Valid p.generation refs ∧ v.generation = p.address ∧ v.authorityRevision = authority ∧
      v.fingerprint = fingerprint c.lib refs := by
  have h := past_refuse h
  obtain ⟨acc, gathered, h⟩ := of_bind h
  cases h
  have loop : ∀ (rest done : List EndpointRef) (acc acc' : Gathered), acc.Valid p.generation done →
      rest.foldlM (gather p.generation) acc = .ok acc' → acc'.Valid p.generation (done ++ rest) := by
    intro rest
    induction rest with
    | nil =>
      intro done acc acc' valid h
      rw [append_nil]
      exact Except.ok.inj h ▸ valid
    | cons r rest ih =>
      intro done acc acc' valid h
      obtain ⟨next, turn, h⟩ := of_bind h
      have later := ih _ _ _ (gather_valid core valid turn) h
      rwa [append_assoc, singleton_append] at later
  have valid := loop refs [] .empty acc gathered_empty gathered
  refine ⟨⟨valid.set, fun {i d} inside slot => ?_, valid.stats⟩, rfl, rfl, rfl⟩
  obtain ⟨e, found, same⟩ := core.filled inside slot
  rw [valid.mem i inside]
  refine decide_eq_decide.2 ?_
  rw [valid.seen, mem_map]
  constructor
  · rintro ⟨r, mem, e', found', same'⟩
    exact ⟨r, mem, core.unique found' found (same'.trans same.symm)⟩
  · rintro ⟨r, mem, text⟩
    exact ⟨r, mem, e, text ▸ found, same⟩

end Pagnet.Search
