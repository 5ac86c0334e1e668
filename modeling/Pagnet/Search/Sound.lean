import Pagnet.Search.Corpus
import Pagnet.Search.Summary

/-!
# Sound generations

What every generation keeps: the tree holds the current document of each
reference at its storage id and nothing else, and the statistics are those of
these documents. `replaceValue` is the only write to the tree, so one lemma
covers upserts, deletions and the rows of a checkpoint.
-/

namespace Pagnet.Search
open Json Fabric List Dictionary

variable {lib : Library} {g : Generation}

/-- The documents that are not deleted, in the order of their references. -/
def Generation.live (g : Generation) : List Indexed := g.refs.toList.filterMap (·.2.value)

/-- The live documents of the other references. -/
def Generation.others (g : Generation) (ref : String) : List Indexed := (g.refs.remove ref).toList.filterMap (·.2.value)

/-- A document as `compact` made it. -/
def Indexed.Compacted (lib : Library) (d : Indexed) : Prop := ∃ digest, compact lib d.doc = .ok (d, digest)

structure Generation.Core (lib : Library) (g : Generation) : Prop where
  tree : g.root.WellFormed g.level
  slots : ∀ {ref e}, g.refs.get ref = some e → g.root.get g.level e.id = e.value
  filled : ∀ {i d}, i < spanOf g.level → g.root.get g.level i = some d → ∃ e, g.refs.get d.ref = some e ∧ e.id = i
  docs : g.root.docs.Perm g.live
  ids : ∀ {ref e}, g.refs.get ref = some e → e.id < g.nextID
  unique : ∀ {ref ref' e e'}, g.refs.get ref = some e → g.refs.get ref' = some e' → e.id = e'.id → ref = ref'
  values : ∀ {ref e d}, g.refs.get ref = some e → e.value = some d → d.ref = ref ∧ d.Compacted lib
  room : g.nextID ≤ spanOf g.level
  small : spanOf g.level ≤ maxDocuments
  stats : g.stats.Describes g.live
  bytes : g.bytes = (g.live.map Indexed.encodedBytes).sum

/-- The same tree, references and statistics. -/
structure Generation.SameIndex (g g' : Generation) : Prop where
  root : g'.root = g.root := by rfl
  level : g'.level = g.level := by rfl
  nextID : g'.nextID = g.nextID := by rfl
  refs : g'.refs = g.refs := by rfl
  stats : g'.stats = g.stats := by rfl
  bytes : g'.bytes = g.bytes := by rfl

variable {g' : Generation} {docs : List Indexed} {level : Nat} {n root : Node} {d : Indexed} {e : Entry}
    {ref : String} {old value : Option Indexed}

theorem Generation.Core.same (core : g.Core lib) (same : g.SameIndex g' := by exact { }) : g'.Core lib := by
  obtain ⟨root, level, nextID, refs, stats, bytes⟩ := same
  cases g
  cases g'
  subst root level nextID refs stats bytes
  exact { core with }

/-! ## Compacted documents -/

namespace Indexed.Compacted

variable {d : Indexed}

theorem eq_indexDocument (compacted : d.Compacted lib) : d = indexDocument lib d.doc := by
  obtain ⟨digest, h⟩ := compacted
  exact (compact_ok h).2.2.2.1

theorem wellFormed (compacted : d.Compacted lib) : d.WellFormed := by
  rw [compacted.eq_indexDocument]
  exact indexDocument_wellFormed lib d.doc

theorem bounded (compacted : d.Compacted lib) : d.encodedBytes ≤ maxDocumentBytes ∧ d.length ≤ d.encodedBytes := by
  obtain ⟨digest, h⟩ := id compacted
  rw [compacted.eq_indexDocument]
  exact ⟨(compact_ok h).2.2.1, length_le_encodedBytes lib d.doc⟩

theorem named (compacted : d.Compacted lib) : d.ref ≠ "" := by
  obtain ⟨digest, h⟩ := compacted
  intro empty
  exact (compact_ok h).1 (EndpointRef.toString_injective (empty.trans EndpointRef.toString_zero.symm))

end Indexed.Compacted

/-- Documents within the size limit add up to no more than that. -/
theorem sum_le_of_bounded {size : Indexed → Nat} (bounded : ∀ d ∈ docs, size d ≤ maxDocumentBytes) :
    (docs.map size).sum ≤ docs.length * maxDocumentBytes := by
  have total := sum_le_card_nsmul (docs.map size) maxDocumentBytes fun n mem => by
    obtain ⟨d, inside, rfl⟩ := mem_map.1 mem
    exact bounded d inside
  simpa using total

/-- A tree holds no more documents than it spans ids. -/
theorem Node.WellFormed.length_docs (wf : n.WellFormed level) : n.docs.length ≤ spanOf level := by
  induction level generalizing n with
  | zero =>
    have slots := wf.slots_length
    have kept := reduceOption_length_le n.slots
    rw [wf.docs_leaf]
    simp only [spanOf]
    omega
  | succ level ih =>
    have left := ih wf.left
    have right := ih wf.right
    rw [wf.docs_branch, length_append, spanOf_succ]
    omega

/-! ## Live documents -/

theorem mem_live : d ∈ g.live ↔ ∃ ref e, g.refs.get ref = some e ∧ e.value = some d := by
  simp only [Generation.live, mem_filterMap, Prod.exists, get_eq_some]

/-- The entry of a reference, or the new one it is about to have. -/
structure Generation.Placed (g : Generation) (ref : String) (e : Entry) : Prop where
  entry : g.refs.get ref = some e ∨ g.refs.get ref = none ∧ e.value = none
  id : e.id < g.nextID
  slot : g.root.get g.level e.id = e.value
  owner : ∀ {ref' e'}, g.refs.get ref' = some e' → e'.id = e.id → ref' = ref

theorem Generation.Core.placed (core : g.Core lib) (found : g.refs.get ref = some e) : g.Placed ref e :=
  ⟨.inl found, core.ids found, core.slots found, fun other same => core.unique other found same⟩

theorem Generation.Placed.live_perm (placed : g.Placed ref e) : g.live.Perm (e.value.toList ++ g.others ref) := by
  rcases placed.entry with found | ⟨missing, fresh⟩
  · have perm := (toList_perm_of_get found).filterMap (·.2.value)
    refine perm.trans (List.Perm.of_eq ?_)
    rw [filterMap_cons]
    cases e.value <;> rfl
  · rw [Generation.others, toList_remove_of_get missing, fresh]
    exact List.Perm.refl _

theorem live_put_perm (refs : Dictionary String Entry) (ref : String) (e : Entry) :
    ((refs.put ref e).toList.filterMap (·.2.value)).Perm
      (e.value.toList ++ (refs.remove ref).toList.filterMap (·.2.value)) := by
  refine ((toList_put_perm refs ref e).filterMap (·.2.value)).trans (List.Perm.of_eq ?_)
  rw [filterMap_cons]
  cases e.value <;> rfl

/-- Documents that are few enough for unsigned sums of their sizes. -/
structure Small (lib : Library) (docs : List Indexed) : Prop where
  compacted : ∀ d ∈ docs, d.Compacted lib
  few : docs.length ≤ maxDocuments + 1

namespace Small

variable {docs : List Indexed} {d : Indexed}

theorem bytes (small : Small lib docs) : (docs.map Indexed.encodedBytes).sum < 2 ^ 64 := by
  have total := sum_le_of_bounded fun d mem => (small.compacted d mem).bounded.1
  have few := small.few
  simp only [maxDocuments, maxDocumentBytes] at total few
  omega

theorem lengths (small : Small lib docs) : (docs.map Indexed.length).sum < 2 ^ 64 := by
  have total := sum_le_of_bounded fun d mem => (small.compacted d mem).bounded.2.trans (small.compacted d mem).bounded.1
  have few := small.few
  simp only [maxDocuments, maxDocumentBytes] at total few
  omega

theorem fits (small : Small lib (d :: docs)) : docs.length + 1 < 2 ^ 64 := by
  have few := small.few
  simp only [maxDocuments, length_cons] at few
  omega

theorem head (small : Small lib (d :: docs)) : d.Compacted lib := small.compacted d mem_cons_self

end Small

/-- The statistics after one document was replaced by another, or by none. -/
theorem adjustStats_replace {c : Corpus}
    (described : c.Describes (old.toList ++ docs)) (before : Small lib (old.toList ++ docs))
    (after : Small lib (value.toList ++ docs)) :
    (adjustStats (adjustStats c old false) value true).Describes (value.toList ++ docs) := by
  have removed : (adjustStats c old false).Describes docs := by
    cases old with
    | none => exact described
    | some d => exact adjustStats_remove described before.head.wellFormed before.fits before.lengths
  cases value with
  | none => exact removed
  | some d => exact adjustStats_add removed after.head.wellFormed after.fits after.lengths

theorem encodedBytes_toList (value : Option Indexed) : encodedBytes value = (value.toList.map Indexed.encodedBytes).sum := by
  cases value <;> simp [encodedBytes]

theorem bytes_replace (before : Small lib (old.toList ++ docs)) (after : Small lib (value.toList ++ docs)) :
    add64 (sub64 ((old.toList ++ docs).map Indexed.encodedBytes).sum (encodedBytes old)) (encodedBytes value) =
      ((value.toList ++ docs).map Indexed.encodedBytes).sum := by
  have fits_before := before.bytes
  have fits_after := after.bytes
  rw [map_append, sum_append, ← encodedBytes_toList] at fits_before fits_after ⊢
  rw [map_append, sum_append, ← encodedBytes_toList]
  rw [sub64_eq (by omega) fits_before, Nat.add_sub_cancel_left, add64_eq (by omega), Nat.add_comm]

/-! ## Writing a value -/

namespace Generation.Core

variable {d : Indexed}

section

variable (core : g.Core lib)
include core

theorem compacted (mem : d ∈ g.live) : d.Compacted lib := by
  obtain ⟨ref, e, found, value⟩ := mem_live.1 mem
  exact (core.values found value).2

/-- The live documents are in the order of their references. -/
theorem live_sorted : g.live.Pairwise fun a b => a.ref < b.ref := by
  rw [Generation.live, pairwise_filterMap]
  refine g.refs.toList_sorted.imp_of_mem fun {a b} memA memB lt d is_d d' is_d' => ?_
  rw [(core.values (get_eq_some.2 memA) is_d).1, (core.values (get_eq_some.2 memB) is_d').1]
  exact lt

/-- Two live documents with one reference are one. -/
theorem live_unique {d' : Indexed} (mem : d ∈ g.live) (mem' : d' ∈ g.live) (same : d.ref = d'.ref) : d = d' := by
  obtain ⟨ref, e, found, value⟩ := mem_live.1 mem
  obtain ⟨ref', e', found', value'⟩ := mem_live.1 mem'
  rw [← (core.values found value).1] at found
  rw [← (core.values found' value').1, ← same, found] at found'
  cases found'
  exact Option.some.inj (value.symm.trans value')

theorem live_nodup : g.live.Nodup :=
  core.live_sorted.imp fun lt same => absurd (congrArg Indexed.ref same) lt.ne

theorem length_live : g.live.length ≤ maxDocuments := by
  rw [← core.docs.length_eq]
  exact core.tree.length_docs.trans core.small

theorem small_live : Small lib g.live := ⟨fun _ => core.compacted, core.length_live.trans (Nat.le_succ _)⟩

/-- A compacted value in the place of the one a reference has. -/
theorem small_replaced {ref : String} {e : Entry} (placed : g.Placed ref e) {value : Option Indexed}
    (fits : ∀ d, value = some d → d.Compacted lib) : Small lib (value.toList ++ g.others ref) where
  compacted d mem := by
    rcases mem_append.1 mem with new | old
    · exact fits d (Option.mem_toList.1 new)
    · exact core.compacted (placed.live_perm.mem_iff.2 (mem_append_right _ old))
  few := by
    have total := placed.live_perm.length_eq
    have bound := core.length_live
    have one : value.toList.length ≤ 1 := by cases value <;> simp
    rw [length_append] at total ⊢
    omega

end

end Generation.Core

/-- The tree after a write. -/
theorem replaceValue_tree (core : g.Core lib) (placed : g.Placed ref e)
    (fits : ∀ d, value = some d → d.Compacted lib) :
    Updated g.level g.root (updateNode g.level g.root 0 e.id value (keysUnion e.value value)) e.id value := by
  have inside : e.id < spanOf g.level := placed.id.trans_le core.room
  refine updateNode_updated core.tree (Nat.zero_le _) (by omega) ?_ ?_
  · intro d mem key has
    rw [Nat.sub_zero, placed.slot] at mem
    rw [keysUnion, mem_unique, mem_sortStrings, mem_flatMap]
    exact ⟨d, mem, has⟩
  · intro d mem
    rcases mem_append.1 mem with old | new
    · exact (core.compacted (core.docs.mem_iff.1 old)).named
    · exact (fits d (Option.mem_toList.1 new)).named

theorem replaceValue_core (core : g.Core lib) (placed : g.Placed ref e)
    (fits : ∀ d, value = some d → d.ref = ref ∧ d.Compacted lib) (revision : String) :
    (replaceValue g ref e value revision).Core lib := by
  have before : Small lib (e.value.toList ++ g.others ref) :=
    core.small_replaced placed fun d is => core.compacted (placed.live_perm.mem_iff.2 (by simp [is]))
  have after : Small lib (value.toList ++ g.others ref) := core.small_replaced placed fun d is => (fits d is).2
  have live : (replaceValue g ref e value revision).live.Perm (value.toList ++ g.others ref) :=
    live_put_perm g.refs ref ⟨e.id, value, revision⟩
  have tree := replaceValue_tree core placed fun d is => (fits d is).2
  -- the entries after the write: the written one, and the old ones of other references
  have entries : ∀ {ref' e'}, (replaceValue g ref e value revision).refs.get ref' = some e' →
      ref' = ref ∧ e' = ⟨e.id, value, revision⟩ ∨ ref' ≠ ref ∧ g.refs.get ref' = some e' := by
    intro ref' e' found
    rw [replaceValue, get_put] at found
    split at found
    case isTrue here => exact .inl ⟨here, (Option.some.inj found).symm⟩
    case isFalse other => exact .inr ⟨other, found⟩
  constructor
  case tree => exact tree.wellFormed
  case slots =>
    intro ref' e' found
    rcases entries found with ⟨-, rfl⟩ | ⟨other, found⟩
    · exact (tree.slot e.id (placed.id.trans_le core.room)).trans (if_pos rfl)
    · have apart : e'.id ≠ e.id := fun same => other (placed.owner found same)
      exact ((tree.slot e'.id ((core.ids found).trans_le core.room)).trans (if_neg apart)).trans (core.slots found)
  case filled =>
    intro i d inside found
    have slot := (tree.slot i inside).symm.trans found
    by_cases here : i = e.id
    · rw [if_pos here] at slot
      refine ⟨⟨e.id, value, revision⟩, ?_, here.symm⟩
      rw [(fits d slot).1]
      exact get_put_self ..
    · rw [if_neg here] at slot
      obtain ⟨e', found, same⟩ := core.filled inside slot
      have other : d.ref ≠ ref := by
        intro same_ref
        rcases placed.entry with present | ⟨missing, -⟩
        · rw [same_ref, present] at found
          exact here (same.symm.trans (congrArg Entry.id (Option.some.inj found)).symm)
        · rw [same_ref, missing] at found
          cases found
      refine ⟨e', ?_, same⟩
      exact (get_put g.refs ref _ d.ref).trans ((if_neg other).trans found)
  case docs =>
    obtain ⟨pre, post, old, new⟩ := tree.docs
    rw [placed.slot] at old
    have middle : ∀ d : List Indexed, (pre ++ d ++ post).Perm (d ++ (pre ++ post)) := by
      intro d
      rw [← append_assoc]
      exact perm_append_comm.append_right post
    have rest : (pre ++ post).Perm (g.others ref) := by
      have whole := ((middle e.value.toList).symm.trans (List.Perm.of_eq old.symm)).trans (core.docs.trans placed.live_perm)
      exact (perm_append_left_iff _).1 whole
    have written := (List.Perm.of_eq new).trans ((middle value.toList).trans (rest.append_left value.toList))
    exact written.trans live.symm
  case ids =>
    intro ref' e' found
    rcases entries found with ⟨-, rfl⟩ | ⟨-, found⟩
    · exact placed.id
    · exact core.ids found
  case unique =>
    intro ref' ref'' e' e'' found found' same
    rcases entries found with ⟨here, rfl⟩ | ⟨other, found⟩ <;> rcases entries found' with ⟨here', rfl⟩ | ⟨other', found'⟩
    · exact here.trans here'.symm
    · exact here.trans (placed.owner found' same.symm).symm
    · exact (placed.owner found same).trans here'.symm
    · exact core.unique found found' same
  case values =>
    intro ref' e' d found value_is
    rcases entries found with ⟨rfl, rfl⟩ | ⟨-, found⟩
    · exact fits d value_is
    · exact core.values found value_is
  case room => exact core.room
  case small => exact core.small
  case stats => exact (adjustStats_replace (core.stats.perm placed.live_perm) before after).perm live.symm
  case bytes =>
    have old : g.bytes = ((e.value.toList ++ g.others ref).map Indexed.encodedBytes).sum :=
      core.bytes.trans (placed.live_perm.map Indexed.encodedBytes).sum_eq
    have new := bytes_replace before after
    rw [← old] at new
    exact new.trans (live.map Indexed.encodedBytes).sum_eq.symm

/-! ## Growing the tree -/

/-- A tree that spans more ids and holds the same documents. -/
structure Grown (level level' : Nat) (old new : Node) : Prop where
  wellFormed : new.WellFormed level'
  docs : new.docs = old.docs
  wider : spanOf level ≤ spanOf level'
  slot : ∀ i, new.get level' i = if i < spanOf level then old.get level i else none

theorem Node.get_wrapRoot (root : Node) (level i : Nat) :
    (wrapRoot root).get (level + 1) i = if i < spanOf level then root.get level i else none := by
  cases root with
  | nil => rw [wrapRoot, Node.get_nil, Node.get_nil, ite_self]
  | leaf | branch =>
    change (if _ then _ else Node.nil.get level _) = _
    rw [Node.get_nil]
    rfl

theorem wrapRoot_grown (wf : root.WellFormed level) : Grown level (level + 1) root (wrapRoot root) := by
  have wider : spanOf level ≤ spanOf (level + 1) := by
    rw [spanOf_succ]
    omega
  rcases eq_or_ne root .nil with rfl | missing
  · exact ⟨Node.wellFormed_nil _, rfl, wider, Node.get_wrapRoot .nil level⟩
  · have wrapped : wrapRoot root = .branch root .nil root.info := by
      cases root with
      | nil => exact absurd rfl missing
      | leaf | branch => rfl
    have docs : root.docs ++ Node.nil.docs = root.docs := append_nil _
    refine ⟨?_, ?_, wider, Node.get_wrapRoot root level⟩
    · rw [wrapped]
      refine ⟨wf, Node.wellFormed_nil level, ?_, ?_⟩
      · rw [docs]
        exact wf.describes
      · rw [docs]
        exact fun empty => missing (wf.eq_nil empty)
    · rw [wrapped]
      exact docs

/-- No document is beyond the span of a tree. -/
theorem Node.WellFormed.get_outside (wf : n.WellFormed level) {i : Nat} (out : spanOf level ≤ i) :
    n.get level i = none := by
  induction level generalizing n i with
  | zero =>
    have length := wf.slots_length
    simp only [spanOf, pow_zero, Nat.mul_one] at out
    rw [Node.get, getElem?_eq_none (by omega), Option.join_none]
  | succ level ih =>
    rw [spanOf_succ] at out
    rw [Node.get, if_neg (by omega)]
    exact ih wf.right (by omega)

theorem Grown.refl (wf : root.WellFormed level) : Grown level level root root where
  wellFormed := wf
  docs := rfl
  wider := Nat.le_refl _
  slot i := by
    split
    · rfl
    case isFalse out => exact wf.get_outside (Nat.le_of_not_lt out)

theorem growTo_grown (fuel : Nat) (wf : root.WellFormed level) (id : Nat) :
    Grown level (growTo fuel root level id).2 root (growTo fuel root level id).1 := by
  induction fuel generalizing root level with
  | zero => exact .refl wf
  | succ fuel ih =>
    simp only [growTo]
    split
    · exact .refl wf
    · have once := wrapRoot_grown wf
      have more := ih once.wellFormed
      refine ⟨more.wellFormed, more.docs.trans once.docs, once.wider.trans more.wider, fun i => ?_⟩
      rw [more.slot, once.slot]
      have := once.wider
      split_ifs <;> first | rfl | omega

theorem spanOf_pos (level : Nat) : level < spanOf level := by
  have := @Nat.lt_two_pow_self level
  simp only [spanOf, leafSize]
  omega

/-- With enough fuel the loop ends with a tree that holds the id. -/
theorem growTo_spans (fuel : Nat) (root : Node) (level id : Nat) (enough : id < fuel + level) :
    id < spanOf (growTo fuel root level id).2 := by
  induction fuel generalizing root level with
  | zero =>
    have := spanOf_pos level
    simp only [growTo]
    omega
  | succ fuel ih =>
    simp only [growTo]
    split
    · assumption
    · exact ih _ _ (by omega)

/-- The tree is not doubled more often than needed. -/
theorem growTo_level (fuel : Nat) (root : Node) (level id : Nat) : (growTo fuel root level id).2 = level ∨
      ∃ below, (growTo fuel root level id).2 = below + 1 ∧ spanOf below ≤ id := by
  induction fuel generalizing root level with
  | zero => exact .inl rfl
  | succ fuel ih =>
    simp only [growTo]
    split
    · exact .inl rfl
    case isFalse small =>
      right
      rcases ih (wrapRoot root) (level + 1) with same | ⟨below, eq, le⟩
      · exact ⟨level, same, Nat.le_of_not_lt small⟩
      · exact ⟨below, eq, le⟩

/-- The span of a tree is a power of two, so it stays within the limit of ids. -/
theorem spanOf_succ_le {id : Nat} (le : spanOf level ≤ id) (bound : id < maxDocuments) :
    spanOf (level + 1) ≤ maxDocuments := by
  have lt : 2 ^ level < 2 ^ 25 := by
    simp only [spanOf, leafSize, maxDocuments] at le bound
    omega
  have exponent : level + 1 ≤ 25 := (Nat.pow_lt_pow_iff_right (by omega)).1 lt
  have power : 2 ^ (level + 1) ≤ 2 ^ 25 := Nat.pow_le_pow_right (by omega) exponent
  simp only [spanOf, leafSize, maxDocuments]
  omega

/-- What `allocate` does: nothing for a known reference, or one more id. -/
structure Allocated (g : Generation) (ref : String) (g' : Generation) (e : Entry) : Prop where
  placed : g'.Placed ref e
  refs : g'.refs = g.refs
  seen : g'.seen = g.seen
  versions : g'.versions = g.versions
  source : g.refs.get ref = some e ∧ g' = g ∨
    g.refs.get ref = none ∧ e = ⟨g.nextID, none, ""⟩ ∧ g'.nextID = g.nextID + 1 ∧ g.nextID < maxDocuments

theorem allocate_core (core : g.Core lib)
    (h : allocate g ref = .ok (g', e)) : g'.Core lib ∧ Allocated g ref g' e := by
  unfold allocate at h
  split at h
  case h_1 e' found =>
    cases h
    exact ⟨core, core.placed found, rfl, rfl, rfl, .inl ⟨found, rfl⟩⟩
  case h_2 missing =>
    obtain ⟨room, h⟩ := of_refuse h
    have bound : g.nextID < maxDocuments := by simpa using room
    have grown := growTo_grown (g.nextID + 1) core.tree g.nextID
    have spans := growTo_spans (g.nextID + 1) g.root g.level g.nextID (by omega)
    have small : spanOf (growTo (g.nextID + 1) g.root g.level g.nextID).2 ≤ maxDocuments := by
      rcases growTo_level (g.nextID + 1) g.root g.level g.nextID with same | ⟨below, eq, le⟩
      · rw [same]
        exact core.small
      · rw [eq]
        exact spanOf_succ_le le bound
    cases h
    have inside : ∀ {ref' e'}, g.refs.get ref' = some e' → e'.id < spanOf g.level := fun found =>
      (core.ids found).trans_le core.room
    refine ⟨?_, ?_, rfl, rfl, rfl, .inr ⟨missing, rfl, rfl, bound⟩⟩
    · refine { core with
        tree := grown.wellFormed, docs := (List.Perm.of_eq grown.docs).trans core.docs, room := spans, small := small
        slots := fun {_ e'} found => (grown.slot e'.id).trans ((if_pos (inside found)).trans (core.slots found))
        ids := fun found => (core.ids found).trans (Nat.lt_succ_self _)
        filled := fun {i d} _ found => ?_ }
      have slot := (grown.slot i).symm.trans found
      split at slot
      case isTrue within => exact core.filled within slot
      case isFalse => cases slot
    · constructor
      case entry => exact .inr ⟨missing, rfl⟩
      case id => exact Nat.lt_succ_self _
      case slot =>
        -- a document at this id would be one of the entries, whose ids are smaller
        change (growTo _ _ _ _).1.get _ g.nextID = none
        rw [grown.slot]
        split
        case isFalse => rfl
        case isTrue within =>
          cases found : g.root.get g.level g.nextID with
          | none => rfl
          | some d =>
            obtain ⟨e', entry, same⟩ := core.filled within found
            exact absurd (core.ids entry) (by omega)
      case owner =>
        intro ref' e' found same
        exact absurd (core.ids found) (by simp only [same]; omega)

end Pagnet.Search
