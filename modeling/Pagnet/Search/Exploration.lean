import Mathlib.Data.Prod.Lex
import Pagnet.Search.Bounds
import Pagnet.Search.IdSets

/-!
# Exploring the tree

The invariant of the search loop: the winners are the best of the hits seen so
far, and every other hit is below a subtree of the frontier. A subtree is only
left out when it has no hit, or when none of its hits is better than any of `k`
winners.
-/

namespace Pagnet.Search
open Json Fabric List

variable {S : Type} [Field S] [LinearOrder S]

/-- The order of the results: greater scores first, then smaller references. -/
def rank (a : Ranked S) : Lex (OrderDual S × String) := toLex (OrderDual.toDual a.score, a.ref)

omit [Field S] in
theorem better_iff (a b : Ranked S) : better a b ↔ rank a < rank b := by
  rw [rank, rank, Prod.Lex.toLex_lt_toLex]
  simp [better, OrderDual.toDual_lt_toDual]

variable (q : Query S)

/-- The hit of a document. -/
def docHit (d : Indexed) : Option (Ranked S) :=
  if documentFilter d q.groups && termsMatch q d && !beforePage q ⟨d, scoreDocument q d⟩ then
    some ⟨d, scoreDocument q d⟩
  else none

/-- The hit at an id. -/
def idHit (level : Nat) (n : Node) (set : IdSet) (i : Nat) : Option (Ranked S) :=
  if q.isScoped && !set.mem level i then none else (n.get level i).bind (docHit q)

/-- The hits below a node. -/
def nodeHits (level : Nat) (n : Node) (set : IdSet) : List (Ranked S) :=
  (List.range (spanOf level)).filterMap (idHit q level n set)

def Branch.hits (b : Branch S) : List (Ranked S) := nodeHits q b.level b.node b.eligible

variable {q : Query S} {level : Nat} {n : Node} {set : IdSet}

variable {hit : Ranked S} {b : Branch S} {total : List (Ranked S)}

theorem docHit_some {d : Indexed} (h : docHit q d = some hit) :
    hit = ⟨d, scoreDocument q d⟩ ∧ documentFilter d q.groups ∧ termsMatch q d := by
  unfold docHit at h
  split at h
  case isTrue passes =>
    simp only [Bool.and_eq_true] at passes
    exact ⟨(Option.some.inj h).symm, passes.1.1, passes.1.2⟩
  case isFalse => cases h

/-! ## Hits below a node -/

/-- The documents of a tree are those at its ids. -/
theorem Node.WellFormed.docs_eq (wf : n.WellFormed level) :
    n.docs = (List.range (spanOf level)).filterMap (n.get level) := by
  induction level generalizing n with
  | zero =>
    have length := wf.slots_length
    have slots : (List.range (spanOf 0)).map (n.get 0) = n.slots := by
      refine ext_getElem? fun i => ?_
      simp only [spanOf, pow_zero, Nat.mul_one, getElem?_map, Node.get]
      by_cases inside : i < leafSize
      · rw [getElem?_range inside, Option.map_some, getElem?_eq_getElem (by omega), Option.join_some]
      · rw [getElem?_eq_none (by simpa using inside), getElem?_eq_none (by omega), Option.map_none]
    rw [wf.docs_leaf, ← slots, List.reduceOption, filterMap_map]
    rfl
  | succ level ih =>
    rw [wf.docs_branch, ih wf.left, ih wf.right, spanOf_succ, range_add, filterMap_append, filterMap_map]
    congr 1
    · refine filterMap_congr fun i inside => ?_
      rw [Node.get, if_pos (mem_range.1 inside)]
    · refine filterMap_congr fun i _ => ?_
      rw [Function.comp, Node.get, if_neg (by omega), Nat.add_sub_cancel_left]

theorem mem_nodeHits (wf : n.WellFormed level) (mem : hit ∈ nodeHits q level n set) :
    ∃ d ∈ n.docs, docHit q d = some hit := by
  obtain ⟨i, inside, found⟩ := mem_filterMap.1 mem
  unfold idHit at found
  split at found
  · cases found
  · obtain ⟨d, slot, hit_is⟩ := Option.bind_eq_some_iff.1 found
    refine ⟨d, ?_, hit_is⟩
    rw [wf.docs_eq]
    exact mem_filterMap.2 ⟨i, inside, slot⟩

theorem nodeHits_nil (level : Nat) (set : IdSet) : nodeHits q level .nil set = [] := by
  rw [nodeHits, filterMap_eq_nil_iff]
  intro i _
  rw [idHit, Node.get_nil]
  split <;> rfl

theorem nodeHits_succ (level : Nat) (n : Node) (set : IdSet) :
    nodeHits q (level + 1) n set = nodeHits q level n.left set.left ++ nodeHits q level n.right set.right := by
  unfold nodeHits
  rw [spanOf_succ, range_add, filterMap_append, filterMap_map]
  congr 1
  · refine filterMap_congr fun i inside => ?_
    simp only [idHit, Node.get, IdSet.mem, mem_range.1 inside, if_true]
  · refine filterMap_congr fun i _ => ?_
    have beyond : ¬spanOf level + i < spanOf level := by omega
    simp only [Function.comp, idHit, Node.get, IdSet.mem, beyond, if_false, Nat.add_sub_cancel_left]

/-- The hits of a leaf, slot by slot. -/
theorem nodeHits_leaf (wf : n.WellFormed 0) (set : IdSet) : nodeHits q 0 n set = n.slots.zipIdx.filterMap fun slot =>
      if q.isScoped && !set.bits.testBit slot.2 then none else slot.1.bind (docHit q) := by
  have length := wf.slots_length
  have zipped : n.slots.zipIdx = (List.range (spanOf 0)).map fun i => ((n.slots[i]?).join, i) := by
    refine ext_getElem? fun i => ?_
    simp only [spanOf, pow_zero, Nat.mul_one, getElem?_map, getElem?_zipIdx]
    by_cases inside : i < leafSize
    · rw [getElem?_range inside, getElem?_eq_getElem (by omega)]
      simp [getElem?_eq_getElem (show i < n.slots.length by omega)]
    · rw [getElem?_eq_none (by omega), getElem?_eq_none (by simpa using inside)]
      rfl
  rw [zipped, filterMap_map]
  rfl

/-- Nothing below an empty part of the set is eligible. -/
theorem nodeHits_empty (limited : q.isScoped) (wf : set.WellFormed level) (empty : set.count = 0) (n : Node) :
    nodeHits q level n set = [] := by
  rw [nodeHits, filterMap_eq_nil_iff]
  intro i inside
  rw [idHit, limited, wf.not_mem_of_empty empty (mem_range.1 inside)]
  rfl

/-- Scanning a leaf keeps its hits one by one. -/
theorem foldl_scanSlot (slots : List (Option Indexed × Nat)) (winners : List (Ranked S)) :
    slots.foldl (scanSlot q set) winners = (slots.filterMap fun slot =>
        if q.isScoped && !set.bits.testBit slot.2 then none else slot.1.bind (docHit q)).foldl (keep better q.k) winners := by
  rw [foldl_filterMap]
  congr 1
  funext winners slot
  rcases slot with ⟨_ | d, i⟩
  · simp only [scanSlot, Option.bind_none, ite_self]
  · simp only [scanSlot, Option.bind_some, docHit]
    by_cases hidden : (q.isScoped && !set.bits.testBit i)
    · simp [hidden]
    · by_cases passes : documentFilter d q.groups
      · by_cases matches_terms : termsMatch q d
        · by_cases before : beforePage q ⟨d, scoreDocument q d⟩
          · simp [hidden, passes, matches_terms, before]
          · simp [hidden, passes, matches_terms, before]
        · simp [hidden, passes, matches_terms]
      · simp [hidden, passes]

/-! ## Pruning -/

/-- A subtree with its bound. -/
structure Branch.Valid (q : Query S) (b : Branch S) : Prop where
  node : b.node.WellFormed b.level
  eligible : b.eligible.WellFormed b.level
  docs : ∀ d ∈ b.node.docs, d.WellFormed ∧ d.ref ≠ ""
  bound : nodeBound q b.node = some b.bound
  present : 0 < b.node.nodeCount

variable {winners seen : List (Ranked S)}

omit [Field S] in
/-- The worst winner of a full list. -/
theorem worst_spec {w : Ranked S} (h : worst winners = some w) : ∀ x ∈ winners, rank x ≤ rank w := by
  unfold worst at h
  cases popped : popMin (fun a b => better b a) winners with
  | none => simp [popped] at h
  | some found =>
    rw [popped] at h
    obtain rfl : found.1 = w := Option.some.inj h
    exact popMin_least (fun a => OrderDual.toDual (rank a)) (fun a b => better_iff b a) popped

omit [Field S] in
/-- A subtree that is not competitive has no hit better than any of the winners. -/
theorem not_competitive {bound : S} {minRef : String} {k : Nat} (h : competitive bound minRef winners k = false)
    (le : hit.score ≤ bound) (ge : minRef ≤ hit.ref) : k ≤ winners.length ∧ ∀ x ∈ winners, rank x ≤ rank hit := by
  unfold competitive at h
  split at h
  · cases h
  case isFalse full =>
    refine ⟨Nat.le_of_not_lt full, fun x mem => ?_⟩
    split at h
    · cases h
    case h_2 w worst_is =>
      refine (worst_spec worst_is x mem).trans ?_
      rw [rank, rank, Prod.Lex.toLex_le_toLex]
      simp only [Bool.and_eq_false_iff, Bool.not_eq_false', decide_eq_true_eq, Bool.and_eq_true] at h
      rcases h with lower | ⟨equal, later⟩
      · exact .inl (OrderDual.toDual_lt_toDual.2 (le.trans_lt lower))
      · rcases lt_or_eq_of_le (le.trans equal.le) with lower | same
        · exact .inl (OrderDual.toDual_lt_toDual.2 lower)
        · exact .inr ⟨congrArg OrderDual.toDual same.symm, later.trans ge⟩

/-- What `push` does: the subtree is on the frontier, or its hits are accounted for. -/
structure Pushed (q : Query S) (winners seen : List (Ranked S)) (front front' : List (Branch S)) (hits : List (Ranked S))
    (nodes : Nat) : Prop where
  valid : ∀ b ∈ front', b.Valid q
  nodes : (front'.map (·.node.nodeCount)).sum ≤ (front.map (·.node.nodeCount)).sum + nodes
  covered : ∃ seen', Top rank q.k seen' winners ∧
    (seen' ++ front'.flatMap (Branch.hits q)).Perm (seen ++ front.flatMap (Branch.hits q) ++ hits)

variable {front : List (Branch S)}

theorem Pushed.skip (fronts : ∀ b ∈ front, b.Valid q) {hits : List (Ranked S)} (top : Top rank q.k (seen ++ hits) winners)
    (nodes : Nat) : Pushed q winners seen front front hits nodes where
  valid := fronts
  nodes := Nat.le_add_right _ _
  covered := by
    refine ⟨seen ++ hits, top, ?_⟩
    rw [append_assoc, append_assoc]
    exact perm_append_comm.append_left seen

variable [IsStrictOrderedRing S]

/-- Hits are within the bound of their subtree, and not in front of its smallest reference. -/
theorem Branch.Valid.hit_le (valid : q.Valid) (ok : b.Valid q) (mem : hit ∈ b.hits q) :
    hit.score ≤ b.bound ∧ b.node.info.minRef ≤ hit.ref := by
  obtain ⟨d, inside, found⟩ := mem_nodeHits ok.node mem
  obtain ⟨rfl, -, -⟩ := docHit_some found
  refine ⟨le_boundTerms valid ok.node inside (ok.docs d inside).1 (fun _ mem => mem) le_rfl ok.bound, ?_⟩
  rw [ok.node.describes.minRef]
  exact minRefOf_le (fun d mem => (ok.docs d mem).2) inside

theorem Branch.Valid.prune (valid : q.Valid) (ok : b.Valid q)
    (h : competitive b.bound b.node.info.minRef winners q.k = false) (top : Top rank q.k seen winners) :
    Top rank q.k (seen ++ b.hits q) winners :=
  top.prune fun _ mem => not_competitive h (ok.hit_le valid mem).1 (ok.hit_le valid mem).2

theorem push_pushed (valid : q.Valid) (top : Top rank q.k seen winners) (fronts : ∀ b ∈ front, b.Valid q)
    (wf : n.WellFormed level) (sets : set.WellFormed level) (docs : ∀ d ∈ n.docs, d.WellFormed ∧ d.ref ≠ "") :
    Pushed q winners seen front (push q winners n set level front) (nodeHits q level n set) n.nodeCount := by
  have nothing : nodeHits q level n set = [] → Top rank q.k (seen ++ nodeHits q level n set) winners := by
    intro empty
    rw [empty, append_nil]
    exact top
  have no_hit : (∀ d ∈ n.docs, docHit q d = none) → nodeHits q level n set = [] := by
    intro none_there
    rw [eq_nil_iff_forall_not_mem]
    intro hit mem
    obtain ⟨d, inside, found⟩ := mem_nodeHits wf mem
    rw [none_there d inside] at found
    cases found
  cases missing : n.isNil with
  | true =>
    obtain rfl : n = .nil := by
      cases n with
      | nil => rfl
      | leaf | branch => cases missing
    exact .skip fronts (nothing (nodeHits_nil level set)) _
  | false =>
    have present : 0 < n.nodeCount := by
      cases n with
      | nil => cases missing
      | leaf => exact Nat.zero_lt_one
      | branch => exact Nat.succ_pos _
    unfold push
    split
    · cases missing
    split
    case isTrue hidden =>
      simp only [Bool.and_eq_true, beq_iff_eq] at hidden
      exact .skip fronts (nothing (nodeHits_empty hidden.1 sets hidden.2 n)) _
    case isFalse =>
      split
      case isTrue filtered =>
        refine .skip fronts (nothing (no_hit fun d inside => ?_)) _
        cases found : docHit q d with
        | none => rfl
        | some hit =>
          have passes := nodeFilter_of_document wf inside (docHit_some found).2.1
          simp [passes] at filtered
      case isFalse =>
        split
        case h_1 unbound =>
          refine .skip fronts (nothing (no_hit fun d inside => ?_)) _
          cases found : docHit q d with
          | none => rfl
          | some hit =>
            have fails := nodeBound_none wf inside (docs d inside).1 unbound
            rw [(docHit_some found).2.2] at fails
            cases fails
        case h_2 bound bound_is =>
          have ok : Branch.Valid q ⟨n, set, level, bound⟩ := ⟨wf, sets, docs, bound_is, present⟩
          split
          case isTrue =>
            refine ⟨?_, ?_, seen, top, ?_⟩
            · intro b mem
              rcases mem_cons.1 mem with rfl | old
              · exact ok
              · exact fronts b old
            · rw [map_cons, sum_cons, Nat.add_comm]
            · rw [flatMap_cons, append_assoc]
              exact perm_append_comm.append_left seen
          case isFalse pruned =>
            exact .skip fronts (ok.prune valid (Bool.eq_false_iff.2 pruned) top) _

/-! ## The loop -/

/-- Everything is seen, or below a subtree of the frontier. -/
structure Progress (q : Query S) (total : List (Ranked S)) (front : List (Branch S)) (winners : List (Ranked S)) : Prop where
  valid : ∀ b ∈ front, b.Valid q
  covered : ∃ seen, Top rank q.k seen winners ∧ (seen ++ front.flatMap (Branch.hits q)).Perm total

omit [Field S] [LinearOrder S] [IsStrictOrderedRing S] in
theorem Node.WellFormed.nodeCount_children (wf : n.WellFormed (level + 1)) (present : 0 < n.nodeCount) :
    n.left.nodeCount + n.right.nodeCount < n.nodeCount := by
  cases n with
  | nil => cases present
  | leaf => exact wf.elim
  | branch l r info => exact Nat.lt_succ_self _

/-- Two children in the place of their parent. -/
theorem Progress.expand (valid : q.Valid) {entry : Branch S} {rest : List (Branch S)}
    (progress : Progress q total (entry :: rest) winners) (inner : entry.level = level + 1) :
    Progress q total (push q winners entry.node.right entry.eligible.right level
      (push q winners entry.node.left entry.eligible.left level rest)) winners ∧
    ((push q winners entry.node.right entry.eligible.right level
      (push q winners entry.node.left entry.eligible.left level rest)).map (·.node.nodeCount)).sum <
        ((entry :: rest).map (·.node.nodeCount)).sum := by
  obtain ⟨seen, top, perm⟩ := progress.covered
  have ok := progress.valid entry mem_cons_self
  have wf : entry.node.WellFormed (level + 1) := inner ▸ ok.node
  have sets : entry.eligible.WellFormed (level + 1) := inner ▸ ok.eligible
  have docs : ∀ d, d ∈ entry.node.left.docs ∨ d ∈ entry.node.right.docs → d.WellFormed ∧ d.ref ≠ "" := by
    intro d below
    apply ok.docs
    rw [wf.docs_branch]
    exact mem_append.2 below
  have fronts : ∀ b ∈ rest, b.Valid q := fun b mem => progress.valid b (mem_cons_of_mem _ mem)
  have first := push_pushed valid top fronts wf.left sets.left fun d mem => docs d (.inl mem)
  obtain ⟨seen₁, top₁, perm₁⟩ := first.covered
  have second := push_pushed valid top₁ first.valid wf.right sets.right fun d mem => docs d (.inr mem)
  obtain ⟨seen₂, top₂, perm₂⟩ := second.covered
  refine ⟨⟨second.valid, seen₂, top₂, ?_⟩, ?_⟩
  · have both : entry.hits q = nodeHits q level entry.node.left entry.eligible.left ++
        nodeHits q level entry.node.right entry.eligible.right := by
      rw [Branch.hits, inner, nodeHits_succ]
    refine (perm₂.trans (perm₁.append_right _)).trans (List.Perm.trans ?_ perm)
    rw [flatMap_cons, both, append_assoc, append_assoc]
    exact perm_append_comm.append_left seen
  · have children := wf.nodeCount_children ok.present
    have one := first.nodes
    have two := second.nodes
    rw [map_cons, sum_cons]
    omega

/-- The search looks at every hit that can be among the best `k`. -/
theorem explore_top (valid : q.Valid) (fuel : Nat) {front : List (Branch S)}
    {winners : List (Ranked S)} (enough : (front.map (·.node.nodeCount)).sum < fuel)
    (progress : Progress q total front winners) :
    ∃ best, explore q fuel front winners = .ok best ∧ Top rank q.k total best := by
  induction fuel generalizing front winners with
  | zero => exact absurd enough (Nat.not_lt_zero _)
  | succ fuel ih =>
    simp only [explore]
    split
    case h_1 done =>
      obtain ⟨seen, top, perm⟩ := progress.covered
      rw [popMin_eq_none.1 done, flatMap_nil, append_nil] at perm
      exact ⟨winners, rfl, top.perm perm⟩
    case h_2 entry rest popped =>
      have reorder := popMin_perm popped
      have moved : Progress q total (entry :: rest) winners := by
        obtain ⟨seen, top, perm⟩ := progress.covered
        refine ⟨fun b mem => progress.valid b (reorder.mem_iff.2 mem), seen, top, ?_⟩
        exact ((reorder.flatMap_right _).symm.append_left seen).trans perm
      have total_nodes : (front.map (·.node.nodeCount)).sum = ((entry :: rest).map (·.node.nodeCount)).sum :=
        (reorder.map _).sum_eq
      have ok := moved.valid entry mem_cons_self
      have fewer : (rest.map (·.node.nodeCount)).sum < fuel := by
        have := ok.present
        rw [total_nodes, map_cons, sum_cons] at enough
        omega
      have fronts : ∀ b ∈ rest, b.Valid q := fun b mem => moved.valid b (mem_cons_of_mem _ mem)
      have grown : ∀ winners', (∀ seen, Top rank q.k seen winners → Top rank q.k (seen ++ entry.hits q) winners') →
          Progress q total rest winners' := by
        intro winners' keeps
        obtain ⟨seen, top, perm⟩ := moved.covered
        refine ⟨fronts, seen ++ entry.hits q, keeps seen top, ?_⟩
        rw [append_assoc, ← flatMap_cons]
        exact perm
      split
      case isTrue dropped =>
        refine ih fewer (grown winners fun seen top => ok.prune valid ?_ top)
        simpa using dropped
      case isFalse =>
        split
        case h_1 leaf =>
          refine ih fewer (grown _ fun seen top => ?_)
          have wf : entry.node.WellFormed 0 := leaf ▸ ok.node
          rw [foldl_scanSlot, ← nodeHits_leaf wf, ← leaf]
          exact top.foldl_keep better_iff _
        case h_2 level inner =>
          obtain ⟨next, fewer⟩ := moved.expand valid inner
          exact ih (by omega) next

end Pagnet.Search
