import Pagnet.Search.Summary

/-!
# Sets of storage ids

A set has a bit for each id and the number of ids below each node. `setAdd`
adds one id; the count tells whether it was new, and a count of zero that the
part of the set below a node may be skipped.
-/

namespace Pagnet.Search
open List

namespace IdSet

/-- An id counted from the first one of the node is in the set. -/
def mem : Nat → IdSet → Nat → Bool
  | 0, n, i => n.bits.testBit i
  | level + 1, n, i => if i < spanOf level then mem level n.left i else mem level n.right (i - spanOf level)

def card (level : Nat) (n : IdSet) : Nat := (List.range (spanOf level)).countP (n.mem level)

/-- A set of a level, with the right counts. -/
def WellFormed : Nat → IdSet → Prop
  | _, nil => True
  | 0, leaf bits count => count = card 0 (leaf bits count)
  | level + 1, branch l r count => l.WellFormed level ∧ r.WellFormed level ∧ count = l.count + r.count
  | _, _ => False

theorem mem_branch (l r : IdSet) (count level i : Nat) : (branch l r count).mem (level + 1) i =
    if i < spanOf level then l.mem level i else r.mem level (i - spanOf level) := rfl

theorem wellFormed_nil (level : Nat) : nil.WellFormed level := by
  cases level <;> trivial

theorem mem_nil (level i : Nat) : nil.mem level i = false := by
  induction level generalizing i with
  | zero => simp [mem, bits]
  | succ level ih =>
    simp only [mem, left, right, ih]
    split <;> rfl

theorem card_nil (level : Nat) : card level nil = 0 := by
  rw [card, countP_eq_zero]
  intro i _
  rw [mem_nil]
  exact Bool.false_ne_true

/-- The ids of a branch are those of its left child and those of its right child. -/
theorem card_succ (level : Nat) (n : IdSet) : card (level + 1) n = card level n.left + card level n.right := by
  unfold card
  rw [spanOf_succ, range_add, countP_append, countP_map]
  congr 1
  · refine countP_congr fun i inside => ?_
    rw [mem, if_pos (mem_range.1 inside)]
  · refine countP_congr fun i _ => ?_
    rw [Function.comp, mem, if_neg (by omega), Nat.add_sub_cancel_left]

namespace WellFormed

variable {n : IdSet} {level : Nat}

theorem left (wf : n.WellFormed (level + 1)) : n.left.WellFormed level := by
  cases n with
  | nil => exact wellFormed_nil level
  | leaf => exact wf.elim
  | branch => exact wf.1

theorem right (wf : n.WellFormed (level + 1)) : n.right.WellFormed level := by
  cases n with
  | nil => exact wellFormed_nil level
  | leaf => exact wf.elim
  | branch => exact wf.2.1

theorem count_eq (wf : n.WellFormed level) : n.count = card level n := by
  induction level generalizing n with
  | zero =>
    cases n with
    | nil => exact (card_nil 0).symm
    | leaf bits count => exact wf
    | branch => exact wf.elim
  | succ level ih =>
    cases n with
    | nil => exact (card_nil _).symm
    | leaf => exact wf.elim
    | branch l r count =>
      rw [card_succ]
      change count = card level l + card level r
      rw [← ih wf.1, ← ih wf.2.1]
      exact wf.2.2

/-- A set without ids may be skipped. -/
theorem not_mem_of_empty (wf : n.WellFormed level) (empty : n.count = 0) {i : Nat} (inside : i < spanOf level) :
    n.mem level i = false := by
  rw [wf.count_eq, card, countP_eq_zero] at empty
  exact Bool.eq_false_iff.2 (empty i (mem_range.2 inside))

end WellFormed

end IdSet

/-- One more number satisfies the second predicate. -/
theorem countP_insert {p q : Nat → Bool} {N x : Nat} (inside : x < N) (spec : ∀ i < N, q i = (decide (i = x) || p i)) :
    (List.range N).countP q = (List.range N).countP p + if p x then 0 else 1 := by
  induction N with
  | zero => exact absurd inside (Nat.not_lt_zero x)
  | succ N ih =>
    rw [range_succ, countP_append, countP_append, countP_singleton, countP_singleton,
      spec N (Nat.lt_succ_self N)]
    rcases eq_or_ne x N with rfl | last
    · have before : (List.range x).countP q = (List.range x).countP p := by
        refine countP_congr fun i mem => ?_
        have lt := mem_range.1 mem
        rw [spec i (by omega), decide_eq_false (by omega), Bool.false_or]
      rw [before, decide_eq_true rfl, Bool.true_or, if_pos rfl]
      cases p x <;> simp
    · rw [ih (by omega) fun i lt => spec i (by omega), decide_eq_false (Ne.symm last), Bool.false_or]
      omega

/-- What `setAdd` does: one id, new or not. -/
structure Added (level : Nat) (old new : IdSet) (x : Nat) : Prop where
  wellFormed : new.WellFormed level
  mem : ∀ i < spanOf level, new.mem level i = (decide (i = x) || old.mem level i)

/-- The count tells whether the id was new. -/
theorem Added.count {level x : Nat} {old new : IdSet} (added : Added level old new x) (wf : old.WellFormed level)
    (inside : x < spanOf level) : new.count = old.count + if old.mem level x then 0 else 1 := by
  rw [added.wellFormed.count_eq, wf.count_eq]
  exact countP_insert inside added.mem

theorem testBit_set (bits x i : Nat) : (bits ||| 1 <<< x).testBit i = (decide (i = x) || bits.testBit i) := by
  rw [Nat.testBit_or, Nat.one_shiftLeft, Nat.testBit_two_pow, Bool.or_comm]
  congr 1
  exact decide_eq_decide.2 eq_comm

theorem setAdd_added {level lo id : Nat} {n : IdSet} (wf : n.WellFormed level) (low : lo ≤ id) (high : id < lo + spanOf level) :
    Added level n (setAdd level n lo id) (id - lo) := by
  induction level generalizing n lo with
  | zero =>
    have inside : id - lo < spanOf 0 := by omega
    simp only [setAdd]
    split
    case isTrue present =>
      have same : ∀ i, (IdSet.leaf n.bits n.count).mem 0 i = n.mem 0 i := fun _ => rfl
      refine ⟨?_, fun i _ => ?_⟩
      · exact wf.count_eq
      · rw [same]
        by_cases here : i = id - lo
        · rw [decide_eq_true here, Bool.true_or, here]
          exact present
        · rw [decide_eq_false here, Bool.false_or]
    case isFalse absent =>
      have spec : ∀ i, (IdSet.leaf (n.bits ||| 1 <<< (id - lo)) (n.count + 1)).mem 0 i =
          (decide (i = id - lo) || n.mem 0 i) := fun i => testBit_set n.bits (id - lo) i
      refine ⟨?_, fun i _ => spec i⟩
      have one := countP_insert inside fun i _ => spec i
      rw [show n.mem 0 (id - lo) = false from Bool.eq_false_iff.2 absent] at one
      exact (congrArg (· + 1) wf.count_eq).trans one.symm
  | succ level ih =>
    have span := spanOf_succ level
    simp only [setAdd]
    split
    case isTrue side =>
      have child := ih wf.left low side
      refine ⟨⟨child.wellFormed, wf.right, rfl⟩, fun i inside => ?_⟩
      rw [IdSet.mem_branch, IdSet.mem]
      split
      case isTrue first => exact child.mem i first
      case isFalse second => rw [decide_eq_false (by omega), Bool.false_or]
    case isFalse side =>
      have child : Added level n.right (setAdd level n.right (lo + spanOf level) id) (id - (lo + spanOf level)) :=
        ih wf.right (by omega) (by omega)
      refine ⟨⟨wf.left, child.wellFormed, rfl⟩, fun i inside => ?_⟩
      rw [IdSet.mem_branch, IdSet.mem]
      split
      case isTrue first => rw [decide_eq_false (by omega), Bool.false_or]
      case isFalse second =>
        rw [child.mem _ (by omega)]
        congr 1
        exact decide_eq_decide.2 ⟨fun eq => by omega, fun eq => by omega⟩

end Pagnet.Search
