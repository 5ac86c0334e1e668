import Mathlib.Data.List.Sort
import Mathlib.Order.Basic

/-!
# The best of a list

A priority queue as `container/heap` documents it, and the `k` best elements of
a list that is seen one by one. Elements that cannot be better than the worst
of `k` kept ones may be left out without being looked at.
-/

namespace Pagnet
open List

variable {α β : Type}

/-- `heap.Pop`: the least element of the queue and the others. -/
def popMin (less : α → α → Bool) : List α → Option (α × List α)
  | [] => none
  | a :: as =>
    match popMin less as with
    | none => some (a, [])
    | some (b, rest) => if less b a then some (b, a :: rest) else some (a, b :: rest)

variable {as : List α} {less : α → α → Bool}

theorem popMin_eq_none : popMin less as = none ↔ as = [] := by
  cases as with
  | nil => simp [popMin]
  | cons a as =>
    simp only [popMin, reduceCtorEq, iff_false]
    split
    · simp
    · split <;> simp

theorem popMin_perm {rest : List α} {b : α} (h : popMin less as = some (b, rest)) : as.Perm (b :: rest) := by
  induction as generalizing b rest with
  | nil => simp [popMin] at h
  | cons a as ih =>
    simp only [popMin] at h
    split at h
    case h_1 empty =>
      cases h
      rw [popMin_eq_none.1 empty]
    case h_2 least others found =>
      have perm := ih found
      split at h <;> cases h
      · exact (perm.cons a).trans (List.Perm.swap ..)
      · exact perm.cons a

section Ranked

variable [LinearOrder β] {rank : α → β}

/-- Nothing that stays in the queue is less. -/
theorem popMin_least (rank : α → β) {less : α → α → Bool} (spec : ∀ a b, less a b ↔ rank a < rank b) {as rest : List α} {b : α}
    (h : popMin less as = some (b, rest)) : ∀ x ∈ as, rank b ≤ rank x := by
  induction as generalizing b rest with
  | nil => simp [popMin] at h
  | cons a as ih =>
    simp only [popMin] at h
    split at h
    case h_1 empty =>
      cases h
      simp [popMin_eq_none.1 empty]
    case h_2 least others found =>
      have bound := ih found
      intro x mem
      split at h
      case isTrue smaller =>
        cases h
        rcases mem_cons.1 mem with rfl | mem
        · exact ((spec _ _).1 smaller).le
        · exact bound x mem
      case isFalse larger =>
        cases h
        have low : rank a ≤ rank least := not_lt.1 fun lt => larger ((spec _ _).2 lt)
        rcases mem_cons.1 mem with rfl | mem
        · exact le_rfl
        · exact low.trans (bound x mem)

/-- `best` are the `k` elements of `all` with the least ranks. -/
def Top (rank : α → β) (k : Nat) (all best : List α) : Prop :=
  ∃ rest, all.Perm (best ++ rest) ∧ best.length ≤ k ∧ (rest = [] ∨ best.length = k) ∧
    ∀ x ∈ best, ∀ y ∈ rest, rank x ≤ rank y

/-- Keep an element if there is room, or in the place of the worst one. -/
def keep (better : α → α → Bool) (k : Nat) (best : List α) (x : α) : List α :=
  if best.length < k then x :: best
  else
    match popMin (fun a b => better b a) best with
    | none => best
    | some (worst, others) => if better x worst then x :: others else best

namespace Top

theorem nil (rank : α → β) (k : Nat) : Top rank k [] [] := ⟨[], .nil, Nat.zero_le k, .inl rfl, by simp⟩

variable {all best ys : List α} {k : Nat} {better : α → α → Bool}

theorem perm {all' : List α} (top : Top rank k all best) (same : all.Perm all') : Top rank k all' best := by
  obtain ⟨rest, split, rest_ok⟩ := top
  exact ⟨rest, same.symm.trans split, rest_ok⟩

/-- What is no better than any of `k` kept elements may be skipped. -/
theorem skip (top : Top rank k all best) (full : best.length = k)
    (worse : ∀ y ∈ ys, ∀ x ∈ best, rank x ≤ rank y) : Top rank k (all ++ ys) best := by
  obtain ⟨rest, split, le, -, order⟩ := top
  refine ⟨rest ++ ys, ?_, le, .inr full, fun x mem y mem' => ?_⟩
  · rw [← append_assoc]
    exact split.append_right ys
  · rcases mem_append.1 mem' with old | new
    · exact order x mem y old
    · exact worse y new x mem

theorem keep (spec : ∀ a b, better a b ↔ rank a < rank b)
    (top : Top rank k all best) (x : α) : Top rank k (all ++ [x]) (keep better k best x) := by
  obtain ⟨rest, split, le, complete, order⟩ := top
  unfold Pagnet.keep
  split
  case isTrue room =>
    have none_left : rest = [] := complete.resolve_right (by omega)
    subst none_left
    rw [append_nil] at split
    refine ⟨[], ?_, room, .inl rfl, by simp⟩
    rw [append_nil]
    exact (split.append_right [x]).trans (perm_append_singleton x best)
  case isFalse no_room =>
    have full : best.length = k := by omega
    split
    case h_1 empty =>
      have none_kept := popMin_eq_none.1 empty
      subst none_kept
      exact ⟨rest ++ [x], split.append_right [x], le, .inr full, by simp⟩
    case h_2 worst others popped =>
      have perm := popMin_perm popped
      have least : ∀ y ∈ best, rank y ≤ rank worst :=
        popMin_least (fun a => OrderDual.toDual (rank a)) (fun a b => spec b a) popped
      split
      case isTrue replaces =>
        have lt := (spec _ _).1 replaces
        refine ⟨rest ++ [worst], ?_, ?_, .inr ?_, fun y mem z mem' => ?_⟩
        · -- both sides are the two exchanged elements in front of all others
          have left : ((worst :: others) ++ (rest ++ [x])).Perm (x :: worst :: (others ++ rest)) := by
            rw [← append_assoc]
            exact perm_append_singleton x _
          have right : ((x :: others) ++ (rest ++ [worst])).Perm (worst :: x :: (others ++ rest)) := by
            rw [← append_assoc]
            exact perm_append_singleton worst _
          have grown : (all ++ [x]).Perm ((worst :: others) ++ (rest ++ [x])) := by
            rw [← append_assoc]
            exact (split.trans (perm.append_right rest)).append_right [x]
          exact grown.trans (left.trans ((List.Perm.swap ..).trans right.symm))
        · have := perm.length_eq
          simp only [length_cons] at this ⊢
          omega
        · have := perm.length_eq
          simp only [length_cons] at this ⊢
          omega
        · have kept : y = x ∨ y ∈ best := by
            rcases mem_cons.1 mem with same | other
            · exact .inl same
            · exact .inr (perm.mem_iff.2 (mem_cons_of_mem _ other))
          have le_worst : rank y ≤ rank worst := by
            rcases kept with rfl | mem
            · exact lt.le
            · exact least y mem
          rcases mem_append.1 mem' with old | new
          · rcases kept with rfl | mem
            · exact lt.le.trans (order worst (perm.mem_iff.2 mem_cons_self) z old)
            · exact order y mem z old
          · rw [mem_singleton.1 new]
            exact le_worst
      case isFalse stays =>
        have le_x : rank worst ≤ rank x := not_lt.1 fun lt => stays ((spec _ _).2 lt)
        exact skip ⟨rest, split, le, complete, order⟩ full fun y mem z kept => by
          obtain rfl := mem_singleton.1 mem
          exact (least z kept).trans le_x

/-- Elements that are each no better than any of `k` kept ones may be skipped. -/
theorem prune (top : Top rank k all best)
    (worse : ∀ y ∈ ys, k ≤ best.length ∧ ∀ x ∈ best, rank x ≤ rank y) : Top rank k (all ++ ys) best := by
  cases ys with
  | nil =>
    rw [append_nil]
    exact top
  | cons first rest =>
    have full : best.length = k := by
      obtain ⟨-, -, short, -⟩ := id top
      have := (worse first mem_cons_self).1
      omega
    exact top.skip full fun y mem => (worse y mem).2

/-- Keeping elements one by one. -/
theorem foldl_keep (spec : ∀ a b, better a b ↔ rank a < rank b) (top : Top rank k all best) (xs : List α) :
    Top rank k (all ++ xs) (xs.foldl (Pagnet.keep better k) best) := by
  induction xs generalizing all best with
  | nil =>
    rw [append_nil]
    exact top
  | cons x xs ih =>
    have more := ih (top.keep spec x)
    rw [append_assoc, singleton_append] at more
    exact more

end Top

section Sorted

variable {le : α → α → Bool}

section

variable (spec : ∀ a b, le a b = true ↔ rank a ≤ rank b)
include spec

theorem rank_trans (a b c : α) (ab : le a b) (bc : le b c) :
    le a c := (spec a c).2 (((spec a b).1 ab).trans ((spec b c).1 bc))

theorem rank_total (a b : α) : (le a b || le b a) := by
  rw [Bool.or_eq_true, spec, spec]
  exact le_total (rank a) (rank b)

end

variable {all : List α}

section

variable (spec : ∀ a b, le a b = true ↔ rank a ≤ rank b)
include spec

/-- A list with distinct ranks has one sorted order. -/
theorem mergeSort_eq {sorted : List α} (perm : all.Perm sorted)
    (order : sorted.Pairwise fun a b => le a b) (distinct : (all.map rank).Nodup) : all.mergeSort le = sorted := by
  have same := (mergeSort_perm all le).trans perm
  refine same.eq_of_pairwise ?_ (pairwise_mergeSort (rank_trans spec) (rank_total spec) all) order
  intro a b mem mem' ab ba
  have equal : rank a = rank b := le_antisymm ((spec a b).1 ab) ((spec b a).1 ba)
  exact inj_on_of_nodup_map distinct ((mergeSort_perm all le).mem_iff.1 mem) (perm.mem_iff.2 mem') equal

theorem mergeSort_perm_eq {all' : List α} (perm : all.Perm all')
    (distinct : (all.map rank).Nodup) : all.mergeSort le = all'.mergeSort le :=
  mergeSort_eq spec (perm.trans (mergeSort_perm all' le).symm)
    (pairwise_mergeSort (rank_trans spec) (rank_total spec) all') distinct

/-- The elements kept are the first `k` of all, once both are sorted. -/
theorem Top.sorted {k : Nat} {best : List α}
    (top : Top rank k all best) (distinct : (all.map rank).Nodup) : best.mergeSort le = (all.mergeSort le).take k := by
  obtain ⟨rest, split, short, complete, order⟩ := top
  have whole : all.mergeSort le = best.mergeSort le ++ rest.mergeSort le := by
    have perm : all.Perm (best.mergeSort le ++ rest.mergeSort le) :=
      split.trans ((mergeSort_perm best le).append (mergeSort_perm rest le)).symm
    refine mergeSort_eq spec perm ?_ distinct
    refine pairwise_append.2 ⟨pairwise_mergeSort (rank_trans spec) (rank_total spec) best,
      pairwise_mergeSort (rank_trans spec) (rank_total spec) rest, fun a mem b mem' => ?_⟩
    exact (spec a b).2 (order a ((mergeSort_perm best le).mem_iff.1 mem) b ((mergeSort_perm rest le).mem_iff.1 mem'))
  rw [whole]
  have length : (best.mergeSort le).length = best.length := (mergeSort_perm best le).length_eq
  rcases complete with rfl | full
  · rw [mergeSort_nil, append_nil, take_of_length_le (by omega)]
  · rw [take_append_of_le_length (by omega), take_of_length_le (by omega)]

end

end Sorted

end Ranked

end Pagnet
