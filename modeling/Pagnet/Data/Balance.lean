import Pagnet.Data.Dictionary

/-!
# Balance of dictionaries

The heights that the nodes of an AVL tree store are exact and siblings differ
by at most one, before and after every operation. A rotation sees sides that
differ by two, which is all that one operation below it can have caused.
-/

namespace Pagnet.Avl

variable {κ ν : Type} {t left right : Avl κ ν} {key : κ} {value : ν}

/-- The number of nodes on the longest path. -/
def depth : Avl κ ν → Nat
  | nil => 0
  | node _ _ left right _ => max left.depth right.depth + 1

/-- Every stored height is exact, and siblings differ by at most one. -/
def Balanced : Avl κ ν → Prop
  | nil => True
  | node _ _ left right h => left.Balanced ∧ right.Balanced ∧ h = max left.depth right.depth + 1 ∧
      left.depth ≤ right.depth + 1 ∧ right.depth ≤ left.depth + 1

/-- A balanced tree between two heights. -/
structure Within (low high : Nat) (t : Avl κ ν) : Prop where
  balanced : t.Balanced
  least : low ≤ t.depth
  most : t.depth ≤ high

theorem Balanced.height_eq (h : t.Balanced) : t.height = t.depth := by
  cases t with
  | nil => rfl
  | node => exact h.2.2.1

theorem Balanced.make (ofLeft : left.Balanced) (ofRight : right.Balanced) (low : left.depth ≤ right.depth + 1)
    (high : right.depth ≤ left.depth + 1) : (make key value left right).Balanced := by
  refine ⟨ofLeft, ofRight, ?_, low, high⟩
  rw [ofLeft.height_eq, ofRight.height_eq]

/-- A rotation repairs a side that is two higher. -/
theorem within_rotateRight (ofLeft : left.Balanced) (ofRight : right.Balanced) (high : left.depth = right.depth + 2) :
    Within left.depth (left.depth + 1) (rotateRight key value left right) := by
  cases left with
  | nil => simp [depth] at high
  | node lk lv ll lr h =>
    obtain ⟨ofLL, ofLR, -, low, near⟩ := ofLeft
    simp only [rotateRight, ofLL.height_eq, ofLR.height_eq, depth] at high ⊢
    split
    · cases lr with
      | nil => simp_all [depth]
      | node rk rv rl rr h =>
        obtain ⟨ofRL, ofRR, -, low', near'⟩ := ofLR
        simp only [depth] at *
        refine ⟨.make (.make ofLL ofRL (by omega) (by omega)) (.make ofRR ofRight (by omega) (by omega)) ?_ ?_, ?_, ?_⟩ <;>
          simp only [Avl.make, depth] <;> omega
    · refine ⟨.make ofLL (.make ofLR ofRight (by omega) (by omega)) ?_ ?_, ?_, ?_⟩ <;>
        simp only [Avl.make, depth] <;> omega

theorem within_rotateLeft (ofLeft : left.Balanced) (ofRight : right.Balanced) (high : right.depth = left.depth + 2) :
    Within right.depth (right.depth + 1) (rotateLeft key value left right) := by
  cases right with
  | nil => simp [depth] at high
  | node rk rv rl rr h =>
    obtain ⟨ofRL, ofRR, -, low, near⟩ := ofRight
    simp only [rotateLeft, ofRL.height_eq, ofRR.height_eq, depth] at high ⊢
    split
    · cases rl with
      | nil => simp_all [depth]
      | node lk lv ll lr h =>
        obtain ⟨ofLL, ofLR, -, low', near'⟩ := ofRL
        simp only [depth] at *
        refine ⟨.make (.make ofLeft ofLL (by omega) (by omega)) (.make ofLR ofRR (by omega) (by omega)) ?_ ?_, ?_, ?_⟩ <;>
          simp only [Avl.make, depth] <;> omega
    · refine ⟨.make (.make ofLeft ofRL (by omega) (by omega)) ofRR ?_ ?_, ?_, ?_⟩ <;>
        simp only [Avl.make, depth] <;> omega

/-- Two balanced sides that differ by two at most become a balanced tree; its
height is known if they are siblings already. -/
theorem within_balance (key : κ) (value : ν) (ofLeft : left.Balanced) (ofRight : right.Balanced)
    (low : left.depth ≤ right.depth + 2) (high : right.depth ≤ left.depth + 2) :
    ∃ t, balance (make key value left right) = t ∧ Within (max left.depth right.depth) (max left.depth right.depth + 1) t ∧
      (left.depth ≤ right.depth + 1 → right.depth ≤ left.depth + 1 → t.depth = max left.depth right.depth + 1) := by
  simp only [Avl.make, balance, ofLeft.height_eq, ofRight.height_eq]
  split
  · obtain ⟨balanced, _, _⟩ := @within_rotateRight _ _ left right key value ofLeft ofRight (by omega)
    exact ⟨_, rfl, ⟨balanced, by omega, by omega⟩, by omega⟩
  split
  · obtain ⟨balanced, _, _⟩ := @within_rotateLeft _ _ left right key value ofLeft ofRight (by omega)
    exact ⟨_, rfl, ⟨balanced, by omega, by omega⟩, by omega⟩
  · exact ⟨_, rfl, ⟨⟨ofLeft, ofRight, rfl, by omega, by omega⟩, Nat.le_succ _, le_rfl⟩, fun _ _ => rfl⟩

variable [LinearOrder κ]

/-- A write keeps the balance, and adds at most one to the height. -/
theorem within_put (balanced : t.Balanced) (k : κ) (v : ν) : Within t.depth (t.depth + 1) (t.put k v) := by
  induction t with
  | nil => exact ⟨.make trivial trivial (by simp) (by simp), Nat.zero_le _, le_rfl⟩
  | node key value left right h ihLeft ihRight =>
    obtain ⟨ofLeft, ofRight, -, low, high⟩ := balanced
    simp only [put, depth]
    split
    · obtain ⟨ofPut, least, most⟩ := ihLeft ofLeft
      obtain ⟨t, rfl, ⟨balanced, _, _⟩, near⟩ := within_balance key value ofPut ofRight (by omega) (by omega)
      exact ⟨balanced, by omega, by omega⟩
    split
    · obtain ⟨ofPut, least, most⟩ := ihRight ofRight
      obtain ⟨t, rfl, ⟨balanced, _, _⟩, near⟩ := within_balance key value ofLeft ofPut (by omega) (by omega)
      exact ⟨balanced, by omega, by omega⟩
    · exact ⟨.make ofLeft ofRight low high, le_rfl, Nat.le_succ _⟩

/-- A removal keeps the balance, and takes at most one from the height. -/
theorem within_remove (balanced : t.Balanced) (k : κ) : Within (t.depth - 1) t.depth (t.remove k) := by
  induction t generalizing k with
  | nil => exact ⟨trivial, le_rfl, Nat.zero_le _⟩
  | node key value left right h ihLeft ihRight =>
    obtain ⟨ofLeft, ofRight, -, low, high⟩ := balanced
    have fromRight : ∀ key value k, Within (max left.depth right.depth) (max left.depth right.depth + 1)
        (balance (.make key value left (right.remove k))) := by
      intro key value k
      obtain ⟨ofRemoved, least, most⟩ := ihRight ofRight k
      obtain ⟨t, rfl, ⟨balanced, _, _⟩, near⟩ := within_balance key value ofLeft ofRemoved (by omega) (by omega)
      exact ⟨balanced, by omega, by omega⟩
    simp only [remove, depth, Nat.add_sub_cancel]
    split
    · obtain ⟨ofRemoved, least, most⟩ := ihLeft ofLeft k
      obtain ⟨t, rfl, ⟨balanced, _, _⟩, near⟩ := within_balance key value ofRemoved ofRight (by omega) (by omega)
      exact ⟨balanced, by omega, by omega⟩
    split
    · exact fromRight key value k
    split
    · simp only [depth] at *
      exact ⟨ofRight, by omega, by omega⟩
    next found =>
      cases right with
      | nil => exact ⟨ofLeft, by simp [depth], by simp [depth]⟩
      | node => cases found
    · exact fromRight ..

end Pagnet.Avl
