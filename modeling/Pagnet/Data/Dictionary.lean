import Mathlib.Data.List.Sort
import Mathlib.Order.Basic
import Pagnet.Data.Refusal

/-!
# Dictionaries

An immutable AVL tree over ordered keys: `get`, `put`, `remove`, the traversal
in key order and the seek from a key. Every operation is described by what it
does to the list of entries in key order, so no later proof looks at a tree.
-/

namespace Pagnet
open List

variable {κ ν : Type}

/-- A search tree with the height of every node. -/
inductive Avl (κ ν : Type) where
  | nil
  | node (key : κ) (value : ν) (left right : Avl κ ν) (height : Nat)

namespace Avl

/-- The entries in key order. -/
def toList : Avl κ ν → List (κ × ν)
  | nil => []
  | node key value left right _ => left.toList ++ (key, value) :: right.toList

def height : Avl κ ν → Nat
  | nil => 0
  | node _ _ _ _ h => h

/-- A node over two subtrees, one higher than the higher of them. -/
def make (key : κ) (value : ν) (left right : Avl κ ν) : Avl κ ν :=
  node key value left right (max left.height right.height + 1)

@[simp] theorem toList_make (key : κ) (value : ν) (left right : Avl κ ν) :
    (make key value left right).toList = left.toList ++ (key, value) :: right.toList := rfl

/-- The rotation of a left side that is two higher. -/
def rotateRight (key : κ) (value : ν) (left right : Avl κ ν) : Avl κ ν :=
  match left with
  | nil => make key value nil right
  | node lk lv ll lr _ =>
    if ll.height < lr.height then
      match lr with
      | nil => make key value left right
      | node rk rv rl rr _ => make rk rv (make lk lv ll rl) (make key value rr right)
    else make lk lv ll (make key value lr right)

/-- The rotation of a right side that is two higher. -/
def rotateLeft (key : κ) (value : ν) (left right : Avl κ ν) : Avl κ ν :=
  match right with
  | nil => make key value left nil
  | node rk rv rl rr _ =>
    if rr.height < rl.height then
      match rl with
      | nil => make key value left right
      | node lk lv ll lr _ => make lk lv (make key value left ll) (make rk rv lr rr)
    else make rk rv (make key value left rl) rr

def balance : Avl κ ν → Avl κ ν
  | nil => nil
  | node key value left right h =>
    if right.height + 1 < left.height then rotateRight key value left right
    else if left.height + 1 < right.height then rotateLeft key value left right
    else node key value left right h

theorem toList_rotateRight (key : κ) (value : ν) (left right : Avl κ ν) :
    (rotateRight key value left right).toList = left.toList ++ (key, value) :: right.toList := by
  unfold rotateRight
  split
  · rfl
  · split
    · split <;> simp [toList]
    · simp [toList]

theorem toList_rotateLeft (key : κ) (value : ν) (left right : Avl κ ν) :
    (rotateLeft key value left right).toList = left.toList ++ (key, value) :: right.toList := by
  unfold rotateLeft
  split
  · rfl
  · split
    · split <;> simp [toList]
    · simp [toList]

/-- Rebalancing keeps the entries and their order. -/
@[simp] theorem toList_balance (t : Avl κ ν) : t.balance.toList = t.toList := by
  unfold balance
  split
  · rfl
  · split
    · exact toList_rotateRight ..
    · split
      · exact toList_rotateLeft ..
      · rfl

/-- The first entry of a tree that has one. -/
def first : Avl κ ν → Option (κ × ν)
  | nil => none
  | node key value left _ _ => some (left.first.getD (key, value))

variable {t : Avl κ ν} {k : κ} {rows : List (κ × ν)}

theorem toList_first : t.first = t.toList.head? := by
  induction t with
  | nil => rfl
  | node key value left right h ihLeft _ =>
    simp only [first, toList, ihLeft]
    cases left.toList <;> simp

/-- Visit every entry in key order, up to the first error. -/
def each {ε β : Type} (visit : β → κ → ν → Except ε β) : Avl κ ν → β → Except ε β
  | nil, b => .ok b
  | node key value left right _, b => do
    let b ← left.each visit b
    let b ← visit b key value
    right.each visit b

/-- `each` runs over the entries in key order. -/
theorem each_eq {ε β : Type} (visit : β → κ → ν → Except ε β) (t : Avl κ ν) (b : β) :
    t.each visit b = t.toList.foldlM (fun b a => visit b a.1 a.2) b := by
  induction t generalizing b with
  | nil => rfl
  | node key value left right h ihLeft ihRight =>
    simp only [each, toList, foldlM_append, foldlM_cons, ihLeft, ihRight]

variable [LinearOrder κ]

def get : Avl κ ν → κ → Option ν
  | nil, _ => none
  | node key value left right _, k =>
    if k < key then left.get k else if key < k then right.get k else some value

def put : Avl κ ν → κ → ν → Avl κ ν
  | nil, k, v => make k v nil nil
  | node key value left right _, k, v =>
    if k < key then balance (make key value (left.put k v) right)
    else if key < k then balance (make key value left (right.put k v))
    else make k v left right

def remove : Avl κ ν → κ → Avl κ ν
  | nil, _ => nil
  | node key value left right _, k =>
    if k < key then balance (make key value (left.remove k) right)
    else if key < k then balance (make key value left (right.remove k))
    else
      match left, right.first with
      | nil, _ => right
      | _, none => left
      | _, some (sk, sv) => balance (make sk sv left (right.remove sk))

/-- The first `limit` entries behind `after`, added to `rows`. -/
def seekRows : Avl κ ν → κ → Nat → List (κ × ν) → List (κ × ν)
  | nil, _, _, rows => rows
  | node key value left right _, after, limit, rows =>
    if limit ≤ rows.length then rows
    else if key ≤ after then right.seekRows after limit rows
    else
      let rows := left.seekRows after limit rows
      let rows := if rows.length < limit then rows ++ [(key, value)] else rows
      right.seekRows after limit rows

/-- Keys strictly ascend. -/
def Ordered (t : Avl κ ν) : Prop := t.toList.Pairwise fun a b => a.1 < b.1

/-- The parts of an ordered node. -/
structure OrderedNode (key : κ) (left right : Avl κ ν) : Prop where
  ofLeft : left.Ordered
  ofRight : right.Ordered
  below : ∀ a ∈ left.toList, a.1 < key
  above : ∀ a ∈ right.toList, key < a.1

theorem ordered_node {key : κ} {value : ν} {left right : Avl κ ν} {h : Nat}
    (ordered : (node key value left right h).Ordered) : OrderedNode key left right := by
  obtain ⟨ofLeft, ofRight, across⟩ := pairwise_append.1 ordered
  obtain ⟨above, ofRight⟩ := pairwise_cons.1 ofRight
  exact ⟨ofLeft, ofRight, fun a mem => across a mem _ mem_cons_self, above⟩

/-- A lookup finds exactly the entries of the list. -/
theorem get_eq_some (ordered : t.Ordered) {v : ν} : t.get k = some v ↔ (k, v) ∈ t.toList := by
  induction t with
  | nil => simp [get, toList]
  | node key value left right h ihLeft ihRight =>
    obtain ⟨ofLeft, ofRight, below, above⟩ := ordered_node ordered
    simp only [get, toList, mem_append, mem_cons, Prod.mk.injEq]
    rcases lt_trichotomy k key with lt | rfl | gt
    · have notRight : (k, v) ∉ right.toList := fun mem => absurd (above _ mem) (not_lt_of_gt lt)
      simp [lt, ihLeft ofLeft, notRight, lt.ne]
    · have notLeft : (k, v) ∉ left.toList := fun mem => lt_irrefl _ (below _ mem)
      have notRight : (k, v) ∉ right.toList := fun mem => lt_irrefl _ (above _ mem)
      simp [notLeft, notRight, eq_comm]
    · have notLeft : (k, v) ∉ left.toList := fun mem => absurd (below _ mem) (not_lt_of_gt gt)
      simp [not_lt_of_gt gt, gt, ihRight ofRight, notLeft, gt.ne']

theorem filter_below (h : ∀ a ∈ rows, a.1 < k) :
    rows.filter (fun a => decide (a.1 < k)) = rows ∧ rows.filter (fun a => decide (k < a.1)) = [] := by
  constructor
  · exact filter_eq_self.2 fun a mem => decide_eq_true (h a mem)
  · exact filter_eq_nil_iff.2 fun a mem => by simpa using (h a mem).le

theorem filter_above (h : ∀ a ∈ rows, k < a.1) :
    rows.filter (fun a => decide (a.1 < k)) = [] ∧ rows.filter (fun a => decide (k < a.1)) = rows := by
  constructor
  · exact filter_eq_nil_iff.2 fun a mem => by simpa using (h a mem).le
  · exact filter_eq_self.2 fun a mem => decide_eq_true (h a mem)

/-- `put` writes the entry between the smaller and the larger keys. -/
theorem toList_put (ordered : t.Ordered) (k : κ) (v : ν) :
    (t.put k v).toList = t.toList.filter (fun a => decide (a.1 < k)) ++
      (k, v) :: t.toList.filter (fun a => decide (k < a.1)) := by
  induction t with
  | nil => simp [put, toList, make]
  | node key value left right h ihLeft ihRight =>
    obtain ⟨ofLeft, ofRight, below, above⟩ := ordered_node ordered
    simp only [put, toList]
    rcases lt_trichotomy k key with lt | rfl | gt
    · have far := filter_above fun a mem => lt.trans (above a mem)
      simp [lt, not_lt_of_gt lt, ihLeft ofLeft, far.1, far.2]
    · have low := filter_below below
      have high := filter_above above
      simp [low.1, low.2, high.1, high.2]
    · have far := filter_below fun a mem => (below a mem).trans gt
      simp [gt, not_lt_of_gt gt, ihRight ofRight, far.1, far.2]

theorem filter_ne (h : ∀ a ∈ rows, a.1 ≠ k) : rows.filter (fun a => decide (a.1 ≠ k)) = rows :=
  filter_eq_self.2 fun a mem => decide_eq_true (h a mem)

/-- `remove` drops the entry of its key. -/
theorem toList_remove (ordered : t.Ordered) (k : κ) :
    (t.remove k).toList = t.toList.filter fun a => decide (a.1 ≠ k) := by
  induction t generalizing k with
  | nil => simp [remove, toList]
  | node key value left right h ihLeft ihRight =>
    obtain ⟨ofLeft, ofRight, below, above⟩ := ordered_node ordered
    rcases lt_trichotomy k key with lt | rfl | gt
    · have far := filter_ne fun a mem => (lt.trans (above a mem)).ne'
      simp only [remove, toList, lt, if_true, toList_balance, toList_make, ihLeft ofLeft, filter_append,
        filter_cons, far]
      simp [lt.ne']
    · have left_far := filter_ne fun a mem => (below a mem).ne
      have right_far := filter_ne fun a mem => (above a mem).ne'
      have target : (node k value left right h).toList.filter (fun a => decide (a.1 ≠ k)) = left.toList ++ right.toList := by
        simp only [toList, filter_append, filter_cons, left_far, right_far]
        simp
      rw [target]
      simp only [remove, lt_irrefl, if_false]
      cases found : right.first with
      | none =>
        rw [toList_first, head?_eq_none_iff] at found
        cases left <;> simp [toList, found]
      | some successor =>
        obtain ⟨sk, sv⟩ := successor
        rw [toList_first] at found
        -- the successor is the head of the right side, and leaves it
        obtain ⟨rest, right_eq⟩ : ∃ rest, right.toList = (sk, sv) :: rest := by
          cases listed : right.toList with
          | nil => simp [listed] at found
          | cons a rest =>
            simp only [listed, head?_cons, Option.some.injEq] at found
            exact ⟨rest, by rw [found]⟩
        have sorted : ((sk, sv) :: rest).Pairwise fun a b => a.1 < b.1 := right_eq ▸ ofRight
        have rest_far := filter_ne fun a mem => ((pairwise_cons.1 sorted).1 a mem).ne'
        cases left with
        | nil => simp [toList]
        | node =>
          rw [toList_balance, toList_make, ihRight ofRight, right_eq, filter_cons, rest_far]
          simp
    · have far := filter_ne fun a mem => ((below a mem).trans gt).ne
      simp only [remove, toList, not_lt_of_gt gt, gt, if_true, if_false, toList_balance, toList_make, ihRight ofRight,
        filter_append, filter_cons, far]
      simp [gt.ne]

/-- A seek returns the entries behind `after`, as far as there is room. -/
theorem seekRows_eq (ordered : t.Ordered) (after : κ) (limit : Nat) (rows : List (κ × ν)) :
    t.seekRows after limit rows =
      rows ++ (t.toList.filter fun a => decide (after < a.1)).take (limit - rows.length) := by
  induction t generalizing rows with
  | nil => simp [seekRows, toList]
  | node key value left right h ihLeft ihRight =>
    obtain ⟨ofLeft, ofRight, below, above⟩ := ordered_node ordered
    simp only [seekRows, toList]
    split
    case isTrue full => simp [Nat.sub_eq_zero_of_le full]
    split
    case isTrue passed =>
      have left_passed := (filter_below fun a mem => (below a mem).trans_le passed).2
      simp [ihRight ofRight, left_passed, not_lt_of_ge passed]
    case isFalse room ahead =>
      have right_ahead := (filter_above fun a mem => (not_le.1 ahead).trans (above a mem)).2
      have all_ahead : ((key, value) :: right.toList).filter (fun a => decide (after < a.1)) =
          (key, value) :: right.toList := by
        rw [filter_cons, right_ahead]
        simp [not_le.1 ahead]
      rw [ihLeft ofLeft, ihRight ofRight, right_ahead, filter_append, all_ahead]
      generalize left.toList.filter (fun a => decide (after < a.1)) = found
      rw [take_append]
      by_cases short : found.length < limit - rows.length
      · obtain ⟨n, left_over⟩ : ∃ n, limit - rows.length - found.length = n + 1 :=
          ⟨limit - rows.length - found.length - 1, by omega⟩
        have lengths : (rows ++ found).length < limit := by simp only [length_append]; omega
        rw [take_of_length_le short.le, if_pos lengths, left_over, take_succ_cons]
        have same : limit - (rows ++ found ++ [(key, value)]).length = n := by
          simp only [length_append, length_singleton]
          omega
        rw [same]
        simp
      · have full : (rows ++ found.take (limit - rows.length)).length = limit := by
          simp only [length_append, length_take]
          omega
        have none_left : limit - rows.length - found.length = 0 := by omega
        rw [if_neg (by omega), full, none_left]
        simp

end Avl

/-- An ordered tree. -/
structure Dictionary (κ ν : Type) [LinearOrder κ] where
  tree : Avl κ ν
  ordered : tree.Ordered

namespace Dictionary

variable [LinearOrder κ]

def empty : Dictionary κ ν := ⟨.nil, List.Pairwise.nil⟩

def toList (d : Dictionary κ ν) : List (κ × ν) := d.tree.toList

def get (d : Dictionary κ ν) (k : κ) : Option ν := d.tree.get k

def put (d : Dictionary κ ν) (k : κ) (v : ν) : Dictionary κ ν where
  tree := d.tree.put k v
  ordered := by
    unfold Avl.Ordered
    rw [Avl.toList_put d.ordered]
    refine pairwise_append.2 ⟨d.ordered.filter _, pairwise_cons.2 ⟨fun a mem => ?_, d.ordered.filter _⟩, ?_⟩
    · exact of_decide_eq_true (List.mem_filter.1 mem).2
    · intro a mem b mem'
      have low : a.1 < k := of_decide_eq_true (List.mem_filter.1 mem).2
      rcases mem_cons.1 mem' with rfl | high
      · exact low
      · exact low.trans (of_decide_eq_true (List.mem_filter.1 high).2)

def remove (d : Dictionary κ ν) (k : κ) : Dictionary κ ν where
  tree := d.tree.remove k
  ordered := by
    unfold Avl.Ordered
    rw [Avl.toList_remove d.ordered]
    exact d.ordered.filter _

def seekRows (d : Dictionary κ ν) (after : κ) (limit : Nat) : List (κ × ν) := d.tree.seekRows after limit []

def each {ε β : Type} (visit : β → κ → ν → Except ε β) (d : Dictionary κ ν) (b : β) : Except ε β :=
  d.tree.each visit b

theorem toList_sorted (d : Dictionary κ ν) : d.toList.Pairwise fun a b => a.1 < b.1 := d.ordered

variable {d d' : Dictionary κ ν} {k : κ} {v : ν}

theorem get_eq_some : d.get k = some v ↔ (k, v) ∈ d.toList :=
  Avl.get_eq_some d.ordered

theorem toList_put (d : Dictionary κ ν) (k : κ) (v : ν) : (d.put k v).toList =
    d.toList.filter (fun a => decide (a.1 < k)) ++ (k, v) :: d.toList.filter (fun a => decide (k < a.1)) :=
  Avl.toList_put d.ordered k v

theorem toList_remove (d : Dictionary κ ν) (k : κ) :
    (d.remove k).toList = d.toList.filter fun a => decide (a.1 ≠ k) :=
  Avl.toList_remove d.ordered k

theorem mem_toList_put {a : κ × ν} : a ∈ (d.put k v).toList ↔ a = (k, v) ∨ a.1 ≠ k ∧ a ∈ d.toList := by
  rw [toList_put, mem_append, mem_cons, List.mem_filter, List.mem_filter, decide_eq_true_eq, decide_eq_true_eq,
    ne_iff_lt_or_gt]
  tauto

theorem get_put (d : Dictionary κ ν) (k : κ) (v : ν) (k' : κ) :
    (d.put k v).get k' = if k' = k then some v else d.get k' := by
  apply Option.ext
  intro w
  rw [get_eq_some, mem_toList_put]
  by_cases same : k' = k
  · simp [same, eq_comm]
  · simp [same, get_eq_some]

@[simp] theorem get_put_self (d : Dictionary κ ν) (k : κ) (v : ν) : (d.put k v).get k = some v := by
  rw [get_put, if_pos rfl]

theorem get_remove (d : Dictionary κ ν) (k k' : κ) : (d.remove k).get k' = if k' = k then none else d.get k' := by
  apply Option.ext
  intro w
  rw [get_eq_some, toList_remove, List.mem_filter]
  by_cases same : k' = k
  · simp [same]
  · simp [same, get_eq_some]

theorem toList_nodup (d : Dictionary κ ν) : d.toList.Nodup :=
  d.toList_sorted.imp fun lt same => absurd (congrArg Prod.fst same) lt.ne

/-- Two dictionaries that answer alike list the same entries. -/
theorem toList_congr (same : ∀ k, d.get k = d'.get k) : d.toList = d'.toList := by
  have perm : d.toList.Perm d'.toList := by
    refine (perm_ext_iff_of_nodup d.toList_nodup d'.toList_nodup).2 fun a => ?_
    rw [← get_eq_some, ← get_eq_some, same]
  exact perm.eq_of_pairwise (fun a b _ _ lt gt => absurd (lt.trans gt) (lt_irrefl _)) d.toList_sorted d'.toList_sorted

/-- Two dictionaries with the same entries answer alike. -/
theorem get_congr (same : d'.toList = d.toList) (k : κ) : d'.get k = d.get k := by
  apply Option.ext
  intro v
  rw [get_eq_some, get_eq_some, same]

theorem toList_put_congr (same : d'.toList = d.toList) (k : κ) (v : ν) :
    (d'.put k v).toList = (d.put k v).toList := by
  rw [toList_put, toList_put, same]

/-- A written entry, and the entries of the other keys. -/
theorem toList_put_perm (d : Dictionary κ ν) (k : κ) (v : ν) :
    (d.put k v).toList.Perm ((k, v) :: (d.remove k).toList) := by
  have absent : (k, v) ∉ (d.remove k).toList := by simp [toList_remove]
  refine (perm_ext_iff_of_nodup (toList_nodup _) (nodup_cons.2 ⟨absent, toList_nodup _⟩)).2 fun a => ?_
  rw [mem_toList_put, mem_cons, toList_remove, List.mem_filter, decide_eq_true_eq, and_comm (a := a.1 ≠ k)]

/-- An entry that is there, and the entries of the other keys. -/
theorem toList_perm_of_get (found : d.get k = some v) : d.toList.Perm ((k, v) :: (d.remove k).toList) := by
  have same : ∀ k', (d.put k v).get k' = d.get k' := by
    intro k'
    rw [get_put]
    split
    case isTrue eq => rw [eq, found]
    case isFalse => rfl
  rw [← toList_congr same]
  exact toList_put_perm d k v

theorem toList_remove_of_get (missing : d.get k = none) : (d.remove k).toList = d.toList := by
  refine toList_congr fun k' => ?_
  rw [get_remove]
  split
  case isTrue eq => rw [eq, missing]
  case isFalse => rfl

theorem length_put_of_some (found : d.get k = some v) (w : ν) : (d.put k w).toList.length = d.toList.length := by
  rw [(toList_put_perm d k w).length_eq, (toList_perm_of_get found).length_eq, length_cons, length_cons]

theorem length_put_of_none (missing : d.get k = none) (w : ν) : (d.put k w).toList.length = d.toList.length + 1 := by
  rw [(toList_put_perm d k w).length_eq, toList_remove_of_get missing, length_cons]

/-- A key behind all others is written at the end. -/
theorem toList_put_last (last : ∀ a ∈ d.toList, a.1 < k) (v : ν) : (d.put k v).toList = d.toList ++ [(k, v)] := by
  rw [toList_put, (Avl.filter_below last).1, (Avl.filter_below last).2]

theorem seekRows_eq (d : Dictionary κ ν) (after : κ) (limit : Nat) :
    d.seekRows after limit = (d.toList.filter fun a => decide (after < a.1)).take limit := by
  simpa [seekRows, toList] using Avl.seekRows_eq d.ordered after limit []

theorem each_eq {ε β : Type} (visit : β → κ → ν → Except ε β) (d : Dictionary κ ν) (b : β) :
    d.each visit b = d.toList.foldlM (fun b a => visit b a.1 a.2) b :=
  Avl.each_eq visit d.tree b

end Dictionary

end Pagnet
