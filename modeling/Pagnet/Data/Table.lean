import Mathlib.Data.List.Pairwise
import Mathlib.Data.List.Nodup
import Mathlib.Data.Int.Interval
import Mathlib.Tactic.Linarith

/-!
# Rowid tables

A table with an integer primary key: its rows stand in key order and no key
occurs twice. Both facts are a field of the structure, so every statement about
such a table may use them without an invariant of its own. `find?` is a lookup
by primary key, `insert` fails on a key that is taken, `filter` deletes and
`modify` updates rows without touching their keys.
-/

namespace Pagnet
open List

variable {α : Type} {key : α → Int}

/-- Rows in the order of their primary key. -/
structure Table (α : Type) (key : α → Int) where
  rows : List α
  sorted : rows.Pairwise fun a b => key a < key b

/-- Place a row in key order. -/
def insertRow (key : α → Int) (a : α) : List α → List α
  | [] => [a]
  | b :: bs => if key a < key b then a :: b :: bs else b :: insertRow key a bs

variable {a : α} {rows : List α} {p : Int → Bool}

theorem mem_insertRow {x : α} : x ∈ insertRow key a rows ↔ x = a ∨ x ∈ rows := by
  induction rows with
  | nil => simp [insertRow]
  | cons b bs ih =>
    unfold insertRow
    split
    · simp
    · simp only [mem_cons, ih]
      tauto

theorem length_insertRow (a : α) (rows : List α) : (insertRow key a rows).length = rows.length + 1 := by
  induction rows with
  | nil => rfl
  | cons b bs ih =>
    unfold insertRow
    split
    · simp
    · simp [ih]

theorem insertRow_sorted (fresh : ∀ x ∈ rows, key x ≠ key a) (sorted : rows.Pairwise fun a b => key a < key b) :
    (insertRow key a rows).Pairwise fun a b => key a < key b := by
  induction rows with
  | nil => simp [insertRow]
  | cons b bs ih =>
    obtain ⟨head, tail⟩ := pairwise_cons.1 sorted
    unfold insertRow
    split
    case isTrue lt =>
      refine pairwise_cons.2 ⟨fun x mem => ?_, sorted⟩
      rcases mem_cons.1 mem with rfl | mem
      · exact lt
      · exact lt.trans (head x mem)
    case isFalse ge =>
      have other := fresh b mem_cons_self
      refine pairwise_cons.2 ⟨fun x mem => ?_, ih (fun x mem => fresh x (mem_cons_of_mem _ mem)) tail⟩
      rcases mem_insertRow.1 mem with rfl | mem
      · omega
      · exact head x mem

namespace Table

instance : Membership α (Table α key) := ⟨fun t a => a ∈ t.rows⟩

variable {a b : α} {t t' : Table α key} {p : α → Bool} {k : Int} {f : α → α} {keeps : ∀ a, key (f a) = key a}

@[simp] theorem mem_rows : a ∈ t.rows ↔ a ∈ t := Iff.rfl

instance [DecidableEq α] (t : Table α key) (a : α) : Decidable (a ∈ t) :=
  inferInstanceAs (Decidable (a ∈ t.rows))

/-- The table without rows. -/
def empty : Table α key := ⟨[], List.Pairwise.nil⟩

@[simp] theorem not_mem_empty (a : α) : a ∉ (empty : Table α key) :=
  not_mem_nil

/-- `SELECT COUNT(*)`. -/
def count (t : Table α key) : Nat := t.rows.length

/-- `SELECT EXISTS(... WHERE p)`. -/
def exists? (t : Table α key) (p : α → Bool) : Bool := t.rows.any p

theorem exists?_eq_true : t.exists? p ↔ ∃ a ∈ t, p a := by
  simp [exists?]

theorem exists?_eq_false : t.exists? p = false ↔ ∀ a ∈ t, p a = false := by
  simp [exists?]

/-- The row with primary key `k`. -/
def find? (t : Table α key) (k : Int) : Option α := t.rows.find? fun a => key a = k

theorem keys_nodup (t : Table α key) : (t.rows.map key).Nodup :=
  pairwise_map.2 (t.sorted.imp fun lt => ne_of_lt lt)

/-- Two rows with one key are one row. -/
theorem eq_of_key (ha : a ∈ t) (hb : b ∈ t) (same : key a = key b) : a = b :=
  inj_on_of_nodup_map t.keys_nodup ha hb same

theorem find?_eq_some : t.find? k = some a ↔ a ∈ t ∧ key a = k := by
  constructor
  · intro found
    have at_key := find?_some found
    exact ⟨mem_of_find?_eq_some found, by simpa using at_key⟩
  · rintro ⟨mem, rfl⟩
    cases found : t.find? (key a) with
    | none => exact absurd (List.find?_eq_none.1 found a mem) (by simp)
    | some b =>
      have at_key := find?_some found
      rw [eq_of_key (mem_of_find?_eq_some found) mem (by simpa using at_key)]

theorem find?_eq_none : t.find? k = none ↔ ∀ a ∈ t, key a ≠ k := by
  simp [find?]

/-- `INSERT`: refused when the primary key is taken. -/
def insert (t : Table α key) (a : α) : Option (Table α key) :=
  if fresh : ∀ x ∈ t.rows, key x ≠ key a then
    some ⟨insertRow key a t.rows, insertRow_sorted fresh t.sorted⟩
  else none

theorem insert_eq_some (h : t.insert a = some t') :
    (∀ x ∈ t, key x ≠ key a) ∧ (∀ x, x ∈ t' ↔ x = a ∨ x ∈ t) ∧ t'.count = t.count + 1 := by
  unfold insert at h
  split at h
  case isTrue fresh =>
    cases h
    exact ⟨fresh, fun x => mem_insertRow, length_insertRow a t.rows⟩
  case isFalse => cases h

theorem insert_of_fresh (a : α) (fresh : ∀ x ∈ t, key x ≠ key a) : ∃ t', t.insert a = some t' :=
  ⟨_, dif_pos fresh⟩

/-- An insert is not seen at any other key. -/
theorem find?_insert_of_ne (h : t.insert a = some t') (other : k ≠ key a) : t'.find? k = t.find? k := by
  obtain ⟨-, members, -⟩ := insert_eq_some h
  apply Option.ext
  intro x
  rw [find?_eq_some, find?_eq_some, members]
  constructor
  · rintro ⟨rfl | mem, rfl⟩
    · exact absurd rfl other
    · exact ⟨mem, rfl⟩
  · rintro ⟨mem, at_k⟩
    exact ⟨.inr mem, at_k⟩

/-- The inserted row is found. -/
theorem find?_insert_self (h : t.insert a = some t') : t'.find? (key a) = some a :=
  find?_eq_some.2 ⟨((insert_eq_some h).2.1 a).2 (.inl rfl), rfl⟩

/-- `DELETE`: keep the rows that satisfy `p`. -/
def filter (t : Table α key) (p : α → Bool) : Table α key :=
  ⟨t.rows.filter p, t.sorted.filter p⟩

@[simp] theorem mem_filter : a ∈ t.filter p ↔ a ∈ t ∧ p a :=
  List.mem_filter

/-- A delete is not seen at a key whose rows are kept. -/
theorem find?_filter (kept : ∀ a ∈ t, key a = k → p a) : (t.filter p).find? k = t.find? k := by
  apply Option.ext
  intro x
  rw [find?_eq_some, find?_eq_some, mem_filter]
  constructor
  · rintro ⟨⟨mem, -⟩, at_k⟩
    exact ⟨mem, at_k⟩
  · rintro ⟨mem, at_k⟩
    exact ⟨⟨mem, kept x mem at_k⟩, at_k⟩

theorem count_filter_le (t : Table α key) (p : α → Bool) : (t.filter p).count ≤ t.count :=
  length_filter_le p t.rows

/-- `UPDATE`: rewrite rows without changing a primary key. -/
def modify (t : Table α key) (f : α → α) (keeps : ∀ a, key (f a) = key a) : Table α key :=
  ⟨t.rows.map f, pairwise_map.2 (t.sorted.imp fun lt => by rw [keeps, keeps]; exact lt)⟩

@[simp] theorem mem_modify : b ∈ t.modify f keeps ↔ ∃ a ∈ t, f a = b :=
  mem_map

@[simp] theorem count_modify : (t.modify f keeps).count = t.count :=
  length_map f

/-- An update that changes no row changes nothing. -/
theorem modify_eq_self (same : ∀ a ∈ t, f a = a) : t.modify f keeps = t := by
  obtain ⟨rows, sorted⟩ := t
  have rows_eq : rows.map f = rows := (map_congr_left same).trans (map_id' rows)
  simp only [modify, rows_eq]

/-- The keys in use. -/
def keys (t : Table α key) : Finset Int := (t.rows.map key).toFinset

theorem mem_keys : k ∈ t.keys ↔ ∃ a ∈ t, key a = k := by
  simp [keys]

theorem card_keys (t : Table α key) : t.keys.card = t.count := by
  rw [keys, toFinset_card_of_nodup t.keys_nodup, length_map, count]

end Table

/-- The check of a cursor over rows ordered by key: each key follows the last. -/
def consecutive (key : α → Int) (expected : Int) : List α → Bool
  | [] => true
  | a :: as => key a == expected && consecutive key (key a + 1) as

namespace Table

variable {hi lo : Int} {t : Table α key}

/-- A table that uses exactly the keys of `(lo, hi]` has `hi - lo` rows. -/
theorem count_of_cover (le : lo ≤ hi)
    (cover : ∀ s, (∃ a ∈ t, key a = s) ↔ lo < s ∧ s ≤ hi) : (t.count : Int) = hi - lo := by
  have keys_eq : t.keys = Finset.Ioc lo hi := by
    ext s
    rw [mem_keys, Finset.mem_Ioc, cover]
  rw [← card_keys, keys_eq, Int.card_Ioc]
  omega

/-- Two tables that share out the keys of `(lo, hi]` have `hi - lo` rows together. -/
theorem count_of_partition {β : Type} {other : β → Int} {u : Table β other}
    (le : lo ≤ hi) (cover : ∀ s, (s ∈ t.keys ∨ s ∈ u.keys) ↔ lo < s ∧ s ≤ hi)
    (apart : ∀ s, s ∈ t.keys → s ∉ u.keys) : (t.count + u.count : Int) = hi - lo := by
  have union : t.keys ∪ u.keys = Finset.Ioc lo hi := by
    ext s
    rw [Finset.mem_union, Finset.mem_Ioc, cover]
  have disjoint : Disjoint t.keys u.keys := Finset.disjoint_left.2 fun s => apart s
  have card := Finset.card_union_of_disjoint disjoint
  rw [union, Int.card_Ioc, card_keys, card_keys] at card
  omega

end Table

/-- The loop `for p(n + 1) { n++ }`. -/
def climb (p : Int → Bool) : Nat → Int → Int
  | 0, n => n
  | fuel + 1, n => if p (n + 1) then climb p fuel (n + 1) else n

theorem le_climb (p : Int → Bool) (fuel : Nat) (n : Int) : n ≤ climb p fuel n := by
  induction fuel generalizing n with
  | zero => exact le_refl n
  | succ fuel ih =>
    unfold climb
    split
    · have := ih (n + 1)
      omega
    · exact le_refl n

/-- Every number the loop passed satisfied its condition. -/
theorem climb_passed {fuel : Nat} {n s : Int} (above : n < s) (below : s ≤ climb p fuel n) : p s := by
  induction fuel generalizing n with
  | zero => unfold climb at below; omega
  | succ fuel ih =>
    unfold climb at below
    split at below
    case isTrue holds =>
      by_cases first : s = n + 1
      · rw [first]; exact holds
      · exact ih (by omega) below
    case isFalse => omega

/-- The loop stops where its condition fails, or when its fuel is spent. -/
theorem climb_stops (p : Int → Bool) (fuel : Nat) (n : Int) :
    p (climb p fuel n + 1) = false ∨ climb p fuel n = n + fuel := by
  induction fuel generalizing n with
  | zero => right; simp [climb]
  | succ fuel ih =>
    unfold climb
    split
    case isTrue =>
      rcases ih (n + 1) with stops | spent
      · exact .inl stops
      · right; omega
    case isFalse fails => left; simpa using fails

/-- A loop over the keys of a table passes each row at most once, so as much
fuel as the table has rows is enough. -/
theorem climb_table {t : Table α key} (keyed : ∀ s, p s → s ∈ t.keys) (n : Int) :
    p (climb p t.count n + 1) = false := by
  rcases climb_stops p t.count n with stops | spent
  · exact stops
  · by_contra holds
    have subset : Finset.Ioc n (n + t.count + 1) ⊆ t.keys := by
      intro s mem
      obtain ⟨above, below⟩ := Finset.mem_Ioc.1 mem
      apply keyed
      by_cases last : s = n + t.count + 1
      · rw [last, ← spent]; simpa using holds
      · have passed : s ≤ climb p t.count n := by omega
        exact climb_passed above passed
    have card := Finset.card_le_card subset
    rw [Int.card_Ioc, Table.card_keys] at card
    omega
end Pagnet
