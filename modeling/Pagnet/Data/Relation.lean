import Mathlib.Algebra.Order.BigOperators.Group.List
import Mathlib.Data.List.Nodup
import Mathlib.Tactic.Ring

/-!
# Keyed tables

A table whose primary key may be of any type. No key occurs twice, which is a
field of the structure. `insert` fails on a key that is taken, `modify` updates
the rows that meet a condition without touching their keys, `filter` deletes and
`upsert` replaces the row of a key or adds it. `total` sums a weight over the
rows; a write changes it by what it changes at the rows it touches.
-/

namespace Pagnet
open List

variable {α κ : Type} {key : α → κ}

/-- Rows with distinct keys. -/
structure Relation (α κ : Type) (key : α → κ) where
  rows : List α
  unique : (rows.map key).Nodup

namespace Relation

instance : Membership α (Relation α κ key) := ⟨fun t a => a ∈ t.rows⟩

variable {a : α} {t : Relation α κ key} {w w' : α → Int}

@[simp] theorem mem_rows : a ∈ t.rows ↔ a ∈ t := Iff.rfl

@[ext] theorem ext {u : Relation α κ key} (h : t.rows = u.rows) : t = u := by
  cases t
  cases u
  cases h
  rfl

def empty : Relation α κ key := ⟨[], nodup_nil⟩

@[simp] theorem not_mem_empty (a : α) : a ∉ (empty : Relation α κ key) := not_mem_nil

/-- Rows with the same key are one row. -/
theorem eq_of_key {b : α} (ha : a ∈ t) (hb : b ∈ t) (same : key a = key b) : a = b :=
  inj_on_of_nodup_map t.unique ha hb same

section Find
variable [DecidableEq κ]

/-- `SELECT ... WHERE key = k`. -/
def find? (t : Relation α κ key) (k : κ) : Option α := t.rows.find? fun a => key a = k

variable {k : κ} {t : Relation α κ key}

theorem find?_eq_some {a : α} : t.find? k = some a ↔ a ∈ t ∧ key a = k := by
  constructor
  · intro found
    exact ⟨mem_of_find?_eq_some found, by simpa using find?_some found⟩
  · rintro ⟨mem, rfl⟩
    cases found : t.find? (key a) with
    | none =>
      have differs := List.find?_eq_none.1 found a mem
      simp at differs
    | some b =>
      have same : key b = key a := by simpa using find?_some found
      rw [eq_of_key (mem_of_find?_eq_some found) mem same]

theorem find?_eq_none : t.find? k = none ↔ ∀ a ∈ t, key a ≠ k := by
  rw [find?, List.find?_eq_none]
  simp

end Find

/-! ## Totals -/

/-- `SELECT SUM(w)`. -/
def total (t : Relation α κ key) (w : α → Int) : Int := (t.rows.map w).sum

theorem total_congr (same : ∀ a ∈ t, w a = w' a) : t.total w = t.total w' := by
  rw [total, map_congr_left same]
  rfl

theorem sum_map_sub (rows : List α) (w w' : α → Int) :
    (rows.map fun a => w' a - w a).sum = (rows.map w').sum - (rows.map w).sum := by
  induction rows with
  | nil => rfl
  | cons a rows ih =>
    simp only [map_cons, sum_cons, ih]
    ring

theorem total_nonneg (each : ∀ a ∈ t, 0 ≤ w a) : 0 ≤ t.total w :=
  sum_nonneg (by simpa using each)

/-- Only the row of one key weighs differently. -/
theorem total_change (mem : a ∈ t)
    (others : ∀ b ∈ t, key b ≠ key a → w' b = w b) : t.total w' = t.total w + (w' a - w a) := by
  have single : ∀ rows : List α, (rows.map key).Nodup → a ∈ rows → (∀ b ∈ rows, key b ≠ key a → w' b = w b) →
      (rows.map fun b => w' b - w b).sum = w' a - w a := by
    intro rows unique mem others
    induction rows with
    | nil => exact nomatch mem
    | cons b rows ih =>
      obtain ⟨fresh, unique⟩ := nodup_cons.1 unique
      rw [map_cons, sum_cons]
      rcases mem_cons.1 mem with rfl | inside
      · have rest : (rows.map fun b => w' b - w b).sum = 0 := by
          refine sum_eq_zero fun x listed => ?_
          obtain ⟨b, mem_b, rfl⟩ := mem_map.1 listed
          have differs : key b ≠ key a := fun same => fresh (same ▸ mem_map_of_mem mem_b)
          rw [others b (mem_cons_of_mem _ mem_b) differs, sub_self]
        rw [rest, add_zero]
      · have differs : key b ≠ key a := fun same => fresh (same ▸ mem_map_of_mem inside)
        rw [others b mem_cons_self differs, sub_self, zero_add]
        exact ih unique inside fun b mem_b => others b (mem_cons_of_mem _ mem_b)
  have changed := single t.rows t.unique mem others
  rw [sum_map_sub] at changed
  change (t.rows.map w').sum = (t.rows.map w).sum + _
  rw [← changed]
  ring

/-! ## Writes -/

/-- `INSERT`. -/
def insert [DecidableEq κ] (t : Relation α κ key) (a : α) : Option (Relation α κ key) :=
  if fresh : key a ∉ t.rows.map key then
    some ⟨t.rows ++ [a], by
      rw [map_append, nodup_append]
      refine ⟨t.unique, nodup_singleton _, ?_⟩
      rintro k taken _ new rfl
      exact fresh (mem_singleton.1 new ▸ taken)⟩
  else none

section Insert
variable [DecidableEq κ] {t t' : Relation α κ key} {a : α}

theorem insert_eq_some (h : t.insert a = some t') : (∀ b ∈ t, key b ≠ key a) ∧ t'.rows = t.rows ++ [a] := by
  unfold insert at h
  split at h
  case isTrue fresh =>
    cases h
    exact ⟨fun b mem same => fresh (same ▸ mem_map_of_mem mem), rfl⟩
  case isFalse => cases h

theorem mem_insert (h : t.insert a = some t') {b : α} : b ∈ t' ↔ b ∈ t ∨ b = a := by
  change b ∈ t'.rows ↔ b ∈ t.rows ∨ b = a
  rw [(insert_eq_some h).2, mem_append, mem_singleton]

theorem total_insert (h : t.insert a = some t') (w : α → Int) : t'.total w = t.total w + w a := by
  simp [total, (insert_eq_some h).2]

theorem find?_insert_self (h : t.insert a = some t') : t'.find? (key a) = some a :=
  find?_eq_some.2 ⟨(mem_insert h).2 (.inr rfl), rfl⟩

theorem find?_insert_of_ne (h : t.insert a = some t') {k : κ} (other : k ≠ key a) : t'.find? k = t.find? k := by
  rw [find?, (insert_eq_some h).2, find?_append]
  have not_new : [a].find? (fun b => decide (key b = k)) = none := by
    simp [Ne.symm other]
  rw [not_new, Option.or_none]
  rfl

end Insert

/-- `UPDATE ... WHERE p`. -/
def modify (t : Relation α κ key) (p : α → Bool) (f : α → α) (keeps : ∀ a, key (f a) = key a) : Relation α κ key :=
  ⟨t.rows.map fun a => if p a then f a else a, by
    have keys : (t.rows.map fun a => if p a then f a else a).map key = t.rows.map key := by
      rw [map_map]
      refine map_congr_left fun a _ => ?_
      simp only [Function.comp_apply]
      split
      · exact keeps a
      · rfl
    rw [keys]
    exact t.unique⟩

section Modify
variable {t : Relation α κ key} {p : α → Bool} {f : α → α} {keeps : ∀ a, key (f a) = key a}

variable {b a : α}

theorem mem_modify : b ∈ t.modify p f keeps ↔ ∃ a ∈ t, (if p a then f a else a) = b := mem_map

theorem total_modify (w : α → Int) : (t.modify p f keeps).total w = t.total fun a => if p a then w (f a) else w a := by
  change ((t.rows.map fun a => if p a then f a else a).map w).sum = _
  rw [map_map]
  refine congrArg List.sum (map_congr_left fun a _ => ?_)
  exact apply_ite w (p a) (f a) a

/-- An update of one row. -/
theorem mem_modify_one (mem : a ∈ t) (meets : p a) (only : ∀ x ∈ t, p x → key x = key a) :
    b ∈ t.modify p f keeps ↔ b = f a ∨ b ∈ t ∧ key b ≠ key a := by
  rw [mem_modify]
  constructor
  · rintro ⟨x, inside, rfl⟩
    by_cases matched : p x
    · rw [if_pos matched, eq_of_key inside mem (only x inside matched)]
      exact .inl rfl
    · rw [if_neg matched]
      exact .inr ⟨inside, fun same => matched (eq_of_key inside mem same ▸ meets)⟩
  · rintro (rfl | ⟨inside, differs⟩)
    · exact ⟨a, mem, if_pos meets⟩
    · exact ⟨b, inside, if_neg fun matched => differs (only b inside matched)⟩

theorem total_modify_one (mem : a ∈ t) (meets : p a) (only : ∀ x ∈ t, p x → key x = key a)
    (w : α → Int) : (t.modify p f keeps).total w = t.total w + (w (f a) - w a) := by
  rw [total_modify, total_change (w := w) mem fun b inside differs => if_neg fun matched => differs (only b inside matched),
    if_pos meets]

variable [DecidableEq κ]

theorem find?_modify (k : κ) : (t.modify p f keeps).find? k = (t.find? k).map fun a => if p a then f a else a := by
  cases found : t.find? k with
  | none =>
    rw [Option.map_none, find?_eq_none]
    intro b mem
    obtain ⟨a, inside, rfl⟩ := mem_modify.1 mem
    have other := find?_eq_none.1 found a inside
    split
    · rwa [keeps]
    · exact other
  | some a =>
    obtain ⟨mem, rfl⟩ := find?_eq_some.1 found
    rw [Option.map_some, find?_eq_some]
    refine ⟨mem_modify.2 ⟨a, mem, rfl⟩, ?_⟩
    split
    · exact keeps a
    · rfl

end Modify

/-- `DELETE ... WHERE NOT p`. -/
def filter (t : Relation α κ key) (p : α → Bool) : Relation α κ key :=
  ⟨t.rows.filter p, t.unique.sublist (filter_sublist.map key)⟩

section Filter
variable {t : Relation α κ key} {p : α → Bool}

theorem mem_filter {a : α} : a ∈ t.filter p ↔ a ∈ t ∧ p a := List.mem_filter

theorem total_filter (w : α → Int) : (t.filter p).total w = t.total fun a => if p a then w a else 0 := by
  have sums : ∀ rows : List α, ((rows.filter p).map w).sum = (rows.map fun a => if p a then w a else 0).sum := by
    intro rows
    induction rows with
    | nil => rfl
    | cons a rows ih =>
      rw [filter_cons, map_cons, sum_cons, ← ih]
      split <;> simp
  exact sums t.rows

variable [DecidableEq κ]

theorem find?_filter {k : κ} (kept : ∀ a ∈ t, key a = k → p a) : (t.filter p).find? k = t.find? k := by
  cases found : t.find? k with
  | none =>
    rw [find?_eq_none]
    exact fun a mem => find?_eq_none.1 found a (mem_filter.1 mem).1
  | some a =>
    obtain ⟨mem, rfl⟩ := find?_eq_some.1 found
    exact find?_eq_some.2 ⟨mem_filter.2 ⟨mem, kept a mem rfl⟩, rfl⟩

end Filter

/-- `INSERT ... ON CONFLICT DO UPDATE`. -/
def upsert [DecidableEq κ] (t : Relation α κ key) (a : α) : Relation α κ key :=
  ⟨t.rows.filter (fun b => key b ≠ key a) ++ [a], by
    rw [map_append, nodup_append]
    refine ⟨t.unique.sublist (filter_sublist.map key), nodup_singleton _, ?_⟩
    rintro k kept _ new rfl
    obtain ⟨b, mem, same⟩ := mem_map.1 kept
    have differs := (List.mem_filter.1 mem).2
    rw [mem_singleton.1 new] at same
    simp [same] at differs⟩

section Upsert
variable [DecidableEq κ] {t : Relation α κ key} {a b : α}

theorem mem_upsert : b ∈ t.upsert a ↔ b = a ∨ b ∈ t ∧ key b ≠ key a := by
  change b ∈ t.rows.filter (fun b => key b ≠ key a) ++ [a] ↔ _
  rw [mem_append, mem_singleton, List.mem_filter, or_comm]
  simp

theorem find?_upsert_self : (t.upsert a).find? (key a) = some a := find?_eq_some.2 ⟨mem_upsert.2 (.inl rfl), rfl⟩

theorem find?_upsert_of_ne {k : κ} (other : k ≠ key a) : (t.upsert a).find? k = t.find? k := by
  cases found : t.find? k with
  | none =>
    rw [find?_eq_none]
    rintro b mem rfl
    rcases mem_upsert.1 mem with rfl | ⟨inside, -⟩
    · exact other rfl
    · exact find?_eq_none.1 found b inside rfl
  | some b =>
    obtain ⟨mem, rfl⟩ := find?_eq_some.1 found
    exact find?_eq_some.2 ⟨mem_upsert.2 (.inr ⟨mem, other⟩), rfl⟩

/-- The weight of the row that was replaced, if there was one. -/
theorem total_upsert (w : α → Int) : (t.upsert a).total w = t.total w - ((t.find? (key a)).map w).getD 0 + w a := by
  have others : (t.filter fun b => key b ≠ key a).total w = t.total w - ((t.find? (key a)).map w).getD 0 := by
    rw [total_filter]
    cases found : t.find? (key a) with
    | none =>
      rw [Option.map_none, Option.getD_none, sub_zero]
      refine total_congr fun b mem => ?_
      simp [find?_eq_none.1 found b mem]
    | some b =>
      obtain ⟨mem, same⟩ := find?_eq_some.1 found
      rw [total_change (w := w) mem fun x _ differs => by simp [← same, differs]]
      simp [same]
      ring
  change ((t.rows.filter (fun b => key b ≠ key a) ++ [a]).map w).sum = _
  rw [map_append, sum_append, ← others]
  simp [total, filter]

end Upsert

end Relation

end Pagnet
