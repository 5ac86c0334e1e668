import Mathlib.Data.List.Nodup
import Mathlib.Data.List.Perm.Basic
import Mathlib.Tactic.Linarith

/-!
# Bounded memories of the most recent keys

A set that forgets its least recently used key when it is full, and a map that
also bounds the total size of its values.
-/

namespace Pagnet
open List

/-- A set of at most `cap` keys; the front of `order` is the most recent one. -/
structure LruSet (α : Type) where
  cap : Nat
  order : List α
  nodup : order.Nodup
  bounded : order.length ≤ cap

namespace LruSet

variable {α : Type} [DecidableEq α]

/-- The empty set of capacity `cap`. -/
def empty (cap : Nat) : LruSet α := ⟨cap, [], nodup_nil, Nat.zero_le _⟩

variable (s : LruSet α)

/-- Whether a key is remembered; its recency does not change. -/
def contains (key : α) : Bool := decide (key ∈ s.order)

/-- The keys in their new order: the added one in front, the oldest dropped from a full set. -/
def pushed (key : α) : List α :=
  if key ∈ s.order then key :: s.order.erase key
  else if s.cap < (key :: s.order).length then (key :: s.order).dropLast else key :: s.order

theorem pushed_nodup (key : α) : (s.pushed key).Nodup := by
  unfold pushed
  split
  · exact nodup_cons.2 ⟨s.nodup.not_mem_erase, s.nodup.erase key⟩
  next fresh =>
    have whole : (key :: s.order).Nodup := nodup_cons.2 ⟨fresh, s.nodup⟩
    split
    · exact whole.sublist (dropLast_sublist _)
    · exact whole

theorem pushed_bounded (key : α) : (s.pushed key).length ≤ s.cap := by
  have bounded := s.bounded
  unfold pushed
  split
  next present =>
    have positive := length_pos_of_mem present
    rw [length_cons, length_erase_of_mem present]
    omega
  · split
    · rw [length_dropLast, length_cons]
      omega
    · omega

/-- Add a key, or make it the most recent one. -/
def add (key : α) : LruSet α := ⟨s.cap, s.pushed key, s.pushed_nodup key, s.pushed_bounded key⟩

/-- A new key stands in front of what is left of the others. -/
theorem add_prefix {s : LruSet α} {key : α} (fresh : key ∉ s.order) : (s.add key).order <+: key :: s.order := by
  change s.pushed key <+: _
  unfold pushed
  rw [if_neg fresh]
  split
  · exact List.dropLast_prefix _
  · exact prefix_rfl

theorem mem_of_mem_add {s : LruSet α} {key other : α} (mem : other ∈ (s.add key).order) :
    other = key ∨ other ∈ s.order := by
  change other ∈ s.pushed key at mem
  unfold pushed at mem
  split at mem
  · exact (mem_cons.1 mem).imp_right mem_of_mem_erase
  · split at mem
    · exact mem_cons.1 (dropLast_subset _ mem)
    · exact mem_cons.1 mem

end LruSet

/-- A value kept under its key, with the size it counts for. -/
structure LruEntry (κ ν : Type) where
  key : κ
  value : ν
  size : Int

/-- A map of at most `cap` entries and `maxBytes` bytes; the front of `entries` is the oldest one. -/
structure LruMap (κ ν : Type) where
  cap : Nat
  maxBytes : Int
  entries : List (LruEntry κ ν)

namespace LruMap

variable {κ ν : Type}

variable (cap : Nat) (maxBytes : Int)

/-- The empty map. -/
def empty : LruMap κ ν := ⟨cap, maxBytes, []⟩

/-- The bytes that a list of entries takes. -/
def bytes (entries : List (LruEntry κ ν)) : Int := (entries.map LruEntry.size).sum

/-- Drop the oldest entries until both bounds hold. -/
def trim (cap : Nat) (maxBytes : Int) : List (LruEntry κ ν) → List (LruEntry κ ν)
  | [] => []
  | e :: rest => if cap < (e :: rest).length ∨ maxBytes < bytes (e :: rest) then trim cap maxBytes rest else e :: rest

theorem trim_suffix (entries : List (LruEntry κ ν)) : trim cap maxBytes entries <:+ entries := by
  induction entries with
  | nil => exact suffix_refl _
  | cons e rest ih =>
    unfold trim
    split
    · exact ih.trans (suffix_cons e rest)
    · exact suffix_refl _

theorem length_trim (entries : List (LruEntry κ ν)) : (trim cap maxBytes entries).length ≤ cap := by
  induction entries with
  | nil => exact Nat.zero_le _
  | cons e rest ih =>
    unfold trim
    split
    · exact ih
    · omega

variable [DecidableEq κ]

variable (m : LruMap κ ν)

/-- The entries with the value of a key as the most recent one, before any is dropped. -/
def grown (key : κ) (value : ν) (size : Int) : List (LruEntry κ ν) :=
  m.entries.filter (fun e => e.key ≠ key) ++ [⟨key, value, size⟩]

/-- Set the value of a key, as the most recent entry. -/
def set (key : κ) (value : ν) (size : Int) : LruMap κ ν :=
  { m with entries := trim m.cap m.maxBytes (m.grown key value size) }

/-- Make a key the most recent one. -/
def touch (key : κ) : LruMap κ ν :=
  { m with entries := m.entries.filter (fun e => e.key ≠ key) ++ m.entries.filter fun e => e.key = key }

/-- The value of a key, without its recency. -/
def find? (key : κ) : Option ν := (m.entries.find? fun e => e.key = key).map LruEntry.value

/-- The value of a key, which becomes the most recent one. -/
def get (key : κ) : Option ν × LruMap κ ν :=
  match m.find? key with
  | none => (none, m)
  | some value => (some value, m.touch key)

variable {e : LruEntry κ ν} {key : κ} {m : LruMap κ ν} {value : ν}

theorem find?_eq_none : m.find? key = none ↔ ∀ e ∈ m.entries, e.key ≠ key := by
  simp [find?]

theorem mem_set {size : Int} (mem : e ∈ (m.set key value size).entries) : e = ⟨key, value, size⟩ ∨ e ∈ m.entries := by
  have kept := (trim_suffix _ _ _).mem mem
  rcases mem_append.1 kept with old | new
  · exact .inr (List.mem_filter.1 old).1
  · exact .inl (mem_singleton.1 new)

/-- The keys that are left end with the new one. -/
theorem set_suffix {size : Int} (fresh : m.find? key = none) :
    (m.set key value size).entries.map LruEntry.key <:+ m.entries.map LruEntry.key ++ [key] := by
  have all : m.entries.filter (fun e => e.key ≠ key) = m.entries :=
    filter_eq_self.2 fun e mem => decide_eq_true (find?_eq_none.1 fresh e mem)
  have grown : (m.grown key value size).map LruEntry.key = m.entries.map LruEntry.key ++ [key] := by
    rw [LruMap.grown, all, map_append]
    rfl
  exact grown ▸ (trim_suffix _ _ _).map _

theorem mem_touch : e ∈ (m.touch key).entries ↔ e ∈ m.entries := by
  simp only [touch, mem_append, List.mem_filter, decide_eq_true_eq]
  tauto

theorem mem_get : e ∈ (m.get key).2.entries ↔ e ∈ m.entries := by
  unfold get
  split
  · exact Iff.rfl
  · exact mem_touch

theorem mem_of_find? (found : m.find? key = some value) :
    ∃ size, (⟨key, value, size⟩ : LruEntry κ ν) ∈ m.entries := by
  obtain ⟨e, first, rfl⟩ := Option.map_eq_some_iff.1 found
  have same : e.key = key := by simpa using find?_some first
  subst same
  exact ⟨e.size, mem_of_find?_eq_some first⟩

end LruMap

end Pagnet
