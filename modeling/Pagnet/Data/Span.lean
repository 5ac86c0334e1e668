import Mathlib.Data.List.Basic
import Mathlib.Data.List.Count

/-!
# Spans in a log

A log holds entries of many keys. The entries of one key form a span: one entry
opens it, at most one closes it, and every other entry of the key stands between
them. Logs are kept newest entry first.
-/

namespace Pagnet
open List

variable {κ : Type}

/-- What an entry does to the span of its key. -/
inductive Mark
  | opens
  | within
  | closes
  deriving DecidableEq, Repr

/-- The span of `k` is open in `log`. -/
structure IsOpen (log : List (κ × Mark)) (k : κ) : Prop where
  opened : (k, .opens) ∈ log
  not_closed : (k, .closes) ∉ log

/-- The entries of every key form a span. -/
structure Spanned [DecidableEq κ] (log : List (κ × Mark)) : Prop where
  opens_once : ∀ k, log.count (k, .opens) ≤ 1
  closes_once : ∀ k, log.count (k, .closes) ≤ 1
  opened_before : ∀ later k m earlier, log = later ++ (k, m) :: earlier → m ≠ .opens → (k, .opens) ∈ earlier
  nothing_after : ∀ later k earlier, log = later ++ (k, .closes) :: earlier → ∀ m, (k, m) ∉ later

namespace Spanned

variable [DecidableEq κ] {log : List (κ × Mark)} {k : κ}

theorem nil : Spanned ([] : List (κ × Mark)) where
  opens_once _ := Nat.zero_le _
  closes_once _ := Nat.zero_le _
  opened_before later k m earlier is := absurd is.symm (by simp)
  nothing_after later k earlier is := absurd is.symm (by simp)

/-- An entry whose key has a span to stand in, and no closed one. -/
theorem push (spanned : Spanned log) {m : Mark} (opens : m = .opens → (k, .opens) ∉ log)
    (open_span : m ≠ .opens → (k, .opens) ∈ log) (not_closed : (k, .closes) ∉ log) : Spanned ((k, m) :: log) where
  opens_once k' := by
    rw [count_cons]
    by_cases same : (k, m) = (k', .opens)
    · cases same
      rw [count_eq_zero.2 (opens rfl)]
      simp
    · simpa [same] using spanned.opens_once k'
  closes_once k' := by
    rw [count_cons]
    by_cases same : (k, m) = (k', .closes)
    · cases same
      rw [count_eq_zero.2 not_closed]
      simp
    · simpa [same] using spanned.closes_once k'
  opened_before later k' m' earlier is not_opens := by
    cases later with
    | nil =>
      obtain ⟨head, rfl⟩ := List.cons.inj is
      cases head
      exact open_span not_opens
    | cons e later =>
      obtain ⟨-, rest⟩ := List.cons.inj is
      exact spanned.opened_before later k' m' earlier rest not_opens
  nothing_after later k' earlier is m' := by
    cases later with
    | nil => exact not_mem_nil
    | cons e later =>
      obtain ⟨rfl, rest⟩ := List.cons.inj is
      intro mem
      rcases mem_cons.1 mem with same | mem
      · cases same
        exact not_closed (rest ▸ mem_append_right _ mem_cons_self)
      · exact spanned.nothing_after later k' earlier rest m' mem

/-- A key without entries opens its span. -/
theorem opens (spanned : Spanned log) (fresh : ∀ m, (k, m) ∉ log) : Spanned ((k, .opens) :: log) :=
  spanned.push (fun _ => fresh _) (fun other => absurd rfl other) (fresh _)

/-- An entry within an open span. -/
theorem within (spanned : Spanned log) (is_open : IsOpen log k) : Spanned ((k, .within) :: log) :=
  spanned.push nofun (fun _ => is_open.opened) is_open.not_closed

/-- The closing entry of an open span. -/
theorem closes (spanned : Spanned log) (is_open : IsOpen log k) : Spanned ((k, .closes) :: log) :=
  spanned.push nofun (fun _ => is_open.opened) is_open.not_closed

end Spanned

namespace IsOpen

variable {log : List (κ × Mark)} {k k' : κ} {m : Mark}

/-- An entry that does not close the span leaves it open. -/
theorem push (is_open : IsOpen log k) (keeps : (k', m) ≠ (k, .closes)) : IsOpen ((k', m) :: log) k where
  opened := mem_cons_of_mem _ is_open.opened
  not_closed mem := (mem_cons.1 mem).elim (fun same => keeps same.symm) is_open.not_closed

/-- The entry that opens a span. -/
theorem of_opens (fresh : ∀ m, (k, m) ∉ log) : IsOpen ((k, .opens) :: log) k where
  opened := mem_cons_self
  not_closed mem := (mem_cons.1 mem).elim nofun (fresh _)

end IsOpen

end Pagnet
