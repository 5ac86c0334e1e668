import Pagnet.Data.Refusal

/-!
# Transactions

A call computes in a transaction what it would write and what it would answer.
The environment decides what becomes of the commit; a call whose commit failed
cannot tell whether it was made.
-/

namespace Pagnet

variable {σ ε α : Type}

/-- What happens to a commit: it is made, it fails, or it is made and the caller is told that it failed. -/
inductive Commit where
  | made
  | failed
  | ambiguous
  deriving DecidableEq, Repr

/-- What a transaction leads to: an answer alone, or a state to commit first. -/
inductive Change (σ α : Type) where
  | answer (a : α)
  | commit (s : σ) (a : α)

/-- What is to be committed, with its answer. -/
def committed : Except ε (Change σ α) → Option (σ × α)
  | .ok (.commit s a) => some (s, a)
  | _ => none

theorem committed_eq_some {r : Except ε (Change σ α)} {s : σ} {a : α} :
    committed r = some (s, a) ↔ r = .ok (.commit s a) := by
  rcases r with e | b | ⟨t, b⟩ <;> simp [committed]

/-- The end of a transaction on `s`; `lost` reports a failed commit. -/
def Commit.conclude (commit : Commit) (lost : ε) (s : σ) : Except ε (Change σ α) → σ × Except ε α
  | .error e => (s, .error e)
  | .ok (.answer a) => (s, .ok a)
  | .ok (.commit s' a) =>
    match commit with
    | .made => (s', .ok a)
    | .failed => (s, .error lost)
    | .ambiguous => (s', .error lost)

namespace Commit
variable {commit : Commit} {lost : ε} {s : σ} {result : Except ε (Change σ α)}

/-- A transaction leaves the state alone or writes the one it computed. -/
theorem conclude_state (commit : Commit) (lost : ε) (s : σ) (result : Except ε (Change σ α)) :
    (commit.conclude lost s result).1 = s ∨
    ∃ s' a, result = .ok (.commit s' a) ∧ (commit.conclude lost s result).1 = s' ∧
      ((commit.conclude lost s result).2 = .ok a ∨ (commit.conclude lost s result).2 = .error lost) := by
  match result with
  | .error e => exact .inl rfl
  | .ok (.answer a) => exact .inl rfl
  | .ok (.commit s' a) =>
    cases commit with
    | made => exact .inr ⟨s', a, rfl, rfl, .inl rfl⟩
    | failed => exact .inl rfl
    | ambiguous => exact .inr ⟨s', a, rfl, rfl, .inr rfl⟩

/-- A transaction that answers computed the answer, and wrote what goes with it. -/
theorem conclude_ok {a : α} (h : (commit.conclude lost s result).2 = .ok a) :
    result = .ok (.answer a) ∧ (commit.conclude lost s result).1 = s ∨
    ∃ s', result = .ok (.commit s' a) ∧ (commit.conclude lost s result).1 = s' := by
  match result with
  | .error e => cases h
  | .ok (.answer b) =>
    cases h
    exact .inl ⟨rfl, rfl⟩
  | .ok (.commit s' b) =>
    cases commit with
    | made =>
      cases h
      exact .inr ⟨s', rfl, rfl⟩
    | failed | ambiguous => cases h

end Commit

end Pagnet
