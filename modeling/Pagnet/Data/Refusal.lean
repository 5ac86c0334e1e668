import Mathlib.Tactic.Basic

/-!
# Fallible steps

The Go functions of this development return early with an error. Here such a
function is a computation in `Except ε`, and an early return is `refuse c e`:
stop with the error `e` when the condition `c` holds. A transaction that ends in
an error is rolled back, so the state of a refused step is the state before it.
-/

namespace Pagnet
open List

variable {ε α β : Type}

/-- The early return `if c { return e }`. -/
def refuse (c : Bool) (e : ε) : Except ε Unit :=
  if c then .error e else .ok ()

variable {c : Bool} {e bad : ε} {b : β} {f : α → Except ε β} {x : Except ε α} {as : List α}

@[simp] theorem refuse_eq_ok {u : Unit} : refuse c e = .ok u ↔ c = false := by
  cases c <;> simp [refuse]

@[simp] theorem refuse_eq_error {e' : ε} : refuse c e = .error e' ↔ c ∧ e = e' := by
  cases c <;> simp [refuse]

@[simp] theorem refuse_false (e : ε) : refuse false e = .ok () := rfl

@[simp] theorem refuse_true (e : ε) : refuse true e = .error e := rfl

/-- A condition that was not refused because it holds. -/
theorem not_eq_false_iff {b : Bool} : (!b) = false ↔ b := by
  cases b <;> simp

/-- A sequence of two steps succeeds when both do. -/
theorem bind_eq_ok : x >>= f = .ok b ↔ ∃ a, x = .ok a ∧ f a = .ok b := by
  cases x with
  | error | ok => simp [bind, Except.bind]

theorem of_bind : x >>= f = .ok b → ∃ a, x = .ok a ∧ f a = .ok b := bind_eq_ok.1

/-- A sequence of two steps fails where one of them does. -/
theorem bind_eq_error : x >>= f = .error e ↔ x = .error e ∨ ∃ a, x = .ok a ∧ f a = .error e := by
  cases x with
  | error e' => simp [bind, Except.bind]
  | ok a => simp [bind, Except.bind]

/-- A refusal in front of a computation that succeeded was not taken. -/
theorem refuse_bind_eq_ok {f : Unit → Except ε β} : refuse c e >>= f = .ok b ↔ c = false ∧ f () = .ok b := by
  cases c <;> simp [refuse, bind, Except.bind]

/-- A check in front of a computation. -/
theorem unit_bind_eq_ok {x : Except ε Unit} {f : Unit → Except ε β} : x >>= f = .ok b ↔ x = .ok () ∧ f () = .ok b := by
  cases x <;> simp [bind, Except.bind]

theorem of_refuse {f : Unit → Except ε β} : refuse c e >>= f = .ok b → c = false ∧ f () = .ok b :=
  refuse_bind_eq_ok.1

/-- What stands behind a refusal that was not taken. -/
theorem past_refuse {f : Unit → Except ε β} (h : refuse c e >>= f = .ok b) : f () = .ok b :=
  (of_refuse h).2

theorem toOption_eq_some {a : α} : x.toOption = some a ↔ x = .ok a := by
  cases x <;> simp [Except.toOption]

theorem exists_eq_ok (h : x.isOk) : ∃ a, x = .ok a := by
  cases x with
  | error e => cases h
  | ok a => exact ⟨a, rfl⟩

@[simp] theorem ok_bind (a : α) (f : α → Except ε β) : (Except.ok a >>= f) = f a := rfl

@[simp] theorem error_bind (e : ε) (f : α → Except ε β) : (Except.error e >>= f) = .error e := rfl

/-- The computation does not end in this error. -/
def Avoids (bad : ε) (x : Except ε α) : Prop := x ≠ .error bad

theorem Avoids.ok (a : α) : Avoids bad (.ok a) := nofun

theorem Avoids.error (other : e ≠ bad := by decide) : Avoids bad (.error e : Except ε α) := by
  rintro ⟨⟩
  exact other rfl

theorem Avoids.bind (first : Avoids bad x) (next : ∀ a, Avoids bad (f a)) : Avoids bad (x >>= f) := by
  intro h
  rcases bind_eq_error.1 h with failed | ⟨a, -, failed⟩
  · exact first failed
  · exact next a failed

theorem Avoids.refuse (other : e ≠ bad := by decide) : Avoids bad (Pagnet.refuse c e) := by
  intro h
  exact other (refuse_eq_error.1 h).2

theorem Avoids.refuse_bind {f : Unit → Except ε β} (next : Avoids bad (f ()))
    (other : e ≠ bad := by decide) : Avoids bad (Pagnet.refuse c e >>= f) :=
  (Avoids.refuse other).bind fun _ => next

/-- What every turn of a loop keeps, the loop keeps. -/
theorem foldlM_keeps {P : β → Prop} {f : β → α → Except ε β} (keeps : ∀ b a b', P b → f b a = .ok b' → P b')
    {b' : β} (start : P b) (h : as.foldlM f b = .ok b') : P b' := by
  induction as generalizing b with
  | nil =>
    cases h
    exact start
  | cons a as ih =>
    obtain ⟨next, turn, h⟩ := bind_eq_ok.1 h
    exact ih (keeps b a next start turn) h

/-- A loop that only checks succeeds when every turn does. -/
theorem foldlM_unit_eq_ok {f : α → Except ε Unit} :
    as.foldlM (fun _ a => f a) () = .ok () ↔ ∀ a ∈ as, f a = .ok () := by
  induction as with
  | nil => simp [pure, Except.pure]
  | cons a as ih =>
    rw [foldlM_cons, bind_eq_ok, forall_mem_cons, ← ih]
    exact ⟨fun ⟨_, first, rest⟩ => ⟨first, rest⟩, fun ⟨first, rest⟩ => ⟨(), first, rest⟩⟩

/-- A loop whose every turn succeeds succeeds. -/
theorem forM_eq_ok {f : α → Except ε Unit} (each : ∀ a ∈ as, f a = .ok ()) : as.forM f = .ok () := by
  induction as with
  | nil => rfl
  | cons a as ih =>
    show (f a >>= fun _ => as.forM f) = .ok ()
    rw [each a mem_cons_self, ok_bind]
    exact ih fun b mem => each b (mem_cons_of_mem _ mem)

/-- Every turn of a loop has this value. -/
theorem mapM_eq_ok {ε α β : Type} {f : α → Except ε β} {g : α → β} {as : List α} (each : ∀ a ∈ as, f a = .ok (g a)) :
    as.mapM f = .ok (as.map g) := by
  induction as with
  | nil => rfl
  | cons a as ih =>
    rw [mapM_cons, each a mem_cons_self, ih fun b mem => each b (mem_cons_of_mem _ mem)]
    rfl

/-- A loop that collects succeeds when every turn does. -/
theorem mapM_succeeds (each : ∀ a ∈ as, ∃ b, f a = .ok b) : ∃ bs, as.mapM f = .ok bs := by
  induction as with
  | nil => exact ⟨[], rfl⟩
  | cons a as ih =>
    obtain ⟨b, first⟩ := each a mem_cons_self
    obtain ⟨bs, rest⟩ := ih fun x mem => each x (mem_cons_of_mem _ mem)
    rw [mapM_cons, first, rest]
    exact ⟨b :: bs, rfl⟩

/-- A loop that collects has the result of every turn, and nothing else. -/
theorem mapM_ok_mem {bs : List β} (h : as.mapM f = .ok bs) :
    (∀ b ∈ bs, ∃ a ∈ as, f a = .ok b) ∧ ∀ a ∈ as, ∃ b ∈ bs, f a = .ok b := by
  induction as generalizing bs with
  | nil =>
    cases h
    simp
  | cons a as ih =>
    rw [mapM_cons] at h
    obtain ⟨b, first, h⟩ := bind_eq_ok.1 h
    obtain ⟨rest, later, h⟩ := bind_eq_ok.1 h
    cases h
    obtain ⟨sources, results⟩ := ih later
    constructor
    · intro x mem
      rcases mem_cons.1 mem with rfl | mem
      · exact ⟨a, mem_cons_self, first⟩
      · obtain ⟨y, inside, gives⟩ := sources x mem
        exact ⟨y, mem_cons_of_mem _ inside, gives⟩
    · intro x mem
      rcases mem_cons.1 mem with rfl | mem
      · exact ⟨b, mem_cons_self, first⟩
      · obtain ⟨y, inside, gives⟩ := results x mem
        exact ⟨y, mem_cons_of_mem _ inside, gives⟩

end Pagnet
