import Mathlib.Data.List.Basic
import Mathlib.Tactic.Linarith

/-!
# Runs of a state machine

A machine takes an input and answers with an output. A run records every step
it made, with the state before and after it, so that a statement may compare any
two points of the run.
-/

namespace Pagnet
open List

variable {σ ι ω : Type}

/-- One step of a run. -/
structure Event (σ ι ω : Type) where
  before : σ
  input : ι
  output : ω
  after : σ

variable (step : σ → ι → σ × ω)

/-- The event of one step from `s`. -/
def Event.of (s : σ) (input : ι) : Event σ ι ω :=
  ⟨s, input, (step s input).2, (step s input).1⟩

@[simp] theorem Event.of_input (s : σ) (input : ι) : (Event.of step s input).input = input := rfl

@[simp] theorem Event.of_output (s : σ) (input : ι) : (Event.of step s input).output = (step s input).2 := rfl

@[simp] theorem Event.of_after (s : σ) (input : ι) : (Event.of step s input).after = (step s input).1 := rfl

/-- The runs from `init`: the events in their order, and the state reached. -/
inductive Run (step : σ → ι → σ × ω) (init : σ) : List (Event σ ι ω) → σ → Prop where
  | start : Run step init [] init
  | next {trace : List (Event σ ι ω)} {s : σ} (run : Run step init trace s) (input : ι) :
      Run step init (trace ++ [Event.of step s input]) (step s input).1

variable {step : σ → ι → σ × ω} {init : σ}

/-- The events that a list of inputs causes. -/
def traceOf (step : σ → ι → σ × ω) : σ → List ι → List (Event σ ι ω)
  | _, [] => []
  | s, input :: inputs => Event.of step s input :: traceOf step (step s input).1 inputs

/-- The state after a list of inputs. -/
def finalState (step : σ → ι → σ × ω) : σ → List ι → σ
  | s, [] => s
  | s, input :: inputs => finalState step (step s input).1 inputs

theorem finalState_append (step : σ → ι → σ × ω) (s : σ) (first second : List ι) :
    finalState step s (first ++ second) = finalState step (finalState step s first) second := by
  induction first generalizing s with
  | nil => rfl
  | cons input first ih => exact ih (step s input).1

/-- The event of any input of a list. -/
theorem mem_traceOf (step : σ → ι → σ × ω) (s : σ) (first : List ι) (input : ι) (second : List ι) :
    Event.of step (finalState step s first) input ∈ traceOf step s (first ++ input :: second) := by
  induction first generalizing s with
  | nil => exact mem_cons_self
  | cons other first ih => exact mem_cons_of_mem _ (ih (step s other).1)

variable {s : σ} {trace back : List (Event σ ι ω)} {e : Event σ ι ω}

/-- A run goes on where another one ended. -/
theorem Run.append {trace' : List (Event σ ι ω)} {middle : σ} (first : Run step init trace middle)
    (second : Run step middle trace' s) : Run step init (trace ++ trace') s := by
  induction second with
  | start => rwa [append_nil]
  | next run input ih =>
    rw [← append_assoc]
    exact ih.next input

/-- A run goes on with any list of inputs. -/
theorem Run.inputs (run : Run step init trace s) (inputs : List ι) :
    Run step init (trace ++ traceOf step s inputs) (finalState step s inputs) := by
  induction inputs generalizing trace s with
  | nil => simpa [traceOf, finalState] using run
  | cons input inputs ih => simpa [traceOf, finalState] using ih (run.next input)

/-- What holds at the start and survives every step allowed by `G` holds at
the end of every run whose steps were allowed. -/
theorem Run.guarded {P : σ → Prop} {G : σ → ι → Prop} (start : P init)
    (keeps : ∀ s input, P s → G s input → P (step s input).1) {trace : List (Event σ ι ω)} {s : σ}
    (run : Run step init trace s) (allowed : ∀ e ∈ trace, G e.before e.input) : P s := by
  induction run with
  | start => exact start
  | @next trace s run input ih =>
    have earlier : P s := ih fun e mem => allowed e (mem_append_left _ mem)
    apply keeps s input earlier
    exact allowed (Event.of step s input) (by simp)

/-- What holds at the start and survives every step holds at the end of every run. -/
theorem Run.invariant {P : σ → Prop} (start : P init) (keeps : ∀ s input, P s → P (step s input).1)
    (run : Run step init trace s) : P s :=
  @Run.guarded σ ι ω step init P (fun _ _ => True) start (fun s input h _ => keeps s input h) trace s run
    fun _ _ => trivial

/-- A statement about the events so far and the state reached, kept by every step. -/
theorem Run.history {P : List (Event σ ι ω) → σ → Prop} (start : P [] init)
    (keeps : ∀ trace s input, P trace s → P (trace ++ [Event.of step s input]) (step s input).1)
    (run : Run step init trace s) : P trace s := by
  induction run with
  | start => exact start
  | next run input ih => exact keeps _ _ input ih

/-- Where an event stands in a run: what led to it, and what followed. -/
theorem Run.place {front : List (Event σ ι ω)} (run : Run step init (front ++ e :: back) s) :
    Run step init front e.before ∧ e = Event.of step e.before e.input ∧ Run step e.after back s := by
  generalize whole : front ++ e :: back = trace at run
  induction run generalizing back with
  | start => simp at whole
  | @next trace s run input ih =>
    rcases eq_nil_or_concat back with rfl | ⟨rest, last, rfl⟩
    · obtain ⟨rfl, is_last⟩ := append_inj' whole rfl
      cases is_last
      exact ⟨run, rfl, .start⟩
    · rw [concat_eq_append, ← cons_append, ← append_assoc] at whole
      obtain ⟨same, is_last⟩ := append_inj' whole rfl
      cases is_last
      obtain ⟨before, is_step, rest⟩ := ih same
      rw [concat_eq_append]
      exact ⟨before, is_step, rest.next input⟩

theorem Run.split (run : Run step init trace s) (mem : e ∈ trace) :
    ∃ front back, trace = front ++ e :: back ∧ Run step init front e.before ∧
      e = Event.of step e.before e.input ∧ Run step e.after back s := by
  obtain ⟨front, back, rfl⟩ := append_of_mem mem
  exact ⟨front, back, rfl, run.place⟩

/-- Every event of a run was a step from a state that a shorter run reached. -/
theorem Run.event (run : Run step init trace s)
    (mem : e ∈ trace) : (∃ earlier, Run step init earlier e.before) ∧ e = Event.of step e.before e.input := by
  obtain ⟨front, back, -, before, is_step, -⟩ := run.split mem
  exact ⟨⟨front, before⟩, is_step⟩

/-- A counter that never falls on the states `good` holds of and that an event's
number is new to: below the number before the event, at least it afterwards. -/
structure Counter (step : σ → ι → σ × ω) (good : σ → Prop) (high : σ → Int) (number : Event σ ι ω → Option Int) :
    Prop where
  rises : ∀ s input, good s → high s ≤ high (step s input).1
  fresh : ∀ s input n, good s → number (Event.of step s input) = some n → high s < n ∧ n ≤ high (step s input).1

/-- No number of a counter is given out twice in one run. -/
theorem Run.at_most_once {good : σ → Prop} {high : σ → Int} {number : Event σ ι ω → Option Int}
    (counter : Counter step good high number) (start : good init) (keeps : ∀ s input, good s → good (step s input).1)
    (run : Run step init trace s) (n : Int) :
    trace.countP (fun e => number e = some n) ≤ 1 ∧ (n > high s → trace.countP (fun e => number e = some n) = 0) := by
  induction run with
  | start => simp
  | @next trace s run input ih =>
    obtain ⟨once, above⟩ := ih
    have holds : good s := run.invariant start keeps
    have rises := counter.rises s input holds
    rw [countP_append, countP_singleton]
    by_cases given : number (Event.of step s input) = some n
    · obtain ⟨low, le⟩ := counter.fresh s input n holds given
      simp only [given, decide_true, if_true]
      constructor <;> omega
    · simp only [given, decide_false, Bool.false_eq_true, if_false]
      refine ⟨by omega, fun beyond => ?_⟩
      omega

end Pagnet
