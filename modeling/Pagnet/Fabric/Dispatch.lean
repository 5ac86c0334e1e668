import Pagnet.Data.Run

/-!
# One dispatched invocation

`Dispatcher.Invoke` from its call of `WithDispatch` on. The admission may call the
callback from any goroutine and at any time; what a callback does under the gate is
cut where the adapter runs, since `WithDispatch` may return in the meantime.
-/

namespace Pagnet.Dispatch

/-- A stream of an adapter or of the admission, or the `admissionStream` around the adapter's. -/
inductive Stream
  | plain (id : Nat)
  | admission (upstream : Nat)
  deriving DecidableEq

/-- The plain stream that `Close` reaches. -/
def Stream.closes : Stream → Nat
  | .plain id => id
  | .admission upstream => upstream

/-- Who has the gate: nobody, or a callback that goes on to the adapter or waits for it. -/
inductive Gate
  | free
  | admitted
  | invoking
  deriving DecidableEq

/-- Where `Invoke` is. -/
inductive Main
  | dispatching
  /-- `WithDispatch` has returned -/
  | dispatched (stream : Option Stream) (err : Option String)
  | returned (result : Except String Stream)

structure State where
  main : Main := .dispatching
  gate : Gate := .free
  active : Bool := true
  called : Bool := false
  misused : Bool := false
  stepError : Option String := none
  /-- the adapter's stream in `produced` -/
  produced : Option Nat := none
  /-- how often `Adapter.Invoke` was called -/
  invocations : Nat := 0
  /-- the streams that the adapter returned -/
  opened : List Nat := []
  closed : List Nat := []

inductive Input
  /-- a callback gets the gate; whether its context ended, lost the request, or its deadline passed -/
  | enter (ended lost expired : Bool)
  /-- the callback calls the adapter -/
  | invoke
  | adapterReturns (upstream : Option Nat) (err : Option String)
  | adapterPanics
  | dispatchReturns (stream : Option Stream) (err : Option String)
  /-- `Invoke` gets the gate after `WithDispatch`, and returns -/
  | finish
  /-- somebody closes the stream that was produced -/
  | close

variable (s : State)

/-- The callback up to the adapter. -/
def State.enter (ended lost expired : Bool) : State :=
  if !s.active || s.called then { s with misused := true }
  else if ended then { s with called := true, stepError := some "Dispatch admission context ended" }
  else if lost then { s with called := true, stepError := some "Admission lost exact engine request capability" }
  else if expired then { s with called := true, stepError := some "Dispatch admission context ended" }
  else { s with called := true, gate := .admitted }

/-- The callback after the adapter. -/
def State.adapted (upstream : Option Nat) (err : Option String) : State :=
  let s := { s with gate := .free, opened := upstream.toList ++ s.opened }
  match upstream, err with
  | some upstream, none => { s with produced := some upstream }
  | some upstream, some err => { s with stepError := some err, closed := upstream :: s.closed }
  | none, some err => { s with stepError := some err }
  | none, none => { s with stepError := some "Endpoint returned no invocation stream" }

/-- `Invoke` returns an error and closes what it was given. -/
def State.refuse (stream : Option Stream) (err : String) : State :=
  { s with
    active := false
    closed := s.produced.toList ++ (stream.map Stream.closes).toList ++ s.closed
    main := .returned (.error err) }

/-- `Invoke` after `WithDispatch`. -/
def State.finish (stream : Option Stream) (err : Option String) : State :=
  let reused := if s.misused then some "Dispatch admission callback was reused" else none
  match err.or (s.stepError.or reused), stream with
  | some err, _ => s.refuse stream err
  | none, none => s.refuse none "Dispatch admission returned no exact endpoint result"
  | none, some result =>
    if !s.called || s.produced.map Stream.admission ≠ some result then
      s.refuse stream "Dispatch admission returned no exact endpoint result"
    else { s with active := false, main := .returned (.ok result) }

def step : Input → State × Unit
  | .enter ended lost expired => (if s.gate = .free then s.enter ended lost expired else s, ())
  | .invoke => (if s.gate = .admitted then { s with gate := .invoking, invocations := s.invocations + 1 } else s, ())
  | .adapterReturns upstream err => (if s.gate = .invoking then s.adapted upstream err else s, ())
  | .adapterPanics => (if s.gate = .invoking then { s with gate := .free } else s, ())
  | .dispatchReturns stream err =>
    match s.main with
    | .dispatching => ({ s with main := .dispatched stream err }, ())
    | _ => (s, ())
  | .finish =>
    match s.main, s.gate with
    | .dispatched stream err, .free => (s.finish stream err, ())
    | _, _ => (s, ())
  | .close => ({ s with closed := s.produced.toList ++ s.closed }, ())

/-- What holds between any two steps. -/
structure Sound : Prop where
  settled : ∀ r, s.main = .returned r → s.active = false
  inside : s.gate ≠ .free → s.called ∧ s.active
  uninvoked : s.called = false ∨ s.gate = .admitted → s.invocations = 0
  once : s.invocations ≤ 1
  unopened : s.called = false ∨ s.gate ≠ .free → s.opened = []
  produced : ∀ u, s.produced = some u → s.opened = [u]
  owned : ∀ u ∈ s.opened, u ∈ s.closed ∨ s.main = .returned (.ok (.admission u)) ∨ s.produced = some u ∧ s.active
  result : ∀ stream, s.main = .returned (.ok stream) → ∃ u, stream = .admission u ∧ s.opened = [u]

variable {s : State} {trace : List (Event State Input Unit)}

theorem Sound.enter (sound : Sound s) (free : s.gate = .free) (ended lost expired : Bool) :
    Sound (s.enter ended lost expired) := by
  unfold State.enter
  split
  · exact { sound with }
  rename_i usable
  obtain ⟨active, unused⟩ : s.active ∧ s.called = false := by simpa using usable
  have none_yet := sound.uninvoked (.inl unused)
  have unopened := sound.unopened (.inl unused)
  have failed (text : String) : Sound { s with called := true, stepError := some text } :=
    { sound with
      inside := fun held => absurd free held
      uninvoked := fun _ => none_yet
      unopened := fun _ => unopened }
  split_ifs
  · exact failed _
  · exact failed _
  · exact failed _
  · exact { sound with
      inside := fun _ => ⟨rfl, active⟩
      uninvoked := fun _ => none_yet
      unopened := fun _ => unopened }

/-- A callback leaves the gate. -/
theorem Sound.leaves (sound : Sound s) (held : s.gate ≠ .free) : Sound { s with gate := .free } := by
  have called : s.called ≠ false := by simp [(sound.inside held).1]
  exact { sound with
    inside := fun held => absurd rfl held
    uninvoked := fun h => h.elim (absurd · called) nofun
    unopened := fun h => h.elim (absurd · called) (absurd rfl ·) }

theorem Sound.adapted (sound : Sound s) (held : s.gate ≠ .free) (upstream : Option Nat) (err : Option String) :
    Sound (s.adapted upstream err) := by
  have left := sound.leaves held
  obtain ⟨called, active⟩ := sound.inside held
  have running : ∀ r, s.main ≠ .returned r := fun r is => by simpa [active] using sound.settled r is
  have unopened : s.opened = [] := sound.unopened (.inr held)
  have unproduced : s.produced = none := Option.eq_none_iff_forall_ne_some.2 fun u is => by
    simpa [unopened] using sound.produced u is
  unfold State.adapted
  cases upstream with
  | none => cases err <;> exact { left with }
  | some u =>
    cases err with
    | none =>
      exact { left with
        unopened := fun h => h.elim (by simp [called]) (absurd rfl ·)
        produced := fun u is => by simpa [unopened] using is
        owned := fun u mem => .inr (.inr (by simpa [unopened, active, eq_comm] using mem))
        result := fun stream is => absurd is (running _) }
    | some err =>
      exact { left with
        unopened := fun h => h.elim (by simp [called]) (absurd rfl ·)
        produced := fun u is => by simp [unproduced] at is
        owned := fun u mem => by simp_all
        result := fun stream is => absurd is (running _) }

theorem Sound.refuse (sound : Sound s) (free : s.gate = .free) (running : ∀ r, s.main ≠ .returned r)
    (stream : Option Stream) (err : String) : Sound (s.refuse stream err) :=
  { sound with
    settled := fun _ _ => rfl
    inside := fun held => absurd free held
    owned := fun u mem => by
      rcases sound.owned u mem with closed | is | ⟨held, -⟩
      · exact .inl (List.mem_append_right _ closed)
      · exact absurd is (running _)
      · exact .inl (by simp [State.refuse, held])
    result := nofun }

theorem Sound.finish (sound : Sound s) (free : s.gate = .free) (running : ∀ r, s.main ≠ .returned r)
    (stream : Option Stream) (err : Option String) : Sound (s.finish stream err) := by
  unfold State.finish
  dsimp only
  split
  · exact sound.refuse free running _ _
  · exact sound.refuse free running _ _
  next result _ =>
    split
    · exact sound.refuse free running _ _
    next same =>
      obtain ⟨-, is⟩ : s.called ∧ s.produced.map Stream.admission = some result := by simpa using same
      obtain ⟨u, held, rfl⟩ := Option.map_eq_some_iff.1 is
      have opened := sound.produced u held
      exact { sound with
        settled := fun _ _ => rfl
        inside := fun held => absurd free held
        owned := fun v mem => by simp_all
        result := fun stream is => ⟨u, by simpa [eq_comm] using is, opened⟩ }

theorem Sound.step (sound : Sound s) (input : Input) : Sound (step s input).1 := by
  cases input with
  | enter ended lost expired =>
    dsimp only [Dispatch.step]
    split
    · exact sound.enter ‹_› ended lost expired
    · exact sound
  | invoke =>
    dsimp only [Dispatch.step]
    split
    next admitted =>
      have none_yet := sound.uninvoked (.inr admitted)
      have held : s.gate ≠ .free := by simp [admitted]
      exact { sound with
        inside := fun _ => sound.inside held
        uninvoked := fun h => by simp [(sound.inside held).1] at h
        once := by simp [none_yet]
        unopened := fun _ => sound.unopened (.inr held) }
    · exact sound
  | adapterReturns upstream err =>
    dsimp only [Dispatch.step]
    split
    · exact sound.adapted (by simp [*]) upstream err
    · exact sound
  | adapterPanics =>
    dsimp only [Dispatch.step]
    split
    · exact sound.leaves (by simp [*])
    · exact sound
  | dispatchReturns stream err =>
    dsimp only [Dispatch.step]
    split
    next is =>
      exact { sound with
        settled := nofun
        owned := fun u mem => (sound.owned u mem).imp_right (Or.imp_left (by simp [is]))
        result := nofun }
    · exact sound
  | finish =>
    dsimp only [Dispatch.step]
    split
    · exact sound.finish ‹_› (by simp [*]) _ _
    · exact sound
  | close => exact { sound with owned := fun u mem => (sound.owned u mem).imp_left (List.mem_append_right _) }

theorem sound_of_run (run : Run step {} trace s) : Sound s :=
  run.invariant ⟨by simp, by simp, fun _ => rfl, Nat.zero_le 1, fun _ => rfl, by simp, by simp, by simp⟩
    fun _ input sound => sound.step input

/-- Only a callback that has the gate calls the adapter. -/
theorem admitted_of_invoked {input : Input} (more : s.invocations < (step s input).1.invocations) :
    s.gate = .admitted := by
  revert more
  cases input with
  | invoke =>
    dsimp only [step]
    split
    · exact fun _ => ‹_›
    · simp
  | enter ended lost expired =>
    dsimp only [step, State.enter]
    split_ifs <;> simp
  | adapterReturns upstream err =>
    dsimp only [step]
    split
    · cases upstream <;> cases err <;> simp [State.adapted]
    · simp
  | finish =>
    dsimp only [step, State.finish, State.refuse]
    repeat' split
    all_goals simp
  | adapterPanics | dispatchReturns | close =>
    dsimp only [step]
    repeat' split
    all_goals simp

/-- An adapter is called at most once and only before `Invoke` has ended the dispatch; when `Invoke` has
returned, the stream of the adapter was closed or is the one returned, and success returns only that one. -/
theorem invoke_owns_stream (run : Run step {} trace s) : s.invocations ≤ 1 ∧
    (∀ e ∈ trace, e.before.invocations < e.after.invocations → e.before.active = true) ∧
    (∀ r, s.main = .returned r → ∀ u ∈ s.opened, u ∈ s.closed ∨ r = .ok (.admission u)) ∧
    ∀ stream, s.main = .returned (.ok stream) → ∃ u, stream = .admission u ∧ s.opened = [u] := by
  have sound := sound_of_run run
  refine ⟨sound.once, fun e mem more => ?_, fun r is u mem => ?_, sound.result⟩
  · obtain ⟨⟨earlier, before⟩, is_step⟩ := run.event mem
    rw [is_step] at more
    have admitted : e.before.gate = .admitted := admitted_of_invoked more
    exact ((sound_of_run before).inside (by rw [admitted]; nofun)).2
  · rcases sound.owned u mem with closed | same | ⟨-, active⟩
    · exact .inl closed
    · exact .inr (by simpa [is] using same)
    · simp [sound.settled r is] at active

/-- A dispatch that succeeds. -/
def dispatched : List Input :=
  [.enter false false false, .invoke, .adapterReturns (some 7) none, .dispatchReturns (some (.admission 7)) none, .finish]

theorem invoke_owns_stream_dispatched : (finalState step {} dispatched).main = .returned (.ok (.admission 7)) ∧
    ∃ u, Stream.admission 7 = .admission u ∧ (finalState step {} dispatched).opened = [u] :=
  ⟨rfl, (invoke_owns_stream (Run.start.inputs dispatched)).2.2.2 _ rfl⟩

/-- `WithDispatch` returns while a callback is about to call the adapter. -/
theorem invoked_after_dispatch : ∃ trace s, Run step {} trace s ∧
    ∃ e ∈ trace, e.before.invocations < e.after.invocations ∧ e.before.main ≠ .dispatching := by
  refine ⟨_, _, Run.start.inputs [.enter false false false, .dispatchReturns none none, .invoke], ?_⟩
  exact ⟨_, mem_traceOf step _ [.enter false false false, .dispatchReturns none none] .invoke [], by decide, nofun⟩

end Pagnet.Dispatch
