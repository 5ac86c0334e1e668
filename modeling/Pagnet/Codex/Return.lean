import Pagnet.Codex.Coherent

/-!
# A Codex `Submit` returns after the process has exited

The reader reaches its end by its own sections, as long as the consumer of the events
receives, and `Submit` then finds its request answered and its `turnDone` closed wherever
it waits for them.
-/

namespace Pagnet.Codex

open Session List

/-- The pending requests are failed. -/
def Reader.swept : Reader → Bool
  | .signalling | .signalDraining | .closingStdin | .closing | .done => true
  | _ => false

/-- The turn in flight is signalled. -/
def Reader.signalled : Reader → Bool
  | .closingStdin | .closing | .done => true
  | _ => false

/-- `Submit` waits for its request or has its answer. -/
def Pc.waits : Pc → Bool
  | .waiting | .accepting | .awaiting => true
  | _ => false

/-- The waiter was registered. -/
def Pc.expects : Pc → Bool
  | .writing | .waiting => true
  | _ => false

/-- What a waiting `Submit` finds. -/
structure Served (e : Endpoint) : Prop where
  answered : e.pc.expects → e.pending = false → e.waiter.isSome
  swept : e.reader.swept → e.pc = .waiting → e.pending = false
  signalled : e.reader.signalled → e.pc.waits → e.turnDone = none

section

variable {e e' : Endpoint}

namespace Served

/-- `Submit` goes to a place where it does not wait. -/
theorem leaves (expects : e'.pc.expects = false) (waits : e'.pc.waits = false) : Served e' where
  answered is := by rw [expects] at is; cases is
  swept _ is := by rw [is] at waits; cases waits
  signalled _ is := by rw [waits] at is; cases is

variable (k : Served e)
include k

/-- `Submit` goes to a place where it waits for nothing new. -/
theorem goes (pending : e'.pending = e.pending) (waiter : e'.waiter = e.waiter) (reader : e'.reader = e.reader)
    (done : e'.pc.waits → e'.turnDone = e.turnDone) (expects : e'.pc.expects → e.pc.expects)
    (waiting : e'.pc = .waiting → e.pc = .waiting) (waits : e'.pc.waits → e.pc.waits) : Served e' where
  answered is none := by rw [waiter]; exact k.answered (expects is) (pending ▸ none)
  swept is at_waiting := by rw [pending]; exact k.swept (reader ▸ is) (waiting at_waiting)
  signalled is at_wait := by rw [done at_wait]; exact k.signalled (reader ▸ is) (waits at_wait)

theorem advance : Served e.advance := by
  unfold Endpoint.advance
  cases pc : e.pc with
  | lookup | probing | judging => exact leaves (by dsimp only; split <;> rfl) (by dsimp only; split <;> rfl)
  | registering =>
    dsimp only
    split <;> exact leaves rfl rfl
  | requesting =>
    exact {
      answered := fun _ is => nomatch (is : true = false)
      swept := nofun
      signalled := nofun }
  | accepting =>
    exact k.goes rfl rfl rfl (fun _ => rfl) nofun nofun fun _ => by rw [pc]; rfl
  | clearing why =>
    dsimp only
    split
    · exact leaves (by cases why <;> rfl) (by cases why <;> rfl)
    · exact leaves rfl rfl
  | draining why =>
    dsimp only
    split
    · exact leaves (by cases why <;> rfl) (by cases why <;> rfl)
    · exact k
  | beginning | dropping | settled | withdrawing | deciding => exact leaves rfl rfl
  | idle | writing | waiting | awaiting | rejecting | returned => exact k

/-- A request that is written finds the process at work. -/
theorem write (c : Coherent e) (ok : Bool) : Served (e.write ok) := by
  unfold Endpoint.write
  cases pc : e.pc with
  | writing =>
    dsimp only
    split
    next written =>
      simp only [Bool.and_eq_true] at written
      have alive := written.1.2
      have working : e.reader.reaped = false := by
        cases reaped : e.reader.reaped with
        | false => rfl
        | true =>
          rw [(c.reaped reaped).1] at alive
          cases alive
      have not_swept : e.reader.swept = false ∧ e.reader.signalled = false := by
        cases reader : e.reader with
        | signalling | signalDraining | closingStdin | closing | done => rw [reader] at working; cases working
        | _ => exact ⟨rfl, rfl⟩
      exact {
        answered := fun _ => k.answered (by rw [pc]; rfl)
        swept := fun is => absurd (not_swept.1.symm.trans is) Bool.false_ne_true
        signalled := fun is => absurd (not_swept.2.symm.trans is) Bool.false_ne_true }
    · exact leaves rfl rfl
  | _ => exact k

theorem take : Served e.take := by
  unfold Endpoint.take
  split
  next pc _ => exact k.goes rfl rfl rfl (fun _ => rfl) nofun nofun fun _ => by rw [pc]; rfl
  · exact leaves rfl rfl
  · split
    · exact leaves rfl rfl
    · exact k
  · exact k

theorem giveUp : Served e.giveUp := by
  unfold Endpoint.giveUp
  split
  · exact leaves rfl rfl
  · exact leaves rfl rfl
  · exact k

/-- The reader does something else than to answer the request or to signal the turn. -/
theorem reads (done : e'.turnDone = e.turnDone ∨ e'.turnDone = none := by exact .inl rfl)
    (swept : e'.reader.swept → e.reader.swept := by nofun)
    (signalled : e'.reader.signalled → e.reader.signalled := by nofun) (pc : e'.pc = e.pc := by rfl)
    (pending : e'.pending = e.pending := by rfl) (waiter : e'.waiter = e.waiter := by rfl) : Served e' where
  answered := by rw [pc, pending, waiter]; exact k.answered
  swept is := by rw [pc, pending]; exact k.swept (swept is)
  signalled is waits := by
    rcases done with done | done
    · rw [done]; exact k.signalled (signalled is) (pc ▸ waits)
    · exact done

theorem dispatch (provider : Provider) (m : Message) : Served (e.dispatch provider m) := by
  cases m with
  | response ok =>
    unfold Endpoint.dispatch
    dsimp only
    split
    · exact {
        answered := fun _ _ => by dsimp only; cases e.waiter <;> rfl
        swept := fun _ _ => rfl
        signalled := k.signalled }
    · exact k
  | notification | serverRequest => exact k.reads
  | other => exact k

theorem read : Served e.read := by
  unfold Endpoint.read
  cases reader : e.reader with
  | ready | sending | done => exact k
  | routing events =>
    cases events with
    | nil => exact k.reads
    | cons ev rest =>
      dsimp only
      unfold Endpoint.capture
      split
      · exact k.reads
      · split <;> exact k.reads
  | releasing ch ev rest =>
    dsimp only
    split <;> exact k.reads
  | settling ch rest =>
    dsimp only
    unfold Endpoint.settle
    split
    · exact k.reads
    · split
      · exact k.reads (.inr rfl)
      · exact k.reads
  | settleDraining rest =>
    dsimp only
    split
    · exact k.reads (.inr rfl)
    · exact k
  | failing =>
    exact {
      answered := fun expects _ => by
        dsimp only
        split
        · cases e.waiter <;> rfl
        · exact k.answered expects (Bool.not_eq_true _ ▸ ‹_›)
      swept := fun _ _ => rfl
      signalled := nofun }
  | signalling =>
    have swept : e.reader.swept := by rw [reader]; rfl
    have same : e.cutOff.pc = e.pc ∧ e.cutOff.pending = e.pending ∧ e.cutOff.waiter = e.waiter ∧
        e.cutOff.turnDone = e.turnDone := by
      unfold Endpoint.cutOff
      split <;> exact ⟨rfl, rfl, rfl, rfl⟩
    obtain ⟨pc, pending, waiter, done⟩ := same
    dsimp only
    unfold Endpoint.signal
    split
    · exact {
        answered := fun is none => waiter ▸ k.answered (pc ▸ is) (pending ▸ none)
        swept := fun _ is => pending ▸ k.swept swept (pc ▸ is)
        signalled := fun _ _ => rfl }
    · exact k.reads (.inl done) (fun _ => swept) nofun pc pending waiter
  | signalDraining =>
    have swept : e.reader.swept := by rw [reader]; rfl
    dsimp only
    split
    · exact { answered := k.answered, swept := fun _ => k.swept swept, signalled := fun _ _ => rfl }
    · exact k
  | closingStdin | closing => exact k.reads (.inl rfl) (fun _ => by rw [reader]; rfl) fun _ => by rw [reader]; rfl
  | clearing | reaping => exact k.reads

theorem step (c : Coherent e) (provider : Provider) (a : Action) : Served (e.step provider a).1 := by
  cases a with
  | submit turnID =>
    show Served (e.submit turnID)
    unfold Endpoint.submit
    split
    · exact k
    · exact leaves rfl rfl
  | cancel | die => exact k.reads (.inl rfl) id id
  | advance => exact k.advance
  | write ok => exact k.write c ok
  | take => exact k.take
  | giveUp => exact k.giveUp
  | receive m =>
    show Served (e.receive provider m)
    unfold Endpoint.receive
    split
    · exact k.dispatch provider m
    · exact k
  | eof =>
    unfold Endpoint.step
    dsimp only
    split
    · exact k.reads
    · exact k
  | read => exact k.read
  | deliver =>
    show Served e.deliver
    unfold Endpoint.deliver
    split
    · exact k.reads
    · exact k
  | report =>
    show Served e.report
    unfold Endpoint.report
    split
    · exact leaves rfl rfl
    · exact k

end Served

end

/-- The next step of the reader of a process that has exited. -/
def Endpoint.drain (e : Endpoint) : Action :=
  match e.reader with
  | .ready => .eof
  | .sending .. => .deliver
  | _ => .read

/-- The next step of `Submit` at an endpoint whose process has exited. -/
def Endpoint.proceed (e : Endpoint) : Action :=
  match e.pc with
  | .writing => .write false
  | .waiting | .awaiting => .take
  | .rejecting => .report
  | _ => .advance

/-- The steps of `Submit` and of the reader themselves, and those of the consumer of their events. -/
def Action.isOwn : Action → Bool
  | .eof | .read | .write _ | .take | .advance | .deliver | .report => true
  | _ => false

/-- How many sections the reader still has before it is done. -/
def Reader.rank : Reader → Nat
  | .done => 0
  | .closing => 1
  | .closingStdin => 2
  | .signalDraining => 3
  | .signalling => 4
  | .failing => 5
  | .reaping => 6
  | .ready => 7
  | .routing events => 8 + 6 * events.length
  | .clearing rest => 9 + 6 * rest.length
  | .settleDraining rest => 10 + 6 * rest.length
  | .settling _ rest => 11 + 6 * rest.length
  | .releasing _ _ rest => 12 + 6 * rest.length
  | .sending _ _ rest => 13 + 6 * rest.length

/-- How many sections `Submit` still has before it returns, at most. -/
def Pc.rank : Pc → Nat
  | .idle | .returned _ => 0
  | .rejecting | .deciding => 1
  | .judging => 2
  | .draining _ => 3
  | .clearing _ => 4
  | .withdrawing _ => 5
  | .settled => 5
  | .dropping _ => 6
  | .awaiting => 6
  | .accepting => 7
  | .waiting => 8
  | .writing => 9
  | .requesting => 10
  | .beginning => 11
  | .registering => 12
  | .probing => 13
  | .lookup => 14

section

variable {e : Endpoint} (provider : Provider)

/-- The reader never waits. -/
theorem Coherent.drain_rank (c : Coherent e) (working : e.reader ≠ .done) :
    (e.step provider e.drain).1.reader.rank < e.reader.rank := by
  unfold Endpoint.drain
  split
  next ready =>
    show (if e.reader = .ready then { e with reader := .reaping } else e).reader.rank < _
    rw [if_pos ready, ready]
    exact Nat.lt_succ_self 6
  next reader =>
    show e.deliver.reader.rank < _
    simp only [Endpoint.deliver, reader, Reader.rank]
    omega
  next not_ready not_sending =>
    show e.read.reader.rank < _
    unfold Endpoint.read
    cases reader : e.reader with
    | ready => exact absurd reader not_ready
    | sending ch ev rest => exact absurd reader (not_sending ch ev rest)
    | done => exact absurd reader working
    | routing events =>
      cases events with
      | nil => exact Nat.lt_succ_self 7
      | cons ev rest =>
        dsimp only
        unfold Endpoint.capture
        split
        · simp only [Reader.rank, length_cons]; omega
        · split <;> (simp only [Reader.rank, length_cons]; omega)
    | clearing | reaping | failing | closingStdin | closing => simp only [Reader.rank]; omega
    | releasing ch ev rest =>
      dsimp only
      split <;> (simp only [Reader.rank]; omega)
    | settling ch rest =>
      dsimp only
      unfold Endpoint.settle
      split
      · simp only [Reader.rank]; omega
      · split <;> (simp only [Reader.rank]; omega)
    | settleDraining | signalDraining => exact absurd c.undrained (by rw [reader]; nofun)
    | signalling =>
      dsimp only
      unfold Endpoint.signal
      split <;> (simp only [Reader.rank]; omega)

/-- At the end of the reader `Submit` never waits. -/
theorem Served.proceed_rank (k : Served e) (c : Coherent e) (done : e.reader = .done) (inFlight : e.pc.inFlight) :
    (e.step provider e.proceed).1.pc.rank < e.pc.rank ∧ (e.step provider e.proceed).1.reader = .done := by
  unfold Endpoint.proceed
  cases pc : e.pc with
  | idle | returned => rw [pc] at inFlight; cases inFlight
  | writing =>
    show (e.write false).pc.rank < _ ∧ (e.write false).reader = _
    unfold Endpoint.write
    rw [pc]
    simp only [Bool.false_and, Bool.false_eq_true, if_false, Pc.rank]
    exact ⟨by omega, done⟩
  | waiting =>
    have answered := k.answered (by rw [pc]; rfl) (k.swept (by rw [done]; rfl) pc)
    show e.take.pc.rank < _ ∧ e.take.reader = _
    unfold Endpoint.take
    cases waiter : e.waiter with
    | none => rw [waiter] at answered; cases answered
    | some ok => cases ok <;> simp only [pc, Pc.rank] <;> exact ⟨by omega, done⟩
  | awaiting =>
    have none := k.signalled (by rw [done]; rfl) (by rw [pc]; rfl)
    have closed : e.serial ∈ e.closed := by
      rcases c.held (by rw [pc]; rfl) with is_open | ⟨-, closed⟩
      · rw [none] at is_open; cases is_open
      · exact closed
    show e.take.pc.rank < _ ∧ e.take.reader = _
    unfold Endpoint.take
    simp only [pc, if_pos closed, Pc.rank]
    exact ⟨by omega, done⟩
  | draining why =>
    have uncounted : e.turnSenders = 0 := c.no_senders (by rw [done]; rfl)
    show e.advance.pc.rank < _ ∧ e.advance.reader = _
    unfold Endpoint.advance
    simp only [pc, if_pos uncounted]
    cases why <;> simp only [Why.after, Pc.rank] <;> exact ⟨by omega, done⟩
  | clearing why =>
    show e.advance.pc.rank < _ ∧ e.advance.reader = _
    unfold Endpoint.advance
    simp only [pc]
    split
    · cases why <;> simp only [Why.after, Pc.rank] <;> exact ⟨by omega, done⟩
    · simp only [Pc.rank]; exact ⟨by omega, done⟩
  | registering =>
    show e.advance.pc.rank < _ ∧ e.advance.reader = _
    unfold Endpoint.advance
    simp only [pc]
    split <;> (simp only [Pc.rank]; exact ⟨by omega, done⟩)
  | lookup | probing | judging =>
    show e.advance.pc.rank < _ ∧ e.advance.reader = _
    unfold Endpoint.advance
    simp only [pc]
    refine ⟨?_, done⟩
    split <;> (simp only [Pc.rank]; omega)
  | rejecting =>
    show e.report.pc.rank < _ ∧ e.report.reader = _
    unfold Endpoint.report
    simp only [pc, Pc.rank]
    exact ⟨by omega, done⟩
  | beginning | requesting | dropping | accepting | settled | withdrawing | deciding =>
    show e.advance.pc.rank < _ ∧ e.advance.reader = _
    unfold Endpoint.advance
    simp only [pc, Pc.rank]
    exact ⟨by omega, done⟩

/-- The reader reaches its end by its own sections. -/
theorem Served.drains (k : Served e) (c : Coherent e) : ∃ actions, (∀ a ∈ actions, a.isOwn) ∧
    (finalState (Endpoint.step · provider) e actions).reader = .done ∧
    Coherent (finalState (Endpoint.step · provider) e actions) ∧ Served (finalState (Endpoint.step · provider) e actions) := by
  induction size : e.reader.rank using Nat.strong_induction_on generalizing e with
  | h size ih =>
    subst size
    by_cases done : e.reader = .done
    · exact ⟨[], forall_mem_nil _, done, c, k⟩
    obtain ⟨actions, own, ends⟩ :=
      ih _ (c.drain_rank provider done) (k.step c provider e.drain) (c.step provider e.drain) rfl
    refine ⟨e.drain :: actions, forall_mem_cons.2 ⟨?_, own⟩, ends⟩
    unfold Endpoint.drain
    cases e.reader <;> rfl

/-- `Submit` returns by its own sections once the reader is at its end. -/
theorem Served.proceeds (k : Served e) (c : Coherent e) (done : e.reader = .done) :
    ∃ actions, (∀ a ∈ actions, a.isOwn) ∧ (finalState (Endpoint.step · provider) e actions).pc.inFlight = false := by
  induction size : e.pc.rank using Nat.strong_induction_on generalizing e with
  | h size ih =>
    subst size
    by_cases returned : e.pc.inFlight = false
    · exact ⟨[], forall_mem_nil _, returned⟩
    have inFlight := Bool.eq_true_of_not_eq_false returned
    obtain ⟨less, still⟩ := k.proceed_rank provider c done inFlight
    obtain ⟨actions, own, ends⟩ := ih _ less (k.step c provider e.proceed) (c.step provider e.proceed) still rfl
    refine ⟨e.proceed :: actions, forall_mem_cons.2 ⟨?_, own⟩, ends⟩
    unfold Endpoint.proceed
    cases e.pc <;> rfl

/-- From every state, the steps of the reader and of `Submit` themselves let `Submit` return while the consumer receives. -/
theorem Served.returns (k : Served e) (c : Coherent e) :
    ∃ actions, (∀ a ∈ actions, a.isOwn) ∧ (finalState (Endpoint.step · provider) e actions).pc.inFlight = false := by
  obtain ⟨first, own, done, coherent, served⟩ := k.drains provider c
  obtain ⟨second, own', returned⟩ := served.proceeds provider coherent done
  refine ⟨first ++ second, forall_mem_append.2 ⟨own, own'⟩, ?_⟩
  rw [finalState_append]
  exact returned

end

/-- Whatever happens at an endpoint, no `turnDone` is closed twice, the reader sends to the `Submit` in flight alone, whose
`turnDone` is open, it never waits for its own send, and `Submit` is not deadlocked while the consumer of its events
receives. -/
theorem turn_channels_safe (provider : Provider) (resuming : Bool) (resumeID threadID model : String)
    (actions : List Action) :
    let e := finalState (Endpoint.step · provider) (.launched resuming resumeID threadID model) actions
    (∀ ch, e.turnDone = some ch → ch ∉ e.closed) ∧
    (∀ ch ev, e.reader.sends = some (ch, ev) → ch = e.serial ∧ e.pc.inFlight = true ∧ e.turnDone = some ch) ∧
    e.reader.drains = false ∧
    ∃ own, (∀ a ∈ own, a.isOwn = true) ∧ (finalState (Endpoint.step · provider) e own).pc.inFlight = false := by
  intro e
  obtain ⟨c, served⟩ : Coherent e ∧ Served e := by
    refine (Run.start.inputs actions).invariant (P := fun e => Coherent e ∧ Served e) ⟨coherent_launched .., ?_⟩ ?_
    · exact ⟨nofun, nofun, nofun⟩
    · exact fun e a ⟨c, served⟩ => ⟨c.step provider a, served.step c provider a⟩
  refine ⟨c.unclosed, fun ch ev sends => ?_, c.undrained, served.returns provider c⟩
  obtain ⟨own, done, -⟩ := c.sends ch ev sends
  refine ⟨own, ?_, done⟩
  -- a `Submit` that is not in flight has no `turnDone`
  cases pc : e.pc with
  | idle | returned => rw [(c.free (by rw [pc]; rfl)).2] at done; cases done
  | _ => rfl

end Pagnet.Codex
