import Pagnet.Codex.Endpoint

/-!
# Coherent endpoints

What the turn's fields, the sender count and the reader's place say about each
other, whatever the environment does. The done channel of the `Submit` in flight is
open exactly while it is the endpoint's `turnDone`, and the reader sends on no other
channel than that of this `Submit`.
-/

namespace Pagnet.Codex

open Session

/-- No turn of the `Submit` is registered at the endpoint. -/
def Pc.free : Pc → Bool
  | .idle | .lookup | .probing | .registering | .judging | .rejecting | .deciding | .returned _ => true
  | _ => false

/-- The `Submit` has not registered its turn yet. -/
def Pc.early : Pc → Bool
  | .lookup | .probing | .registering => true
  | _ => false

/-- A place that tells more than whether the turn is registered. -/
def Pc.reports : Pc → Bool
  | .settled | .draining _ => true
  | _ => false

/-- Going from `p` to `p'` changes nothing about the turn's fields. -/
def Pc.ordinary (p p' : Pc) : Bool :=
  p.free == p'.free && (!p'.early || p.early) && !p'.reports

theorem Pc.early.free {pc : Pc} (early : pc.early) : pc.free := by
  cases pc with
  | lookup | probing | registering => rfl
  | _ => cases early

/-- The send that the reader has begun. -/
def Reader.sends : Reader → Option (Nat × SessionEvent)
  | .sending ch ev _ => some (ch, ev)
  | .releasing ch ev _ => some (ch, ev)
  | _ => none

/-- The reader waits for senders. -/
def Reader.drains : Reader → Bool
  | .settleDraining _ | .signalDraining => true
  | _ => false

/-- The process is reaped. -/
def Reader.reaped : Reader → Bool
  | .failing | .signalling | .signalDraining | .closingStdin | .closing | .done => true
  | _ => false

/-- A terminal event was captured for channel `ch`. -/
def Endpoint.Routed (e : Endpoint) (ch : Nat) : Prop :=
  ∃ ev, (ch, ev) ∈ e.captured ∧ isTerminalSessionEvent ev.type

structure Coherent (e : Endpoint) : Prop where
  senders : e.turnSenders = if e.reader.sends.isSome then 1 else 0
  sends : ∀ ch ev, e.reader.sends = some (ch, ev) → ch = e.serial ∧ e.turnDone = some ch ∧ (ch, ev) ∈ e.captured
  settles : ∀ ch rest, e.reader = .settling ch rest → e.Routed ch
  undrained : e.reader.drains = false
  reaped : e.reader.reaped → e.alive = false ∧ e.listed = false
  finished : e.readerDone → e.reader = .done
  free : e.pc.free → e.currentTurnEvents = none ∧ e.turnDone = none
  held : e.pc.free = false → e.turnDone = some e.serial ∨ e.turnDone = none ∧ e.serial ∈ e.closed
  current : ∀ ch, e.currentTurnEvents = some ch → ch = e.serial ∧ e.turnDone = some ch
  unclosed : ∀ n, e.turnDone = some n → n ∉ e.closed
  early : e.pc.early → e.serial ∉ e.closed
  bounded : ∀ n ∈ e.closed, n ≤ e.serial
  settled : e.pc = .settled → e.serial ∈ e.closed
  drained : ∀ why, e.pc = .draining why → e.currentTurnEvents = none

theorem coherent_launched (resuming : Bool) (resumeID threadID model : String) :
    Coherent (.launched resuming resumeID threadID model) where
  senders := rfl
  sends _ _ none := nomatch none
  settles _ _ none := nomatch none
  undrained := rfl
  reaped none := nomatch none
  finished none := nomatch none
  free _ := ⟨rfl, rfl⟩
  held none := nomatch none
  current _ none := nomatch none
  unclosed _ none := nomatch none
  early none := nomatch none
  bounded := nofun
  settled none := nomatch none
  drained _ none := nomatch none

/-- The turn's fields are the same. -/
structure SameTurn (e e' : Endpoint) : Prop where
  serial : e'.serial = e.serial := by rfl
  closed : e'.closed = e.closed := by rfl
  turnDone : e'.turnDone = e.turnDone := by rfl
  current : e'.currentTurnEvents = e.currentTurnEvents := by rfl

/-- The reader and what only it changes are the same. -/
structure SameReader (e e' : Endpoint) : Prop where
  reader : e'.reader = e.reader := by rfl
  senders : e'.turnSenders = e.turnSenders := by rfl
  captured : e'.captured = e.captured := by rfl
  alive : e.alive = false → e'.alive = false := by exact id
  listed : e'.listed = e.listed := by rfl
  readerDone : e'.readerDone = e.readerDone := by rfl

section

variable {e e' : Endpoint}

theorem Endpoint.Routed.mono {ch : Nat} (routed : e.Routed ch) (captured : e.captured ⊆ e'.captured) : e'.Routed ch :=
  routed.imp fun _ ⟨mem, terminal⟩ => ⟨captured mem, terminal⟩

namespace Coherent

section

variable (c : Coherent e)
include c

/-- While the reader sends nothing, no sender is counted. -/
theorem no_senders (quiet : e.reader.sends = none) : e.turnSenders = 0 := by
  rw [c.senders, quiet]
  rfl

/-- Without counted senders the reader sends nothing. -/
theorem quiet (uncounted : e.turnSenders = 0) : e.reader.sends = none := by
  rw [c.senders] at uncounted
  cases is : e.reader.sends with
  | none => rfl
  | some send => simp [is] at uncounted

/-- A section of `Submit` that leaves the turn's fields alone. -/
theorem moves (turn : SameTurn e e') (reader : SameReader e e') (free : e'.pc.free = e.pc.free)
    (early : e'.pc.early → e.pc.early) (settled : e'.pc = .settled → e.serial ∈ e.closed)
    (drained : ∀ why, e'.pc ≠ .draining why) : Coherent e' where
  senders := by rw [reader.senders, reader.reader]; exact c.senders
  sends := by rw [reader.reader, reader.captured, turn.serial, turn.turnDone]; exact c.sends
  settles ch rest is := (c.settles ch rest (reader.reader ▸ is)).mono (reader.captured ▸ fun _ mem => mem)
  undrained := by rw [reader.reader]; exact c.undrained
  reaped is := by
    obtain ⟨dead, unlisted⟩ := c.reaped (reader.reader ▸ is)
    exact ⟨reader.alive dead, reader.listed ▸ unlisted⟩
  finished := by rw [reader.readerDone, reader.reader]; exact c.finished
  free := by rw [free, turn.current, turn.turnDone]; exact c.free
  held := by rw [free, turn.turnDone, turn.serial, turn.closed]; exact c.held
  current := by rw [turn.current, turn.serial, turn.turnDone]; exact c.current
  unclosed := by rw [turn.turnDone, turn.closed]; exact c.unclosed
  early is := by rw [turn.serial, turn.closed]; exact c.early (early is)
  bounded := by rw [turn.closed, turn.serial]; exact c.bounded
  settled is := by rw [turn.serial, turn.closed]; exact settled is
  drained why is := absurd is (drained why)

/-- The same for the places from `p` to `p'` that tell nothing about them. -/
theorem goes (turn : SameTurn e e') (reader : SameReader e e')
    (ordinary : Pc.ordinary e.pc e'.pc) : Coherent e' := by
  simp only [Pc.ordinary, Bool.and_eq_true, beq_iff_eq, Bool.or_eq_true, Bool.not_eq_true'] at ordinary
  obtain ⟨⟨free, early⟩, same⟩ := ordinary
  refine c.moves turn reader free.symm (fun is => early.resolve_left (by rw [is]; nofun)) ?_ ?_
  · intro is
    rw [is] at same
    cases same
  · intro why is
    rw [is] at same
    cases same

/-- The reader is at work until it is done. -/
theorem at_work (working : e.reader ≠ .done) {P : Prop} (done : e.readerDone) : P :=
  absurd (c.finished done) working

end

variable {ch : Nat} {ev : SessionEvent} {rest : List SessionEvent}

/-- The reader that sends finds the done channel of its turn open. -/
theorem sends_open (c : Coherent e) (sends : e.reader.sends = some (ch, ev)) : e.pc.free = false := by
  obtain ⟨-, is_open, -⟩ := c.sends ch ev sends
  cases free : e.pc.free with
  | false => rfl
  | true =>
    rw [(c.free free).2] at is_open
    cases is_open

/-- The endpoint's done channel is that of the `Submit` in flight. -/
theorem done_own (c : Coherent e) {n : Nat} (is : e.turnDone = some n) : n = e.serial := by
  cases free : e.pc.free with
  | true =>
    rw [(c.free free).2] at is
    cases is
  | false =>
    rcases c.held free with own | ⟨none, -⟩
    · exact Option.some.inj (is.symm.trans own)
    · rw [none] at is
      cases is

/-- The turn's fields are freed and its done channel is closed, by a `Submit` or a reader. -/
structure Closes (e e' : Endpoint) : Prop where
  serial : e'.serial = e.serial
  turnDone : e'.turnDone = none
  closed : e'.closed = e.turnDone.toList ++ e.closed
  current : e'.currentTurnEvents = none

section

variable (c : Coherent e)
include c

/-- The done channel of the `Submit` in flight is closed afterwards. -/
theorem closes_held (closes : Closes e e') (held : e.pc.free = false) : e.serial ∈ e'.closed := by
  rw [closes.closed]
  rcases c.held held with is_open | ⟨-, closed⟩
  · rw [is_open]; exact List.mem_cons_self
  · exact List.mem_append_right _ closed

theorem closes (closes : Closes e e') (quiet : e.reader.sends = none)
    (finished : e'.readerDone → e'.reader = .done)
    (reaped : e'.reader.reaped → e'.alive = false ∧ e'.listed = false := by nofun)
    (held : e'.pc.free = false → e.pc.free = false := by exact id) (early : e'.pc.early → e.pc.early := by exact id)
    (senders : e'.turnSenders = e.turnSenders := by rfl) (captured : e'.captured = e.captured := by rfl)
    (quiet' : e'.reader.sends = none := by rfl)
    (settles : ∀ ch rest, e'.reader = .settling ch rest → e.Routed ch := by nofun)
    (undrained : e'.reader.drains = false := by rfl) : Coherent e' where
  senders := by rw [senders, c.no_senders quiet, quiet']; rfl
  sends _ _ is := by rw [quiet'] at is; cases is
  settles ch rest is := (settles ch rest is).mono (captured ▸ fun _ mem => mem)
  undrained := undrained
  reaped := reaped
  finished := finished
  free _ := ⟨closes.current, closes.turnDone⟩
  held is := .inr ⟨closes.turnDone, closes.serial ▸ c.closes_held closes (held is)⟩
  current _ is := by rw [closes.current] at is; cases is
  unclosed _ is := by rw [closes.turnDone] at is; cases is
  early is := by
    have was := early is
    rw [closes.serial, closes.closed, (c.free (Pc.early.free was)).2]
    exact c.early was
  bounded n mem := by
    rw [closes.closed] at mem
    rw [closes.serial]
    rcases List.mem_append.1 mem with mem | mem
    · rw [c.done_own (Option.mem_toList.1 mem)]
    · exact c.bounded n mem
  settled is := closes.serial ▸ c.closes_held closes (held (by rw [is]; rfl))
  drained why _ := closes.current

/-- `Submit` takes the turn's fields. -/
theorem registers (pc : e.pc = .registering) :
    Coherent { e with
      currentTurnID := e.turnID, currentTurnEvents := some e.serial, turnEndpointGone := false
      turnDone := some e.serial, pc := .beginning } where
  __ := c
  sends ch ev sends := by
    have held := c.sends_open sends
    rw [pc] at held
    cases held
  free := nofun
  held _ := .inl rfl
  current ch is := by cases is; exact ⟨rfl, rfl⟩
  unclosed n is := by cases is; exact c.early (by rw [pc]; rfl)
  early := nofun
  settled := nofun
  drained := nofun

/-- The last section of `clearTurn`. -/
theorem clears (uncounted : e.turnSenders = 0) (held : e.pc.free = false) (why : Why) {e' : Endpoint}
    (closes : Closes e e') (reader : SameReader e e') (pc : e'.pc = why.after) : Coherent e' := by
  have quiet := c.quiet uncounted
  refine c.closes closes quiet ?_ ?_ (fun _ => held) ?_ reader.senders reader.captured (reader.reader ▸ quiet) ?_ ?_
  · rw [reader.readerDone, reader.reader]; exact c.finished
  · intro is
    obtain ⟨dead, unlisted⟩ := c.reaped (reader.reader ▸ is)
    exact ⟨reader.alive dead, reader.listed ▸ unlisted⟩
  · rw [pc]; cases why <;> nofun
  · rw [reader.reader]; exact c.settles
  · rw [reader.reader]; exact c.undrained

/-- `Submit` leaves the turn's fields to the senders that it waits for. -/
theorem drains (held : e.pc.free = false) (why : Why) :
    Coherent { e.release with pc := .draining why } where
  __ := c
  free := nofun
  held _ := c.held held
  current := nofun
  early := nofun
  settled := nofun
  drained _ _ := rfl

/-- `Submit` returns after its turn was settled. -/
theorem returns (pc : e.pc = .settled) (r : Result) : Coherent { e with pc := .returned r } := by
  have closed := c.settled pc
  have no_done : e.turnDone = none := by
    rcases c.held (by rw [pc]; rfl) with is_open | ⟨none, -⟩
    · exact absurd closed (c.unclosed _ is_open)
    · exact none
  have no_current : e.currentTurnEvents = none := by
    cases is : e.currentTurnEvents with
    | none => rfl
    | some ch =>
      have is_open := (c.current ch is).2
      rw [no_done] at is_open
      cases is_open
  exact { c with
    free := fun _ => ⟨no_current, no_done⟩
    held := nofun
    early := nofun
    settled := nofun
    drained := nofun }

/-- Every section of `Submit` leaves a coherent endpoint. -/
theorem advance : Coherent e.advance := by
  unfold Endpoint.advance
  cases pc : e.pc with
  | lookup => exact c.goes { } { } (by rw [pc]; cases e.listed <;> rfl)
  | probing | judging => exact c.goes { } { } (by rw [pc]; cases e.readerDone <;> rfl)
  | registering =>
    dsimp only
    split
    · exact c.goes { } { } (by rw [pc]; rfl)
    · exact c.registers pc
  | beginning | requesting | dropping | accepting | withdrawing | deciding =>
    exact c.goes { } { } (by rw [pc]; rfl)
  | settled => exact c.returns pc _
  | clearing why =>
    dsimp only
    split
    · exact c.clears ‹_› (by rw [pc]; rfl) why ⟨rfl, rfl, rfl, rfl⟩ { } rfl
    · exact c.drains (by rw [pc]; rfl) why
  | draining why =>
    dsimp only
    split
    · exact c.clears ‹_› (by rw [pc]; rfl) why ⟨rfl, rfl, rfl, c.drained why pc⟩ { } rfl
    · exact c
  | idle | writing | waiting | awaiting | rejecting | returned => exact c

/-- A new `Submit` has channels of its own. -/
theorem submit (turnID : String) : Coherent (e.submit turnID) := by
  unfold Endpoint.submit
  split
  · exact c
  have free : e.pc.free := by
    cases pc : e.pc with
    | idle | returned => rfl
    | _ => simp [pc, Pc.inFlight] at *
  have no_send : e.reader.sends = none := by
    cases sends : e.reader.sends with
    | none => rfl
    | some send =>
      have held := c.sends_open sends
      rw [free] at held
      cases held
  obtain ⟨no_current, no_done⟩ := c.free free
  exact { c with
    sends := fun _ _ is => by rw [no_send] at is; cases is
    free := fun _ => ⟨no_current, no_done⟩
    held := nofun
    current := fun _ is => by rw [no_current] at is; cases is
    early := fun _ mem => absurd (c.bounded _ mem) (Nat.not_succ_le_self _)
    bounded := fun n mem => Nat.le_succ_of_le (c.bounded n mem)
    settled := nofun
    drained := nofun }

theorem write (ok : Bool) : Coherent (e.write ok) := by
  unfold Endpoint.write
  cases pc : e.pc with
  | writing =>
    dsimp only
    split <;> exact c.goes { } { } (by rw [pc]; rfl)
  | _ => exact c

theorem take : Coherent e.take := by
  unfold Endpoint.take
  split
  next pc _ => exact c.goes { } { } (by rw [pc]; rfl)
  next pc _ => exact c.goes { } { } (by rw [pc]; rfl)
  next pc =>
    split
    · exact c.moves { } { } (by rw [pc]; rfl) nofun (fun _ => ‹_›) nofun
    · exact c
  · exact c

theorem giveUp : Coherent e.giveUp := by
  unfold Endpoint.giveUp
  split
  next pc _ => exact c.goes { } { } (by rw [pc]; rfl)
  next pc _ => exact c.goes { } { } (by rw [pc]; rfl)
  · exact c

end

/-- The reader is at work outside its sends. -/
structure Between (e : Endpoint) : Prop where
  quiet : e.reader.sends = none
  working : e.reader ≠ .done

section

variable (c : Coherent e)
include c

/-- A section of the reader outside its sends that leaves the turn's fields alone. -/
theorem reads (at_work : Between e)
    (finished : e'.readerDone → e.readerDone ∨ e'.reader = .done := by exact .inl)
    (reaped : e'.reader.reaped → e'.alive = false ∧ e'.listed = false := by nofun)
    (turn : SameTurn e e' := by exact { }) (pc : e'.pc = e.pc := by rfl) (senders : e'.turnSenders = e.turnSenders := by rfl)
    (captured : e'.captured = e.captured := by rfl) (quiet' : e'.reader.sends = none := by rfl)
    (settles : ∀ ch rest, e'.reader = .settling ch rest → e.Routed ch := by nofun)
    (undrained : e'.reader.drains = false := by rfl) : Coherent e' where
  senders := by rw [senders, c.no_senders at_work.quiet, quiet']; rfl
  sends _ _ is := by rw [quiet'] at is; cases is
  settles ch rest is := (settles ch rest is).mono (captured ▸ fun _ mem => mem)
  undrained := undrained
  reaped := reaped
  finished done := (finished done).elim (c.at_work at_work.working) id
  free := by rw [pc, turn.current, turn.turnDone]; exact c.free
  held := by rw [pc, turn.turnDone, turn.serial, turn.closed]; exact c.held
  current := by rw [turn.current, turn.serial, turn.turnDone]; exact c.current
  unclosed := by rw [turn.turnDone, turn.closed]; exact c.unclosed
  early := by rw [pc, turn.serial, turn.closed]; exact c.early
  bounded := by rw [turn.closed, turn.serial]; exact c.bounded
  settled := by rw [pc, turn.serial, turn.closed]; exact c.settled
  drained := by rw [pc, turn.current]; exact c.drained

/-- What a message changes: the state, the answer to a request, the events to route. -/
theorem dispatch (ready : e.reader = .ready) (provider : Provider) (m : Message) :
    Coherent (e.dispatch provider m) := by
  have between : Between e := ⟨by rw [ready]; rfl, by rw [ready]; nofun⟩
  cases m with
  | response ok =>
    unfold Endpoint.dispatch
    dsimp only
    split
    · exact { c with }
    · exact c
  | notification | serverRequest => exact c.reads between
  | other => exact c

/-- The reader captures a channel only while its turn is registered. -/
theorem capture (between : Between e) (ev : SessionEvent) (rest : List SessionEvent) :
    Coherent (e.capture ev rest) := by
  unfold Endpoint.capture
  split
  · exact c.reads between
  next ch is_current =>
    obtain ⟨own, is_open⟩ := c.current ch is_current
    split
    · exact { c with
        senders := by rw [c.no_senders between.quiet]; rfl
        sends := fun ch' ev' sends => by
          cases sends
          exact ⟨own, is_open, List.mem_cons_self⟩
        settles := nofun
        undrained := rfl
        reaped := nofun
        finished := c.at_work between.working }
    · exact c.reads between

/-- The send itself. -/
theorem send
    (reader : e.reader = .sending ch ev rest) :
    Coherent { e with sent := (ch, ev) :: e.sent, reader := .releasing ch ev rest } := by
  have working : e.reader ≠ .done := by rw [reader]; nofun
  have sends : e.reader.sends = some (ch, ev) := by rw [reader]; rfl
  exact { c with
    senders := by rw [c.senders, sends]; rfl
    sends := fun ch' ev' is => c.sends ch' ev' (sends.trans is)
    settles := nofun
    undrained := rfl
    reaped := nofun
    finished := c.at_work working }

/-- The sender is no longer counted; a terminal event settles its turn next. -/
theorem unsend
    (reader : e.reader = .releasing ch ev rest) :
    Coherent { e with
      turnSenders := e.turnSenders - 1
      reader := if isTerminalSessionEvent ev.type then .settling ch rest else .routing rest } := by
  have working : e.reader ≠ .done := by rw [reader]; nofun
  have sends : e.reader.sends = some (ch, ev) := by rw [reader]; rfl
  have counted : e.turnSenders = 1 := by rw [c.senders, sends]; rfl
  obtain ⟨-, -, captured⟩ := c.sends ch ev sends
  have uncounted : e.turnSenders - 1 = 0 := by rw [counted]
  split
  next terminal =>
    exact { c with
      senders := uncounted
      sends := fun _ _ none => nomatch (none : Option.none = some _)
      settles := fun ch' rest' is => by
        cases is
        exact ⟨ev, captured, terminal⟩
      undrained := rfl
      reaped := nofun
      finished := c.at_work working }
  · exact { c with
      senders := uncounted
      sends := fun _ _ none => nomatch (none : Option.none = some _)
      settles := nofun
      undrained := rfl
      reaped := nofun
      finished := c.at_work working }

/-- The reader settles a turn, or finds it settled. -/
theorem settle (reader : e.reader = .settling ch rest) : Coherent (e.settle ch rest) := by
  have working : e.reader ≠ .done := by rw [reader]; nofun
  have quiet : e.reader.sends = none := by rw [reader]; rfl
  unfold Endpoint.settle
  split
  · exact c.reads ⟨quiet, working⟩
  · rw [if_pos (c.no_senders quiet)]
    exact c.closes ⟨rfl, rfl, rfl, rfl⟩ quiet (c.at_work working)

/-- The reader signals the turn in flight that its process is gone. -/
theorem signal (reader : e.reader = .signalling) : Coherent e.signal := by
  have working : e.reader ≠ .done := by rw [reader]; nofun
  have quiet : e.reader.sends = none := by rw [reader]; rfl
  have reaped := c.reaped (by rw [reader]; rfl)
  unfold Endpoint.signal
  rw [if_pos (c.no_senders quiet)]
  unfold Endpoint.cutOff
  split
  · exact c.closes ⟨rfl, rfl, rfl, rfl⟩ quiet (c.at_work working) fun _ => reaped
  next no_current =>
    rw [Option.not_isSome_iff_eq_none] at no_current
    exact c.closes ⟨rfl, rfl, rfl, no_current⟩ quiet (c.at_work working) fun _ => reaped

/-- Every section of the reader leaves a coherent endpoint. -/
theorem read : Coherent e.read := by
  unfold Endpoint.read
  cases reader : e.reader with
  | ready | sending | done => exact c
  | routing events =>
    have between : Between e := ⟨by rw [reader]; rfl, by rw [reader]; nofun⟩
    cases events with
    | nil => exact c.reads between
    | cons ev rest => exact c.capture between ev rest
  | releasing ch ev rest => exact c.unsend reader
  | settling ch rest => exact c.settle reader
  | settleDraining | signalDraining => exact absurd c.undrained (by rw [reader]; nofun)
  | clearing rest => exact c.reads ⟨by rw [reader]; rfl, by rw [reader]; nofun⟩
  | reaping => exact c.reads ⟨by rw [reader]; rfl, by rw [reader]; nofun⟩ .inl fun _ => ⟨rfl, rfl⟩
  | failing | closingStdin =>
    exact c.reads ⟨by rw [reader]; rfl, by rw [reader]; nofun⟩ .inl fun _ => c.reaped (by rw [reader]; rfl)
  | signalling => exact c.signal reader
  | closing =>
    exact c.reads ⟨by rw [reader]; rfl, by rw [reader]; nofun⟩ (fun _ => .inr rfl) fun _ => c.reaped (by rw [reader]; rfl)

/-- Every step leaves a coherent endpoint. -/
theorem step (provider : Provider) (a : Action) : Coherent (e.step provider a).1 := by
  cases a with
  | submit turnID => exact c.submit turnID
  | cancel => exact { c with }
  | advance => exact c.advance
  | write ok => exact c.write ok
  | take => exact c.take
  | giveUp => exact c.giveUp
  | die => exact { c with reaped := fun is => ⟨rfl, (c.reaped is).2⟩ }
  | receive m =>
    show Coherent (e.receive provider m)
    unfold Endpoint.receive
    split
    · exact c.dispatch ‹_› provider m
    · exact c
  | eof =>
    unfold Endpoint.step
    dsimp only
    split
    next ready => exact c.reads ⟨by rw [ready]; rfl, by rw [ready]; nofun⟩
    · exact c
  | read => exact c.read
  | deliver =>
    show Coherent e.deliver
    unfold Endpoint.deliver
    split
    · exact c.send ‹_›
    · exact c
  | report =>
    show Coherent e.report
    unfold Endpoint.report
    split
    next pc => exact c.goes { } { } (by rw [pc]; rfl)
    · exact c

end

end Coherent

end

end Pagnet.Codex
