import Pagnet.Codex.Answer
import Pagnet.Codex.Return
import Pagnet.Codex.Tracked

/-!
# The death of a Codex process

A `Submit` whose process exits tells the Manager whether the runtime had accepted the
turn: the Manager submits a prompt again only after `ErrEndpointGone`.
-/

namespace Pagnet.Codex

open Session

/-- The loop of `Manager.submitPrompt`: how often the driver's `Submit` is called from
`attempt` on, where a round either fails to activate the session or returns. -/
def submitPrompt (rounds : Nat → Option Result) (attempt : Nat) : Nat → Nat
  | 0 => 0
  | left + 1 =>
    match rounds attempt with
    | none => 0
    | some .endpointGone => submitPrompt rounds (attempt + 1) left + 1
    | some _ => 1

/-- What a `Submit` whose process exited is to return. -/
def interruption (accepted : Bool) : Result := if accepted then .turnInterrupted else .endpointGone

/-- The death of the process is classified by acceptance. -/
structure Classified (provider : Provider) (e : Endpoint) : Prop where
  result : ∀ r, e.pc = .returned r → e.cut → e.ctxDone = false → ¬e.Routed e.serial → r = interruption e.accepted
  /-- the `Submit` emits no event of its own -/
  silent : e.cut → ∀ ev, (e.serial, ev) ∉ e.own
  /-- a `Submit` in flight can return without help of the environment -/
  returns : e.alive = false → ∃ actions, (∀ a ∈ actions, a.isOwn) ∧
    (finalState (Endpoint.step · provider) e actions).pc.inFlight = false
  /-- an accepted prompt is not submitted again -/
  once : e.accepted → ∀ r, e.pc = .returned r → ∀ rounds attempt left, rounds attempt = some r →
    submitPrompt rounds attempt (left + 1) = 1

/-- The turn of a failed request was withdrawn. -/
def Pc.cleared : Pc → Bool
  | .clearing .failed | .draining .failed | .judging | .rejecting | .deciding => true
  | _ => false

/-- The turn of the `Submit` holds the endpoint. -/
def Pc.holds : Pc → Bool
  | .beginning | .requesting | .writing | .waiting | .dropping _ | .accepting | .awaiting | .settled | .withdrawing _ => true
  | _ => false

/-- The `Submit` gives up because its context ended. -/
def Pc.cancels : Pc → Bool
  | .dropping .cancelled | .withdrawing .cancelled | .clearing .cancelled | .draining .cancelled | .returned .ctxErr => true
  | _ => false

def Pc.drains : Pc → Bool
  | .draining _ => true
  | _ => false

/-- How the end of the turn in flight is to be read. -/
structure Judged (e : Endpoint) : Prop where
  cleared : e.pc.cleared → e.state.turnAccepted = false
  rejecting : e.pc = .rejecting → e.cut = false
  gone : e.pc.holds → e.serial ∈ e.closed → e.Routed e.serial ∨ e.turnEndpointGone
  held : ∀ ch, e.turnDone = some ch → e.pc.drains = false → e.currentTurnEvents = some ch
  cancels : e.pc.cancels → e.ctxDone
  bounded : ∀ x ∈ e.own, x.1 ≤ e.serial
  own : ∀ ev, (e.serial, ev) ∈ e.own → e.pc.inFlight = false ∧ e.cut = false
  result : ∀ r, e.pc = .returned r → e.cut → e.ctxDone = false → ¬e.Routed e.serial → r = interruption e.accepted
  unaccepted : e.pc = .returned .endpointGone → e.accepted = false

theorem judged_launched (resuming : Bool) (resumeID threadID model : String) :
    Judged (.launched resuming resumeID threadID model) where
  cleared := nofun
  rejecting := nofun
  gone := nofun
  held _ is := nomatch (is : Option.none = some _)
  cancels := nofun
  bounded _ mem := nomatch mem
  own _ mem := nomatch mem
  result := nofun
  unaccepted := nofun

/-- The turn's fields and its history are the same. -/
structure SameEnd (e e' : Endpoint) : Prop where
  serial : e'.serial = e.serial := by rfl
  closed : e'.closed = e.closed := by rfl
  captured : e'.captured = e.captured := by rfl
  gone : e'.turnEndpointGone = e.turnEndpointGone := by rfl
  done : e'.turnDone = e.turnDone := by rfl
  current : e'.currentTurnEvents = e.currentTurnEvents := by rfl
  ctxDone : e'.ctxDone = e.ctxDone := by rfl
  cut : e'.cut = e.cut := by rfl
  own : e'.own = e.own := by rfl

/-- Going from `p` to `p'` says no more about the end of the turn. -/
def Pc.judges (p p' : Pc) : Bool :=
  p.inFlight && p'.inFlight && (!p'.holds || p.holds) && (p'.drains == p.drains) && (!p'.cancels || p.cancels)

section

variable {e e' : Endpoint}

namespace Judged

section

variable (k : Judged e)
include k

/-- A `Submit` in flight has emitted nothing of its own. -/
theorem no_own (inFlight : e.pc.inFlight) (ev : SessionEvent) : (e.serial, ev) ∉ e.own := by
  intro mem
  have returned := (k.own ev mem).1
  rw [inFlight] at returned
  cases returned

/-- A section of `Submit` that says no more about the end of the turn. -/
theorem goes (judges : Pc.judges e.pc e'.pc)
    (cleared : e'.pc.cleared → e'.state.turnAccepted = false := by nofun)
    (rejecting : e'.pc = .rejecting → e.cut = false := by nofun) (same : SameEnd e e' := by exact { }) : Judged e' := by
  simp only [Pc.judges, Bool.and_eq_true, beq_iff_eq, Bool.or_eq_true, Bool.not_eq_true'] at judges
  obtain ⟨⟨⟨⟨inFlight, inFlight'⟩, holds⟩, drains⟩, cancels⟩ := judges
  have implied {b b' : Bool} (either : b' = false ∨ b) (is : b') : b :=
    either.resolve_left fun no => by rw [is] at no; cases no
  have not_returned (r : Result) (is : e'.pc = .returned r) : False := by rw [is] at inFlight'; cases inFlight'
  exact {
    cleared := cleared
    rejecting := fun is => by rw [same.cut]; exact rejecting is
    gone := fun is mem => by
      rw [Endpoint.Routed, same.captured, same.serial, same.gone]
      exact k.gone (implied holds is) (by rwa [same.serial, same.closed] at mem)
    held := by rw [same.done, same.current, drains]; exact k.held
    cancels := fun is => by rw [same.ctxDone]; exact k.cancels (implied cancels is)
    bounded := by rw [same.own, same.serial]; exact k.bounded
    own := fun ev mem => absurd (by rwa [same.own, same.serial] at mem) (k.no_own inFlight ev)
    result := fun r is => (not_returned r is).elim
    unaccepted := fun is => (not_returned _ is).elim }

/-- `Submit` returns. -/
theorem returns (inFlight : e.pc.inFlight) (drained : e.pc.drains = false) (r : Result)
    (cancels : r = .ctxErr → e.ctxDone)
    (result : e.cut → e.ctxDone = false → ¬e.Routed e.serial → r = interruption e.accepted)
    (unaccepted : r = .endpointGone → e.accepted = false) : Judged { e with pc := .returned r } where
  cleared := nofun
  rejecting := nofun
  gone := nofun
  held ch is _ := k.held ch is drained
  cancels is := cancels (by cases r with | ctxErr => rfl | _ => cases is)
  bounded := k.bounded
  own ev mem := absurd mem (k.no_own inFlight ev)
  result r' is := by cases is; exact result
  unaccepted is := unaccepted (by cases is; rfl)

/-- The turn's fields are given back. -/
theorem releases (why : Why) (inFlight : e.pc.inFlight)
    (cleared : why = .failed → e'.state.turnAccepted = false) (cancels : why = .cancelled → e.ctxDone)
    (place : e'.turnDone = none ∧ e'.pc = why.after ∨ e'.pc = .draining why) (serial : e'.serial = e.serial := by rfl)
    (own : e'.own = e.own := by rfl) (ctxDone : e'.ctxDone = e.ctxDone := by rfl) : Judged e' where
  cleared is := by
    cases why with
    | failed => exact cleared rfl
    | cancelled => rcases place with ⟨-, pc⟩ | pc <;> rw [pc] at is <;> cases is
  rejecting is := by cases why <;> rcases place with ⟨-, pc⟩ | pc <;> rw [pc] at is <;> cases is
  gone is := by cases why <;> rcases place with ⟨-, pc⟩ | pc <;> rw [pc] at is <;> cases is
  held ch is drained := by
    rcases place with ⟨none, -⟩ | pc
    · rw [none] at is; cases is
    · rw [pc] at drained; cases drained
  cancels is := by
    rw [ctxDone]
    cases why with
    | cancelled => exact cancels rfl
    | failed => rcases place with ⟨-, pc⟩ | pc <;> rw [pc] at is <;> cases is
  bounded := by rw [own, serial]; exact k.bounded
  own ev mem := absurd (by rwa [own, serial] at mem) (k.no_own inFlight ev)
  result r is := by
    cases why with
    | failed => rcases place with ⟨-, pc⟩ | pc <;> rw [pc] at is <;> cases is
    | cancelled =>
      intro _ live
      rw [ctxDone, cancels rfl] at live
      cases live
  unaccepted is := by cases why <;> rcases place with ⟨-, pc⟩ | pc <;> rw [pc] at is <;> cases is

theorem advance (c : Coherent e) (asked : Asked e) (timely : Timely e .advance) : Judged e.advance := by
  have before (unwritten : e.pc.unwritten) : interruption e.accepted = .endpointGone := by
    rw [asked.early unwritten]; rfl
  unfold Endpoint.advance
  cases pc : e.pc with
  | lookup =>
    have unwritten : e.pc.unwritten := by rw [pc]; rfl
    dsimp only
    split
    · exact k.goes (by rw [pc]; rfl)
    · exact k.returns (by rw [pc]; rfl) (by rw [pc]; rfl) _ nofun (fun _ _ _ => (before unwritten).symm)
        fun _ => asked.early unwritten
  | probing =>
    have unwritten : e.pc.unwritten := by rw [pc]; rfl
    dsimp only
    split
    · exact k.returns (by rw [pc]; rfl) (by rw [pc]; rfl) _ nofun (fun _ _ _ => (before unwritten).symm)
        fun _ => asked.early unwritten
    · exact k.goes (by rw [pc]; rfl)
  | registering =>
    have free := (c.free (by rw [pc]; rfl)).1
    have early := c.early (by rw [pc]; rfl)
    dsimp only
    rw [if_neg (by rw [free]; nofun)]
    exact {
      cleared := nofun
      rejecting := nofun
      gone := fun _ mem => absurd mem early
      held := fun ch is _ => is
      cancels := nofun
      bounded := k.bounded
      own := fun ev mem => absurd mem (k.no_own (by rw [pc]; rfl) ev)
      result := nofun
      unaccepted := nofun }
  | beginning | requesting | accepting => exact k.goes (by rw [pc]; rfl)
  | dropping why => exact k.goes (by rw [pc]; cases why <;> rfl)
  | settled =>
    have accepted := asked.answered (by rw [pc]; rfl)
    have gone := k.gone (by rw [pc]; rfl) (c.settled pc)
    dsimp only
    split
    · exact k.returns (by rw [pc]; rfl) (by rw [pc]; rfl) _ nofun (fun _ _ _ => by rw [accepted]; rfl) nofun
    · exact k.returns (by rw [pc]; rfl) (by rw [pc]; rfl) _ nofun
        (fun _ _ unrouted => absurd (gone.resolve_left unrouted) ‹_›) nofun
  | withdrawing why => exact k.goes (by rw [pc]; cases why <;> rfl) fun _ => rfl
  | clearing why | draining why =>
    have cleared (failed : why = .failed) : e.state.turnAccepted = false := k.cleared (by rw [pc, failed]; rfl)
    have cancels (cancelled : why = .cancelled) : e.ctxDone := k.cancels (by rw [pc, cancelled]; rfl)
    dsimp only
    split
    · exact k.releases why (by rw [pc]; rfl) cleared cancels (.inl ⟨rfl, rfl⟩)
    · first
      | exact k
      | exact k.releases why (by rw [pc]; rfl) cleared cancels (.inr rfl)
  | judging =>
    have cleared : e.state.turnAccepted = false := k.cleared (by rw [pc]; rfl)
    dsimp only
    split
    · exact k.goes (by rw [pc]; rfl) fun _ => cleared
    next working =>
      exact k.goes (by rw [pc]; rfl) (fun _ => cleared)
        fun _ => Bool.eq_false_iff.2 fun cut => working (timely pc cut)
  | deciding =>
    have cleared : e.state.turnAccepted = false := k.cleared (by rw [pc]; rfl)
    have refused : e.accepted = false := asked.refuses (by unfold Endpoint.failed; rw [pc]; rfl)
    rw [cleared]
    exact k.returns (by rw [pc]; rfl) (by rw [pc]; rfl) _ nofun (fun _ _ _ => by rw [refused]; rfl) fun _ => refused
  | _ => exact k

theorem report : Judged e.report := by
  unfold Endpoint.report
  split
  next pc =>
    have uncut := k.rejecting pc
    exact {
      cleared := nofun
      rejecting := nofun
      gone := nofun
      held := fun ch is _ => k.held ch is (by rw [pc]; rfl)
      cancels := nofun
      bounded := List.forall_mem_cons.2 ⟨Nat.le_refl _, k.bounded⟩
      own := fun _ _ => ⟨rfl, uncut⟩
      result := fun _ _ cut => absurd (uncut.symm.trans cut) Bool.false_ne_true
      unaccepted := nofun }
  · exact k

theorem submit (c : Coherent e) (turnID : String) : Judged (e.submit turnID) := by
  unfold Endpoint.submit
  split
  · exact k
  rename_i idle
  have free : e.turnDone = none := by
    refine (c.free ?_).2
    cases pc : e.pc with
    | idle | returned => rfl
    | _ => rw [pc] at idle; exact absurd rfl idle
  exact {
    cleared := nofun
    rejecting := nofun
    gone := nofun
    held := fun ch is => absurd (free.symm.trans is) (Option.some_ne_none ch).symm
    cancels := nofun
    bounded := fun x mem => Nat.le_succ_of_le (k.bounded x mem)
    own := fun ev mem => absurd (k.bounded _ mem) (Nat.not_succ_le_self _)
    result := nofun
    unaccepted := nofun }

theorem write (ok : Bool) : Judged (e.write ok) := by
  unfold Endpoint.write
  cases pc : e.pc with
  | writing =>
    dsimp only
    split <;> exact k.goes (by rw [pc]; rfl)
  | _ => exact k

theorem take : Judged e.take := by
  unfold Endpoint.take
  split
  next pc _ => exact k.goes (by rw [pc]; rfl)
  next pc _ => exact k.goes (by rw [pc]; rfl)
  next pc =>
    split
    · exact k.goes (by rw [pc]; rfl)
    · exact k
  · exact k

/-- `Submit` gives up its turn because its context ended. -/
theorem gives_up (ctxDone : e.ctxDone) (holds : e.pc.holds) {p : Pc}
    (cancels : p = .dropping .cancelled ∨ p = .withdrawing .cancelled) : Judged { e with pc := p } := by
  have inFlight : e.pc.inFlight ∧ e.pc.drains = false := by
    cases pc : e.pc with
    | idle | returned | draining => rw [pc] at holds; cases holds
    | _ => exact ⟨rfl, rfl⟩
  exact {
    cleared := fun is => by rcases cancels with rfl | rfl <;> cases is
    rejecting := fun is => by rcases cancels with rfl | rfl <;> cases is
    gone := fun _ => k.gone holds
    held := fun ch is _ => k.held ch is inFlight.2
    cancels := fun _ => ctxDone
    bounded := k.bounded
    own := fun ev mem => absurd mem (k.no_own inFlight.1 ev)
    result := fun r is => by rcases cancels with rfl | rfl <;> cases is
    unaccepted := fun is => by rcases cancels with rfl | rfl <;> cases is }

theorem giveUp : Judged e.giveUp := by
  unfold Endpoint.giveUp
  split
  next pc ctxDone => exact k.gives_up ctxDone (by rw [pc]; rfl) (.inl rfl)
  next pc ctxDone => exact k.gives_up ctxDone (by rw [pc]; rfl) (.inr rfl)
  · exact k

end

/-- A step of the reader or of the environment. -/
structure Outside (e e' : Endpoint) : Prop where
  pc : e'.pc = e.pc := by rfl
  serial : e'.serial = e.serial := by rfl
  own : e'.own = e.own := by rfl
  captured : e.captured ⊆ e'.captured := by exact fun _ mem => mem
  ctxDone : e.pc.inFlight = false → e'.ctxDone = e.ctxDone := by exact fun _ => rfl
  ctxStays : e.ctxDone → e'.ctxDone := by exact id
  cut : e.pc.inFlight = false → e'.cut = e.cut := by exact fun _ => rfl
  accepted : e.pc.inFlight = false → e'.accepted = e.accepted := by exact fun _ => rfl

theorem outside (k : Judged e) (cleared : e.pc.cleared → e'.state.turnAccepted = false)
    (gone : e.pc.holds → e.serial ∈ e'.closed → e'.Routed e.serial ∨ e'.turnEndpointGone)
    (held : ∀ ch, e'.turnDone = some ch → e.pc.drains = false → e'.currentTurnEvents = some ch)
    (same : Outside e e' := by exact { }) (rejecting : e.pc = .rejecting → e'.cut = e.cut := by exact fun _ => rfl) :
    Judged e' := by
  have idle {r : Result} (is : e'.pc = .returned r) : e.pc.inFlight = false := by rw [← same.pc, is]; rfl
  exact {
    cleared := fun is => cleared (same.pc ▸ is)
    rejecting := fun is => by rw [rejecting (same.pc ▸ is)]; exact k.rejecting (same.pc ▸ is)
    gone := fun is mem => by rw [same.serial] at mem ⊢; exact gone (same.pc ▸ is) mem
    held := fun ch is drained => held ch is (same.pc ▸ drained)
    cancels := fun is => same.ctxStays (k.cancels (same.pc ▸ is))
    bounded := by rw [same.own, same.serial]; exact k.bounded
    own := fun ev mem => by
      obtain ⟨returned, uncut⟩ := k.own ev (by rwa [same.own, same.serial] at mem)
      exact ⟨same.pc ▸ returned, same.cut returned ▸ uncut⟩
    result := fun r is cut live unrouted => by
      rw [same.cut (idle is)] at cut
      rw [same.ctxDone (idle is)] at live
      rw [same.accepted (idle is)]
      refine k.result r (same.pc ▸ is) cut live fun routed => unrouted ?_
      rw [same.serial]
      exact routed.mono same.captured
    unaccepted := fun is => by rw [same.accepted (idle is)]; exact k.unaccepted (same.pc ▸ is) }

/-- The same for a step that leaves the turn's fields. -/
theorem keeps (k : Judged e) (cleared : e.pc.cleared → e'.state.turnAccepted = false)
    (same : Outside e e' := by exact { }) (rejecting : e.pc = .rejecting → e'.cut = e.cut := by exact fun _ => rfl)
    (closed : e'.closed = e.closed := by rfl) (gone : e'.turnEndpointGone = e.turnEndpointGone := by rfl)
    (done : e'.turnDone = e.turnDone := by rfl)
    (current : e'.currentTurnEvents = e.currentTurnEvents := by rfl) : Judged e' := by
  refine k.outside cleared (fun holds mem => ?_) (by rw [done, current]; exact k.held) same rejecting
  rw [gone]
  exact (k.gone holds (closed ▸ mem)).imp_left fun routed => routed.mono same.captured

end Judged

/-- Only the start of a turn marks it as accepted. -/
theorem processNotification_turnAccepted (provider : Provider) (s : TurnState) {n : Notification} (no_start : n.isStart = false)
    (unmarked : s.turnAccepted = false) : (s.processNotification provider n).1.turnAccepted = false := by
  cases n with
  | turnStarted threadID turn => cases no_start
  | threadStatusChanged threadID status =>
    show (s.processThreadStatus threadID status).turnAccepted = false
    unfold TurnState.processThreadStatus
    split
    · exact unmarked
    · cases status <;> exact unmarked
  | turnCompleted threadID turn =>
    show (s.processTurnCompleted provider threadID turn).1.turnAccepted = false
    unfold TurnState.processTurnCompleted
    split
    · exact unmarked
    split
    · exact unmarked
    split
    · exact unmarked
    · rfl
  | tokenUsageUpdated turnID last =>
    show (s.processTokenUsage turnID last).turnAccepted = false
    unfold TurnState.processTokenUsage
    split <;> exact unmarked
  | _ => exact unmarked

theorem Pc.cleared.fails {pc : Pc} (cleared : pc.cleared) : pc.fails := by
  cases pc with
  | clearing why | draining why => cases why <;> first | rfl | cases cleared
  | judging | rejecting | deciding => rfl
  | _ => cases cleared

namespace Judged

section

variable (k : Judged e)
include k

/-- Every timely message leaves the end of the turn readable. -/
theorem dispatch (provider : Provider) (m : Message) (timely : Timely e (.receive m)) (asked : Asked e) :
    Judged (e.dispatch provider m) := by
  cases m with
  | response ok =>
    unfold Endpoint.dispatch
    dsimp only
    split
    next pending =>
      have asks := asked.pending pending
      have inFlight : e.pc.inFlight ≠ false := by
        cases pc : e.pc with
        | idle | returned => rw [pc] at asks; cases asks
        | _ => nofun
      exact k.keeps k.cleared { accepted := fun idle => absurd idle inFlight }
    · exact k
  | notification n own =>
    refine k.keeps (fun cleared => ?_) { accepted := fun idle => ?_ }
    · refine processNotification_turnAccepted provider e.state (Bool.eq_false_iff.2 fun is_start => ?_) (k.cleared cleared)
      have sound := timely is_start
      unfold Endpoint.failed at sound
      rw [Pc.cleared.fails cleared] at sound
      cases sound
    · show (e.accepted || (own && n.isStart && e.written && e.pc.inFlight)) = e.accepted
      rw [idle, Bool.and_false, Bool.or_false]
  | serverRequest rpcID method params =>
    have accepted : (e.state.processServerRequest rpcID method params).1.turnAccepted = e.state.turnAccepted := by
      unfold TurnState.processServerRequest
      split <;> rfl
    exact k.keeps fun cleared => accepted.trans (k.cleared cleared)
  | other => exact k

/-- The process exits. -/
theorem exits (judged : e.pc ≠ .rejecting) (pc : e'.pc = e.pc := by rfl) (serial : e'.serial = e.serial := by rfl)
    (own : e'.own = e.own := by rfl) (captured : e'.captured = e.captured := by rfl)
    (ctxDone : e'.ctxDone = e.ctxDone := by rfl) (cut : e'.cut = (e.cut || e.pc.inFlight) := by rfl)
    (accepted : e'.accepted = e.accepted := by rfl) (state : e'.state = e.state := by rfl)
    (closed : e'.closed = e.closed := by rfl) (gone : e'.turnEndpointGone = e.turnEndpointGone := by rfl)
    (done : e'.turnDone = e.turnDone := by rfl) (current : e'.currentTurnEvents = e.currentTurnEvents := by rfl) : Judged e' :=
  k.keeps (state ▸ k.cleared) ⟨pc, serial, own, captured ▸ fun _ mem => mem, fun _ => ctxDone, fun is => ctxDone ▸ is,
    fun idle => by rw [cut, idle, Bool.or_false], fun _ => accepted⟩ (fun is => absurd is judged) closed gone done current

theorem read (c : Coherent e) (timely : Timely e .read) : Judged e.read := by
  unfold Endpoint.read
  cases reader : e.reader with
  | ready | sending | done => exact k
  | routing events =>
    cases events with
    | nil => exact k.keeps k.cleared
    | cons ev rest =>
      dsimp only
      unfold Endpoint.capture
      split
      · exact k.keeps k.cleared
      · split
        · exact k.keeps k.cleared { captured := List.subset_cons_self _ _ }
        · exact k.keeps k.cleared
  | settling ch rest =>
    have quiet : e.reader.sends = none := by rw [reader]; rfl
    dsimp only
    unfold Endpoint.settle
    split
    · exact k.keeps k.cleared
    next is_current =>
      obtain ⟨own, -⟩ := c.current ch (not_not.1 is_current)
      have routed := c.settles ch rest reader
      rw [if_pos (c.no_senders quiet)]
      exact k.outside k.cleared (fun _ _ => .inl (own ▸ routed)) fun _ is => nomatch (is : none = some _)
  | settleDraining | signalDraining => exact absurd c.undrained (by rw [reader]; nofun)
  | clearing rest => exact k.keeps fun _ => rfl
  | reaping => exact k.exits (timely.1 reader)
  | signalling =>
    have quiet : e.reader.sends = none := by rw [reader]; rfl
    dsimp only
    unfold Endpoint.signal
    rw [if_pos (c.no_senders quiet)]
    unfold Endpoint.cutOff
    split
    · exact k.outside k.cleared (fun _ _ => .inr rfl) fun _ is => nomatch (is : none = some _)
    next no_current =>
      refine k.outside k.cleared (fun holds mem => ?_) fun _ is => nomatch (is : none = some _)
      have no_done : e.turnDone = none := by
        cases is : e.turnDone with
        | none => rfl
        | some ch =>
          have drained : e.pc.drains = false := by
            cases pc : e.pc with
            | draining => rw [pc] at holds; cases holds
            | _ => rfl
          rw [k.held ch is drained] at no_current
          exact absurd rfl no_current
      have mem : e.serial ∈ e.turnDone.toList ++ e.closed := mem
      rw [no_done] at mem
      exact k.gone holds mem
  | releasing | failing | closingStdin | closing => exact k.keeps k.cleared

/-- Every timely step leaves the end of the turn readable. -/
theorem step (c : Coherent e) (asked : Asked e) (provider : Provider) (a : Action) (timely : Timely e a) :
    Judged (e.step provider a).1 := by
  cases a with
  | submit turnID => exact k.submit c turnID
  | cancel =>
    refine k.keeps k.cleared { ctxDone := fun idle => ?_, ctxStays := fun is => ?_ }
    · show (e.ctxDone || e.pc.inFlight) = e.ctxDone
      rw [idle, Bool.or_false]
    · show (e.ctxDone || e.pc.inFlight)
      rw [is, Bool.true_or]
  | advance => exact k.advance c asked timely
  | write ok => exact k.write ok
  | take => exact k.take
  | giveUp => exact k.giveUp
  | die => exact k.exits timely
  | receive m =>
    show Judged (e.receive provider m)
    unfold Endpoint.receive
    split
    · exact k.dispatch provider m timely asked
    · exact k
  | eof =>
    unfold Endpoint.step
    dsimp only
    split
    · exact k.keeps k.cleared
    · exact k
  | read => exact k.read c timely
  | deliver =>
    show Judged e.deliver
    unfold Endpoint.deliver
    split
    · exact k.keeps k.cleared
    · exact k
  | report => exact k.report

end

end Judged

end

/-- The death of the process is classified by acceptance, in every run of timely steps. -/
theorem death_classified (provider : Provider) (resuming : Bool) (resumeID threadID model : String)
    {trace : List (Event Endpoint Action Unit)} {e : Endpoint}
    (run : Run (Endpoint.step · provider) (.launched resuming resumeID threadID model) trace e)
    (timely : ∀ event ∈ trace, Timely event.before event.input) : Classified provider e := by
  obtain ⟨c, served, asked, judged⟩ : Coherent e ∧ Served e ∧ Asked e ∧ Judged e :=
    run.guarded (P := fun e => Coherent e ∧ Served e ∧ Asked e ∧ Judged e)
      ⟨coherent_launched resuming resumeID threadID model, ⟨nofun, nofun, nofun⟩,
        asked_launched resuming resumeID threadID model, judged_launched resuming resumeID threadID model⟩
      (fun e a ⟨c, served, asked, judged⟩ allowed => ⟨c.step provider a, served.step c provider a,
        asked.step provider a allowed, judged.step c asked provider a allowed⟩) timely
  refine ⟨judged.result, fun cut ev mem => ?_, fun _ => served.returns provider c, fun accepted r returned => ?_⟩
  · rw [(judged.own ev mem).2] at cut
    cases cut
  · intro rounds attempt left round
    unfold submitPrompt
    rw [round]
    cases r with
    | endpointGone =>
      rw [judged.unaccepted returned] at accepted
      cases accepted
    | _ => rfl

/-- A turn that is accepted and whose process exits before it ends. -/
def interruptedTurn : List Action :=
  [.submit "t1", .advance, .advance, .advance, .advance, .advance, .write true, .receive (.response true), .take, .advance,
    .die, .eof, .read, .read, .read, .read, .read, .take, .advance]

/-- Its `Submit` reports an interruption. -/
theorem interrupted_turn_classified : Classified plainProvider
      (finalState (Endpoint.step · plainProvider) (.launched false "" "th" "gpt") interruptedTurn) :=
  death_classified plainProvider false "" "th" "gpt" (Run.start.inputs interruptedTurn) (by decide)

/-- The turn starts and the process exits before it has answered the request. -/
def unansweredTurn : List Action :=
  [.submit "t1", .advance, .advance, .advance, .advance, .advance, .write true,
    .receive (.notification (.turnStarted "th" ⟨"n1", .other "inProgress", none⟩) true), .read, .deliver, .read, .read,
    .die, .eof, .read, .read, .read, .read, .read, .take, .advance, .advance, .advance, .advance]

/-- The turn that the runtime accepted is reported as one that it did not. -/
theorem accepted_turn_reported_gone : ¬Classified plainProvider
      (finalState (Endpoint.step · plainProvider) (.launched false "" "th" "gpt") unansweredTurn) := by
  intro classified
  have gone : (finalState (Endpoint.step · plainProvider) (.launched false "" "th" "gpt") unansweredTurn).pc =
        .returned .endpointGone ∧
      (finalState (Endpoint.step · plainProvider) (.launched false "" "th" "gpt") unansweredTurn).accepted = true := by
    decide
  have once := classified.once gone.2 _ gone.1 (fun _ => some .endpointGone) 0 1 rfl
  exact absurd once (by decide)

end Pagnet.Codex
