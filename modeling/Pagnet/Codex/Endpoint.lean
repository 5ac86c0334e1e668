import Pagnet.Codex.State
import Pagnet.Data.Run

/-!
# One Codex endpoint

`codexEndpoint` of `internal/runtime/codex_persistent.go`, without a native batcher
or observer. `Submit` of a prompt and the reader of the endpoint run side by side;
the Manager makes one prompt `Submit` at a time. A step of the model is one lock
section, one channel operation or one decision of the environment. The channels of a
`Submit` (its events and its `turnDone`) are named by its serial number, and so is its
one JSON-RPC request. A send on the channel of the events blocks until the channel has
room or its consumer receives, so it is a step of its own.
-/

namespace Pagnet.Codex

open Session

/-- What `Submit` returns. -/
inductive Result
  | ok
  | busy
  | endpointGone
  | turnInterrupted
  | ctxErr
  deriving DecidableEq, Repr

/-- Why a registration is withdrawn. -/
inductive Why
  | cancelled
  | failed
  deriving DecidableEq, Repr

/-- Where the prompt `Submit` stands. -/
inductive Pc
  | idle
  /-- before the endpoint map is read -/
  | lookup
  /-- before `e.live()` -/
  | probing
  /-- before the section that takes the turn's fields -/
  | registering
  /-- before `beginMachineTurn` -/
  | beginning
  /-- before the request enters `pending` -/
  | requesting
  /-- before the write of `turn/start` -/
  | writing
  /-- in the select over the response and the context -/
  | waiting
  /-- before `dropPending` -/
  | dropping (why : Why)
  /-- before `markTurnAccepted` -/
  | accepting
  /-- in the select over `turnDone` and the context -/
  | awaiting
  /-- before `turnEndpointGone` is read -/
  | settled
  /-- before `clearMachineTurn` -/
  | withdrawing (why : Why)
  /-- before `clearTurn` -/
  | clearing (why : Why)
  /-- in the wait of `clearTurn` -/
  | draining (why : Why)
  /-- before the `e.live()` that tells a rejection from a death -/
  | judging
  /-- before it sends the failure of a rejected turn -/
  | rejecting
  /-- before `isTurnAccepted` -/
  | deciding
  | returned (r : Result)
  deriving DecidableEq, Repr

/-- Where the reader stands; it has a list of events that it still has to route. -/
inductive Reader
  | ready
  | routing (events : List SessionEvent)
  /-- it captured channel `ch`, before the send -/
  | sending (ch : Nat) (ev : SessionEvent) (rest : List SessionEvent)
  /-- before `turnSenders--` -/
  | releasing (ch : Nat) (ev : SessionEvent) (rest : List SessionEvent)
  /-- before `settleTurn` -/
  | settling (ch : Nat) (rest : List SessionEvent)
  /-- in the wait of `settleTurn` -/
  | settleDraining (rest : List SessionEvent)
  /-- before the `clearMachineTurn` that follows a settlement -/
  | clearing (rest : List SessionEvent)
  /-- at the end of the stream, before the process is reaped and its record dropped -/
  | reaping
  /-- before the pending requests are failed -/
  | failing
  /-- before the turn in flight is signalled -/
  | signalling
  /-- in the wait of the signal section -/
  | signalDraining
  /-- before stdin is closed -/
  | closingStdin
  /-- before `readerDone` is closed -/
  | closing
  | done
  deriving DecidableEq, Repr

/-- The endpoint, the `Submit` in flight and the reader. The last fields are history. -/
structure Endpoint where
  state : TurnState
  /-- the record stands in the driver's endpoint map -/
  listed : Bool
  alive : Bool
  stdinOpen : Bool
  readerDone : Bool
  /-- the request of the `Submit` is in `pending` -/
  pending : Bool
  /-- the buffer of its waiter: a result, or an error -/
  waiter : Option Bool
  currentTurnID : String
  currentTurnEvents : Option Nat
  turnDone : Option Nat
  closed : List Nat
  turnEndpointGone : Bool
  turnSenders : Nat
  serial : Nat
  turnID : String
  ctxDone : Bool
  pc : Pc
  reader : Reader
  /-- the turn ids given to a `Submit` so far -/
  used : List String
  /-- the turn that began and neither ended nor was withdrawn by its own `Submit` -/
  registered : Option String
  /-- the request of the `Submit` in flight was written -/
  written : Bool
  /-- the runtime's acceptance of the turn in flight was processed -/
  accepted : Bool
  /-- the process exited while the `Submit` was in flight -/
  cut : Bool
  /-- the events captured and sent by the reader and those sent by `Submit`, with their channel -/
  captured : List (Nat × SessionEvent)
  sent : List (Nat × SessionEvent)
  own : List (Nat × SessionEvent)

/-- An endpoint after its handshake. -/
def Endpoint.launched (resuming : Bool) (resumeID threadID model : String) : Endpoint where
  state := ((TurnState.new resuming resumeID).setThread threadID model).1
  listed := true
  alive := true
  stdinOpen := true
  readerDone := false
  pending := false
  waiter := none
  currentTurnID := ""
  currentTurnEvents := none
  turnDone := none
  closed := []
  turnEndpointGone := false
  turnSenders := 0
  serial := 0
  turnID := ""
  ctxDone := false
  pc := .idle
  reader := .ready
  used := []
  registered := none
  written := false
  accepted := false
  cut := false
  captured := []
  sent := []
  own := []

/-- What the reader finds on stdout: the response to the request in flight, a
notification (whether it is of the native turn that this request started), a server
request, or a message without effect. -/
inductive Message
  | response (ok : Bool)
  | notification (n : Notification) (own : Bool)
  | serverRequest (rpcID : String) (method : RequestMethod) (params : Params)
  | other
  deriving DecidableEq, Repr

inductive Action
  /-- the Manager submits a prompt -/
  | submit (turnID : String)
  /-- the context of the `Submit` is cancelled -/
  | cancel
  /-- the next section of `Submit` outside its selects and its write -/
  | advance
  | write (ok : Bool)
  /-- a select takes the response, or the closed `turnDone` -/
  | take
  /-- a select takes the context -/
  | giveUp
  /-- the process exits -/
  | die
  | receive (m : Message)
  /-- the reader finds the end of the stream -/
  | eof
  /-- the next section of the reader outside its send -/
  | read
  /-- the channel takes the event that the reader sends -/
  | deliver
  /-- the channel takes the failure that `Submit` itself sends -/
  | report
  deriving DecidableEq, Repr

def Pc.inFlight : Pc → Bool
  | .idle | .returned _ => false
  | _ => true

/-- The next place after `clearTurn`. -/
def Why.after : Why → Pc
  | .cancelled => .returned .ctxErr
  | .failed => .judging

def Notification.isStart : Notification → Bool
  | .turnStarted _ _ => true
  | _ => false

/-- The registration after events: the terminal event of the registered turn ends it. -/
def ended (events : List SessionEvent) (registered : Option String) : Option String :=
  if events.any fun ev => isTerminalSessionEvent ev.type && registered = some ev.turnID then none else registered

namespace Endpoint

variable (e : Endpoint)

/-- A new prompt `Submit`. -/
def submit (turnID : String) : Endpoint :=
  if e.pc.inFlight then e
  else
    { e with
      serial := e.serial + 1, turnID := turnID, ctxDone := false, pc := .lookup, used := turnID :: e.used
      written := false, accepted := false, cut := !e.alive }

/-- `close(e.turnDone)` when it is not nil. -/
def closeDone : Endpoint := { e with turnDone := none, closed := e.turnDone.toList ++ e.closed }

/-- The turn's fields are free for the next turn. -/
def release : Endpoint := { e with currentTurnEvents := none, currentTurnID := "" }

/-- The process is gone. -/
def exit : Endpoint := { e with alive := false, cut := e.cut || e.pc.inFlight }

/-- The failure that `Submit` itself reports for a rejected turn. -/
def rejection : SessionEvent :=
  { type := .turnFailed, sessionID := e.state.threadID, turnID := e.turnID, failureKind := some .processError }

/-- The section at `pc`. -/
def advance : Endpoint :=
  match e.pc with
  | .lookup => { e with pc := if e.listed then .probing else .returned .endpointGone }
  | .probing => { e with pc := if e.readerDone then .returned .endpointGone else .registering }
  | .registering =>
    if e.currentTurnEvents.isSome then { e with pc := .returned .busy }
    else
      { e with
        currentTurnID := e.turnID, currentTurnEvents := some e.serial, turnEndpointGone := false
        turnDone := some e.serial, pc := .beginning }
  | .beginning => { e with state := e.state.beginMachineTurn e.turnID, registered := some e.turnID, pc := .requesting }
  | .requesting => { e with pending := true, waiter := none, pc := .writing }
  | .dropping why => { e with pending := false, pc := .withdrawing why }
  | .accepting => { e with state := e.state.markTurnAccepted, pc := .awaiting }
  | .settled => { e with pc := .returned (if e.turnEndpointGone then .turnInterrupted else .ok) }
  | .withdrawing why => { e with state := e.state.clearMachineTurn, registered := none, pc := .clearing why }
  | .clearing why =>
    if e.turnSenders = 0 then { e.release.closeDone with pc := why.after } else { e.release with pc := .draining why }
  | .draining why => if e.turnSenders = 0 then { e.closeDone with pc := why.after } else e
  | .judging => { e with pc := if e.readerDone then .deciding else .rejecting }
  | .deciding => { e with pc := .returned (if e.state.turnAccepted then .turnInterrupted else .endpointGone) }
  | _ => e

/-- The failure of a rejected turn is sent. -/
def report : Endpoint :=
  match e.pc with
  | .rejecting => { e with own := (e.serial, e.rejection) :: e.own, pc := .returned .ok }
  | _ => e

/-- A write succeeds only while the process is there to read it. -/
def write (ok : Bool) : Endpoint :=
  match e.pc with
  | .writing =>
    if ok && e.alive && e.stdinOpen then { e with written := true, pc := .waiting }
    else { e with pc := .dropping .failed }
  | _ => e

def take : Endpoint :=
  match e.pc, e.waiter with
  | .waiting, some true => { e with pc := .accepting }
  | .waiting, some false => { e with pc := .withdrawing .failed }
  | .awaiting, _ => if e.serial ∈ e.closed then { e with pc := .settled } else e
  | _, _ => e

def giveUp : Endpoint :=
  match e.pc, e.ctxDone with
  | .waiting, true => { e with pc := .dropping .cancelled }
  | .awaiting, true => { e with pc := .withdrawing .cancelled }
  | _, _ => e

variable (provider : Provider)

/-- `dispatchMessage`: a response goes to its waiter, the rest to the state. -/
def dispatch : Message → Endpoint
  | .response ok =>
    if e.pending then { e with pending := false, waiter := e.waiter.or (some ok), accepted := e.accepted || ok } else e
  | .notification n own =>
    let (s, events) := e.state.processNotification provider n
    { e with
      state := s, reader := .routing events, registered := ended events e.registered
      accepted := e.accepted || (own && n.isStart && e.written && e.pc.inFlight) }
  | .serverRequest rpcID method params =>
    let (s, events) := e.state.processServerRequest rpcID method params
    { e with state := s, reader := .routing events }
  | .other => e

def receive (m : Message) : Endpoint :=
  match e.reader with
  | .ready => e.dispatch provider m
  | _ => e

/-- The capture section of `routeCapturedEvent`. -/
def capture (ev : SessionEvent) (rest : List SessionEvent) : Endpoint :=
  match e.currentTurnEvents with
  | none => { e with reader := .routing rest }
  | some ch =>
    if ev.turnID = "" ∨ ev.turnID = e.currentTurnID then
      { e with turnSenders := e.turnSenders + 1, captured := (ch, ev) :: e.captured, reader := .sending ch ev rest }
    else { e with reader := .routing rest }

/-- The section of `settleTurn`. -/
def settle (ch : Nat) (rest : List SessionEvent) : Endpoint :=
  if e.currentTurnEvents ≠ some ch then { e with reader := .clearing rest }
  else if e.turnSenders = 0 then { e.release.closeDone with reader := .clearing rest }
  else { e.release with reader := .settleDraining rest }

/-- A turn in flight is cut off by the death of the process, not settled. -/
def cutOff : Endpoint := if e.currentTurnEvents.isSome then { e.release with turnEndpointGone := true } else e

/-- The signal section of `cleanupOnExit`. -/
def signal : Endpoint :=
  if e.turnSenders = 0 then { e.cutOff.closeDone with reader := .closingStdin }
  else { e.cutOff with reader := .signalDraining }

/-- The section at the reader's place. -/
def read : Endpoint :=
  match e.reader with
  | .routing [] => { e with reader := .ready }
  | .routing (ev :: rest) => e.capture ev rest
  | .releasing ch ev rest =>
    { e with
      turnSenders := e.turnSenders - 1
      reader := if isTerminalSessionEvent ev.type then .settling ch rest else .routing rest }
  | .settling ch rest => e.settle ch rest
  | .settleDraining rest => if e.turnSenders = 0 then { e.closeDone with reader := .clearing rest } else e
  | .clearing rest => { e with state := e.state.clearMachineTurn, reader := .routing rest }
  | .reaping => { e.exit with listed := false, reader := .failing }
  | .failing =>
    { e with
      pending := false, waiter := if e.pending then e.waiter.or (some false) else e.waiter, reader := .signalling }
  | .signalling => e.signal
  | .signalDraining => if e.turnSenders = 0 then { e.closeDone with reader := .closingStdin } else e
  | .closingStdin => { e with stdinOpen := false, reader := .closing }
  | .closing => { e with readerDone := true, reader := .done }
  | .ready | .sending .. | .done => e

/-- The reader's event is sent. -/
def deliver : Endpoint :=
  match e.reader with
  | .sending ch ev rest => { e with sent := (ch, ev) :: e.sent, reader := .releasing ch ev rest }
  | _ => e

def step : Action → Endpoint × Unit
  | .submit turnID => (e.submit turnID, ())
  | .cancel => ({ e with ctxDone := e.ctxDone || e.pc.inFlight }, ())
  | .advance => (e.advance, ())
  | .write ok => (e.write ok, ())
  | .take => (e.take, ())
  | .giveUp => (e.giveUp, ())
  | .die => (e.exit, ())
  | .receive m => (e.receive provider m, ())
  | .eof => (if e.reader = .ready then { e with reader := .reaping } else e, ())
  | .read => (e.read, ())
  | .deliver => (e.deliver, ())
  | .report => (e.report, ())

end Endpoint

end Pagnet.Codex
