import Pagnet.Data.Run
import Pagnet.Data.Lru
import Pagnet.Data.Relation
import Pagnet.Sdk.Delivery

/-!
# Invocations on the target side

A dispatch goroutine registers an invocation, runs its handler and completes it; a
handler may also complete it later through its handle. A result stays in
`pendingResults`, is sent again after a while or after a reconnect, and is dropped by
an acknowledgement, which then moves the invocation to the memory of completed ones.
The in-flight map, the completed map and the seen set are guarded by one mutex, the
pending results by another one. A step of the model is one lock section, one atomic
operation or one decision of the environment, of one goroutine.
-/

namespace Pagnet.Sdk.Invocation

def maxInvocationResultWireBytes : Nat := 512 * 1024

def maxPendingInvocationBytes : Nat := 32 * 1024 * 1024

def maxCompletedInvocationBytes : Nat := 8 * 1024 * 1024

def maxActiveInvocations : Nat := maxPendingInvocationBytes / maxInvocationResultWireBytes

/-- The result message of an invocation; the envelope and its AAD as the text they cross as. -/
structure ResultPayload where
  reconcile : Bool
  dispatchID : String
  invocationID : String
  ok : Bool
  envelope : String
  aad : String
  publicResultCode : String
  deriving DecidableEq, Repr

/-- The acknowledgement of a result message. -/
structure ResultAck where
  invocationID : String
  dispatchID : String
  recorded : Bool
  publicResultCode : String
  deriving DecidableEq, Repr

/-- A finished invocation's result, kept to be sent again. `origin` is the run whose completion
made it; no step reads it. -/
structure CompletedInvocation where
  result : ResultPayload
  generation : Int
  retryAt : Int
  attempts : Int
  encodedBytes : Nat
  origin : Nat
  deriving DecidableEq, Repr

/-- An entry of `pendingResults`. -/
structure Pending where
  id : String
  comp : CompletedInvocation
  deriving DecidableEq, Repr

/-- An entry of `inflightInvocations`: the `asyncInvocation` that goroutine `run` allocated. -/
structure Inflight where
  id : String
  run : Nat
  deriving DecidableEq, Repr

/-- Where a goroutine of `handleInvocationDispatch` stands. -/
inductive Stage
  | idle
  | arrived
  /-- a cached result is about to be sent again -/
  | resending (comp : CompletedInvocation)
  /-- the dispatch is about to be deferred -/
  | deferring
  | registered
  | decrypted
  /-- the accept message could not be sent -/
  | refused
  | accepted
  | running
  /-- in `failInvocation` or `completeInvocation` -/
  | completing
  /-- the handler returned `ErrAsync` -/
  | asynchronous
  | returned
  deriving DecidableEq, Repr

/-- A dispatch goroutine, with the `asyncInvocation` it allocates. -/
structure Dispatch where
  invocationID : String
  dispatchID : String
  acceptedGeneration : Int
  resultSubmitted : Bool
  /-- the handler was started, so it knows the invocation's handle -/
  started : Bool
  stage : Stage
  deriving DecidableEq, Repr

/-- What `completeInvocationWith` made of a handler's outcome. -/
structure Outcome where
  ok : Bool
  code : String
  envelope : String
  aad : String
  deriving DecidableEq, Repr

/-- Where a call of `completeInvocation` or `completeInvocationWith` stands. -/
inductive CallStage
  | idle
  /-- before the generations are compared -/
  | checking
  /-- the server is asked for the invocation's state -/
  | asking
  /-- before the in-flight entry is read -/
  | finding
  /-- before the compare-and-swap of `resultSubmitted` -/
  | submitting (original : Option Nat)
  | encoding (original : Nat)
  /-- before the in-flight entry is read again -/
  | confirming (original : Nat) (outcome : Outcome)
  | building (original ai : Nat) (outcome : Outcome)
  /-- before the result enters `pendingResults` -/
  | retaining (original : Nat) (comp : CompletedInvocation)
  | sending (comp : CompletedInvocation)
  /-- before the deferred reset of `resultSubmitted` -/
  | releasing (original : Nat)
  | returned
  deriving DecidableEq, Repr

/-- A completion of the run `run`. -/
structure Call where
  run : Nat
  code : String
  failed : Bool
  stage : CallStage
  deriving DecidableEq, Repr

/-- Who completes: a dispatch goroutine itself, or the `n`-th call of a handler through its handle. -/
inductive Agent
  | dispatch (i : Nat)
  | handle (n : Nat)
  deriving DecidableEq, Repr

/-- The parts of a client that invocations share, and its goroutines. -/
structure Client where
  inflightInvocations : Relation Inflight String Inflight.id
  completedInvocations : LruMap String CompletedInvocation
  seenInvocations : LruSet String
  pendingResults : Relation Pending String Pending.id
  connGeneration : Int
  dispatches : Nat → Dispatch
  calls : Agent → Call
  /-- what each call of `retryPendingResults` has still to send -/
  retries : Nat → List CompletedInvocation
  /-- acknowledgements between their two lock sections -/
  acks : Nat → Option Pending

/-- A client that has received nothing. -/
def Client.new : Client where
  inflightInvocations := .empty
  completedInvocations := .empty defaultSeenCap maxCompletedInvocationBytes
  seenInvocations := .empty defaultSeenCap
  pendingResults := .empty
  connGeneration := 0
  dispatches := fun _ => ⟨"", "", 0, false, false, .idle⟩
  calls := fun _ => ⟨0, "", false, .idle⟩
  retries := fun _ => []
  acks := fun _ => none

/-- What stands between the accept message and the handler. -/
inductive Lookup
  | handler
  | capabilityNotFound
  | capabilityVersionMismatch
  | inputValidationFailed
  | inputDecodeFailed
  deriving DecidableEq, Repr

/-- The public code of a failed lookup. -/
def Lookup.code : Lookup → Option String
  | .handler => none
  | .capabilityNotFound => some "capability_not_found"
  | .capabilityVersionMismatch => some "capability_version_mismatch"
  | .inputValidationFailed => some "input_validation_failed"
  | .inputDecodeFailed => some "input_decode_failed"

/-- How a handler returned. -/
inductive Handled
  | async
  | error
  | result
  deriving DecidableEq, Repr

/-- The server's record of an invocation; the states that are not told apart are one. -/
inductive ServerState
  | completed
  | cancelled
  | failed (publicResultCode : String)
  | other
  deriving DecidableEq, Repr

/-- The states after which the result is not submitted. -/
def ServerState.terminal : ServerState → Bool
  | .completed | .cancelled => true
  | .failed code => code != "outcome_unknown"
  | .other => false

/-- What encoding finds: whether the result is JSON, meets the output schema, and is small enough. -/
structure Encoding where
  marshals : Bool
  valid : Bool
  small : Bool
  deriving DecidableEq, Repr

/-- Whether the result message reports success, and its code, before the size check. -/
def verdict (failed : Bool) (code : String) (encoding : Encoding) : Bool × String :=
  if failed then (false, code)
  else if !encoding.marshals then (false, "output_encode_failed")
  else if !encoding.valid then (false, "output_validation_failed")
  else (true, code)

/-- Whether the result message reports success, and its code. -/
def publicOutcome (failed : Bool) (code : String) (encoding : Encoding) : Bool × String :=
  if encoding.small then verdict failed code encoding else (false, "output_too_large")

/-- One lock section, one atomic operation or one decision of the environment. -/
inductive Action
  | dispatch (i : Nat) (invocationID dispatchID : String)
  | register (i : Nat)
  | resend (i : Nat) (sent : Bool)
  | deferred (i : Nat) (sent : Bool)
  | decrypt (i : Nat) (ok : Bool)
  | accept (i : Nat) (sent : Bool)
  | withdraw (i : Nat)
  | lookup (i : Nat) (found : Lookup)
  | handled (i : Nat) (outcome : Handled)
  | complete (n run : Nat) (failed : Bool)
  | check (a : Agent)
  | ask (a : Agent) (answer : Option ServerState)
  | find (a : Agent)
  | submit (a : Agent)
  | encode (a : Agent) (encoding : Encoding) (encrypted : Option (String × String))
  | confirm (a : Agent)
  | build (a : Agent) (wire : Option Nat) (now : Int)
  | retain (a : Agent)
  | send (a : Agent) (sent : Bool)
  | release (a : Agent)
  | retry (n : Nat) (force : Bool) (now : Int)
  | retrySend (n : Nat) (sent : Bool)
  | acknowledge (n : Nat) (ack : ResultAck)
  | mark (n : Nat)
  | reconnect
  deriving DecidableEq, Repr

/-- What a step does that others can see: messages, and the start of a handler. -/
inductive Output
  | nothing
  | accepted (run : Nat)
  | deferred (invocationID dispatchID : String)
  | started (run : Nat)
  | result (comp : CompletedInvocation)
  deriving DecidableEq, Repr

/-- A message that may fail to be sent. -/
def Output.when (sent : Bool) (output : Output) : Output := if sent then output else .nothing

namespace Client

variable (c : Client)

/-- The run whose registration is the in-flight entry of an invocation. -/
def inflight (id : String) : Option Nat := (c.inflightInvocations.find? id).map Inflight.run

variable (i : Nat)

def putDispatch (d : Dispatch) : Client := { c with dispatches := Function.update c.dispatches i d }

def move (stage : Stage) : Client := c.putDispatch i { c.dispatches i with stage }

variable (a : Agent)

def putCall (call : Call) : Client := { c with calls := Function.update c.calls a call }

def goOn (stage : CallStage) : Client := c.putCall a { c.calls a with stage }

def setSubmitted (r : Nat) (value : Bool) : Client := c.putDispatch r { c.dispatches r with resultSubmitted := value }

def dropInflight (id : String) : Client :=
  { c with inflightInvocations := c.inflightInvocations.filter fun e => e.id ≠ id }

/-- A dispatch frame with a dispatch id reaches goroutine `i`. -/
def dispatch (invocationID dispatchID : String) : Client × Output :=
  match (c.dispatches i).stage with
  | .idle =>
    if dispatchID = "" then (c, .nothing)
    else (c.putDispatch i ⟨invocationID, dispatchID, 0, false, false, .arrived⟩, .nothing)
  | _ => (c, .nothing)

/-- A cached result goes to the identical dispatch only. -/
def answerCached (comp : CompletedInvocation) : Client :=
  { c.move i (if comp.result.dispatchID = (c.dispatches i).dispatchID then .resending comp else .returned) with
    completedInvocations := (c.completedInvocations.get (c.dispatches i).invocationID).2 }

/-- A new `asyncInvocation` enters the in-flight map. -/
def admitted : Client :=
  { c.putDispatch i { c.dispatches i with
      acceptedGeneration := c.connGeneration, resultSubmitted := false, stage := .registered } with
    inflightInvocations := c.inflightInvocations.upsert ⟨(c.dispatches i).invocationID, i⟩ }

/-- An invocation that is neither completed nor seen nor in flight is registered, if there is room. -/
def enter : Client :=
  if c.seenInvocations.contains (c.dispatches i).invocationID then c.move i .returned
  else if c.inflight (c.dispatches i).invocationID ≠ none then c.move i .returned
  else if maxActiveInvocations ≤ c.inflightInvocations.rows.length then c.move i .deferring
  else c.admitted i

/-- The section of `handleInvocationDispatch` under `invMu`. -/
def register : Client × Output :=
  match (c.dispatches i).stage with
  | .arrived =>
    match c.completedInvocations.find? (c.dispatches i).invocationID with
    | some comp => (c.answerCached i comp, .nothing)
    | none => (c.enter i, .nothing)
  | _ => (c, .nothing)

def resend (sent : Bool) : Client × Output :=
  match (c.dispatches i).stage with
  | .resending comp => (c.move i .returned, .when sent (.result comp))
  | _ => (c, .nothing)

def deferred (i : Nat) (sent : Bool) : Client × Output :=
  match (c.dispatches i).stage with
  | .deferring =>
    (c.move i .returned, .when sent (.deferred (c.dispatches i).invocationID (c.dispatches i).dispatchID))
  | _ => (c, .nothing)

/-- `failInvocation`: the dispatch goroutine completes its invocation with an error. -/
def failInvocation (code : String) : Client :=
  (c.move i .completing).putCall (.dispatch i) ⟨i, code, true, .finding⟩

def decrypt (ok : Bool) : Client × Output :=
  match (c.dispatches i).stage, ok with
  | .registered, true => (c.move i .decrypted, .nothing)
  | .registered, false => (c.failInvocation i "input_decrypt_failed", .nothing)
  | _, _ => (c, .nothing)

/-- The accept message is sent before the handler starts. -/
def accept (sent : Bool) : Client × Output :=
  match (c.dispatches i).stage, sent with
  | .decrypted, true => (c.move i .accepted, .accepted i)
  | .decrypted, false => (c.move i .refused, .nothing)
  | _, _ => (c, .nothing)

/-- Without an accept message the registration is withdrawn. -/
def withdraw : Client × Output :=
  match (c.dispatches i).stage with
  | .refused => ((c.dropInflight (c.dispatches i).invocationID).move i .returned, .nothing)
  | _ => (c, .nothing)

/-- The handler lookup, the version check and the input checks; then the handler starts. -/
def lookup (found : Lookup) : Client × Output :=
  match (c.dispatches i).stage with
  | .accepted =>
    match found.code with
    | some code => (c.failInvocation i code, .nothing)
    | none => (c.putDispatch i { c.dispatches i with started := true, stage := .running }, .started i)
  | _ => (c, .nothing)

/-- The handler returned. -/
def handled (outcome : Handled) : Client × Output :=
  match (c.dispatches i).stage, outcome with
  | .running, .async => (c.move i .asynchronous, .nothing)
  | .running, .error => (c.failInvocation i "handler_error", .nothing)
  | .running, .result =>
    ((c.move i .completing).putCall (.dispatch i) ⟨i, "completed", false, .checking⟩, .nothing)
  | _, _ => (c, .nothing)

/-- `Complete` or `CompleteError` through the handle that the handler of `run` was given. -/
def complete (n run : Nat) (failed : Bool) : Client × Output :=
  match (c.calls (.handle n)).stage, (c.dispatches run).started with
  | .idle, true =>
    let stage := if c.inflight (c.dispatches run).invocationID = none then .returned else .checking
    (c.putCall (.handle n) ⟨run, if failed then "handler_error" else "completed", failed, stage⟩, .nothing)
  | _, _ => (c, .nothing)

/-- Did the session drop after the accept? -/
def check : Client × Output :=
  match (c.calls a).stage with
  | .checking =>
    (c.goOn a (if (c.dispatches (c.calls a).run).acceptedGeneration = c.connGeneration then .finding else .asking),
      .nothing)
  | _ => (c, .nothing)

/-- The server's state of the invocation; no answer when the request failed. -/
def ask (answer : Option ServerState) : Client × Output :=
  match (c.calls a).stage with
  | .asking => (c.goOn a (if answer.any ServerState.terminal then .returned else .finding), .nothing)
  | _ => (c, .nothing)

/-- The invocation that a call completes. -/
def target : String := (c.dispatches (c.calls a).run).invocationID

/-- `completeInvocationWith` reads the in-flight entry of the invocation's id. -/
def find : Client × Output :=
  match (c.calls a).stage with
  | .finding => (c.goOn a (.submitting (c.inflight (c.target a))), .nothing)
  | _ => (c, .nothing)

/-- The compare-and-swap of the entry's `resultSubmitted`. -/
def submit : Client × Output :=
  match (c.calls a).stage with
  | .submitting none => (c.goOn a .returned, .nothing)
  | .submitting (some original) =>
    if (c.dispatches original).resultSubmitted then (c.goOn a .returned, .nothing)
    else ((c.setSubmitted original true).goOn a (.encoding original), .nothing)
  | _ => (c, .nothing)

/-- The outcome is encoded, validated and encrypted. -/
def encode (encoding : Encoding) (encrypted : Option (String × String)) : Client × Output :=
  match (c.calls a).stage, encrypted with
  | .encoding original, none => (c.goOn a (.releasing original), .nothing)
  | .encoding original, some (envelope, aad) =>
    let outcome := publicOutcome (c.calls a).failed (c.calls a).code encoding
    (c.goOn a (.confirming original ⟨outcome.1, outcome.2, envelope, aad⟩), .nothing)
  | _, _ => (c, .nothing)

/-- The in-flight entry is read again. -/
def confirm : Client × Output :=
  match (c.calls a).stage with
  | .confirming original outcome =>
    match c.inflight (c.target a) with
    | none => (c.goOn a (.releasing original), .nothing)
    | some ai =>
      if (c.dispatches ai).dispatchID = "" then (c.goOn a (.releasing original), .nothing)
      else (c.goOn a (.building original ai outcome), .nothing)
  | _ => (c, .nothing)

/-- The result message of an outcome. -/
def payload (ai : Nat) (outcome : Outcome) : ResultPayload where
  reconcile := decide ((c.dispatches ai).acceptedGeneration ≠ c.connGeneration)
  dispatchID := (c.dispatches ai).dispatchID
  invocationID := c.target a
  ok := outcome.ok
  envelope := outcome.envelope
  aad := outcome.aad
  publicResultCode := outcome.code

/-- The result message is built; `wire` is its encoded length, if it can be encoded. -/
def build (wire : Option Nat) (now : Int) : Client × Output :=
  match (c.calls a).stage, wire with
  | .building original _ _, none => (c.goOn a (.releasing original), .nothing)
  | .building original ai outcome, some bytes =>
    if maxInvocationResultWireBytes - 1024 < bytes then (c.goOn a (.releasing original), .nothing)
    else (c.goOn a (.retaining original ⟨c.payload a ai outcome, (c.dispatches ai).acceptedGeneration,
      now + 5000000000, 1, bytes, (c.calls a).run⟩), .nothing)
  | _, _ => (c, .nothing)

/-- The result enters `pendingResults` under the invocation's id. -/
def retain : Client × Output :=
  match (c.calls a).stage with
  | .retaining _ comp =>
    ({ c.goOn a (.sending comp) with pendingResults := c.pendingResults.upsert ⟨c.target a, comp⟩ }, .nothing)
  | _ => (c, .nothing)

def send (sent : Bool) : Client × Output :=
  match (c.calls a).stage with
  | .sending comp => (c.goOn a .returned, .when sent (.result comp))
  | _ => (c, .nothing)

/-- The deferred reset of a call that did not submit. -/
def release : Client × Output :=
  match (c.calls a).stage with
  | .releasing original => ((c.setSubmitted original false).goOn a .returned, .nothing)
  | _ => (c, .nothing)

end Client

/-- The next attempt of a pending result. -/
def CompletedInvocation.again (comp : CompletedInvocation) (connGeneration now : Int) : CompletedInvocation :=
  let attempts := min (comp.attempts + 1) 5
  { comp with
    result := { comp.result with reconcile := decide (comp.generation ≠ connGeneration) }
    attempts := attempts
    retryAt := now + 5 * 2 ^ (min (attempts - 1) 4).toNat * 1000000000 }

def Pending.again (connGeneration now : Int) (p : Pending) : Pending := { p with comp := p.comp.again connGeneration now }

theorem Pending.again_id (connGeneration now : Int) (p : Pending) : (p.again connGeneration now).id = p.id := rfl

/-- The order in which pending results are sent again. -/
def Pending.before (p q : Pending) : Bool :=
  if p.comp.retryAt = q.comp.retryAt then decide (p.id ≤ q.id) else decide (p.comp.retryAt < q.comp.retryAt)

namespace Client

variable (c : Client)

/-- At most 32 pending results that are due, the earliest first. -/
def candidates (force : Bool) (now : Int) : List Pending :=
  ((c.pendingResults.rows.filter fun p => force || decide (p.comp.retryAt ≤ now)).mergeSort Pending.before).take 32

/-- The section of `retryPendingResults` under `pendingMu`. -/
def retry (n : Nat) (force : Bool) (now : Int) : Client × Output :=
  match c.retries n with
  | [] =>
    ({ c with
      pendingResults := c.pendingResults.modify (fun p => p ∈ c.candidates force now)
        (Pending.again c.connGeneration now) (Pending.again_id c.connGeneration now)
      retries := Function.update c.retries n
        ((c.candidates force now).map fun p => p.comp.again c.connGeneration now) }, .nothing)
  | _ :: _ => (c, .nothing)

/-- One result message of a retry. -/
def retrySend (n : Nat) (sent : Bool) : Client × Output :=
  match c.retries n with
  | [] => (c, .nothing)
  | comp :: rest => ({ c with retries := Function.update c.retries n rest }, .when sent (.result comp))

/-- The acknowledgement settles a pending result. -/
def settles (ack : ResultAck) (p : Pending) : Bool :=
  decide (p.comp.result.dispatchID = ack.dispatchID) && (ack.recorded || ack.publicResultCode == "dispatch_rejected")

/-- The section of `handleInvocationResultAck` under `pendingMu`. -/
def acknowledge (n : Nat) (ack : ResultAck) : Client × Output :=
  match c.acks n, c.pendingResults.find? ack.invocationID with
  | none, some p =>
    if ack.dispatchID ≠ "" ∧ settles ack p = true then
      ({ c with
        pendingResults := c.pendingResults.filter fun q => q.id ≠ ack.invocationID
        acks := Function.update c.acks n (some p) }, .nothing)
    else (c, .nothing)
  | _, _ => (c, .nothing)

/-- `markCompleted`: the acknowledged invocation moves to the memory of completed ones. -/
def mark (n : Nat) : Client × Output :=
  match c.acks n with
  | some p =>
    ({ c.dropInflight p.id with
      completedInvocations := c.completedInvocations.set p.id p.comp p.comp.encodedBytes
      seenInvocations := c.seenInvocations.add p.id
      acks := Function.update c.acks n none }, .nothing)
  | none => (c, .nothing)

/-- A new connection was authenticated. -/
def reconnect : Client × Output := ({ c with connGeneration := c.connGeneration + 1 }, .nothing)

/-- One step of the invocation machine. -/
def step : Action → Client × Output
  | .dispatch i invocationID dispatchID => c.dispatch i invocationID dispatchID
  | .register i => c.register i
  | .resend i sent => c.resend i sent
  | .deferred i sent => c.deferred i sent
  | .decrypt i ok => c.decrypt i ok
  | .accept i sent => c.accept i sent
  | .withdraw i => c.withdraw i
  | .lookup i found => c.lookup i found
  | .handled i outcome => c.handled i outcome
  | .complete n run failed => c.complete n run failed
  | .check a => c.check a
  | .ask a answer => c.ask a answer
  | .find a => c.find a
  | .submit a => c.submit a
  | .encode a encoding encrypted => c.encode a encoding encrypted
  | .confirm a => c.confirm a
  | .build a wire now => c.build a wire now
  | .retain a => c.retain a
  | .send a sent => c.send a sent
  | .release a => c.release a
  | .retry n force now => c.retry n force now
  | .retrySend n sent => c.retrySend n sent
  | .acknowledge n ack => c.acknowledge n ack
  | .mark n => c.mark n
  | .reconnect => c.reconnect

end Client

end Pagnet.Sdk.Invocation
