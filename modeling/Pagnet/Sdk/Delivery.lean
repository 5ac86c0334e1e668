import Pagnet.Data.Run
import Pagnet.Data.Lru
import Mathlib.Data.Finset.Basic
import Mathlib.Logic.Function.Basic

/-!
# Message and event deliveries

The dispatcher starts one goroutine for each delivery frame. A goroutine looks at
the duplicate memory, enters its id into the in-flight set, decrypts, runs the
handlers and leaves the set again, each under its own lock. What two goroutines do
between their lock sections may interleave in any order, so a step of the model is
one such section of one goroutine.
-/

namespace Pagnet.Sdk

/-- The bound of the duplicate-delivery memory. -/
def defaultSeenCap : Nat := 4096

/-- The two kinds of delivery frames with a duplicate memory of their own ids. -/
inductive Kind
  | message
  | event
  deriving DecidableEq, Repr

/-- Where a delivery goroutine stands, between two of its lock sections. -/
inductive Pc
  | idle
  /-- the frame is decoded -/
  | arrived
  /-- `seenDeliveries` did not contain the id -/
  | checked
  /-- a message handler is registered (messages only) -/
  | ready
  /-- the id is in `inflightDeliveries` -/
  | registered
  /-- the payload is decrypted (events only) -/
  | decrypted
  /-- the handlers run -/
  | running
  /-- before the last lock section: whether handlers ran, and whether it acknowledges -/
  | finishing (ran ackIt : Bool)
  /-- before the acknowledgement is sent -/
  | acking
  | returned
  deriving DecidableEq, Repr

/-- A goroutine of `handleDelivery`. -/
structure Delivery where
  kind : Kind
  id : String
  pc : Pc
  deriving DecidableEq, Repr

/-- The parts of a client that deliveries share; goroutine `n` is `threads n`. -/
structure Client where
  retryMessageHandlerErrors : Bool
  seenDeliveries : LruSet String
  inflightDeliveries : Finset String
  threads : Nat → Delivery

/-- A client that has received nothing. -/
def Client.new (retryMessageHandlerErrors : Bool) : Client where
  retryMessageHandlerErrors := retryMessageHandlerErrors
  seenDeliveries := .empty defaultSeenCap
  inflightDeliveries := ∅
  threads := fun _ => ⟨.message, "", .idle⟩

/-- One lock section, or one decision of the environment, of goroutine `n`. -/
inductive Action
  | deliver (n : Nat) (kind : Kind) (id : String)
  | check (n : Nat)
  | lookup (n : Nat) (handler : Bool)
  | register (n : Nat)
  | decrypt (n : Nat) (ok : Bool)
  | route (n : Nat) (handlers : Bool)
  | handled (n : Nat) (failed : Bool)
  | finish (n : Nat)
  | ack (n : Nat)
  deriving DecidableEq, Repr

/-- What a step does that others can see. -/
inductive Output
  | nothing
  | started (id : String)
  | finished (id : String) (ran ackIt : Bool)
  | acked (id : String)
  deriving DecidableEq, Repr

namespace Client

variable (c : Client) (n : Nat)

/-- Goroutine `n` becomes `d`. -/
def put (d : Delivery) : Client := { c with threads := Function.update c.threads n d }

/-- Goroutine `n` goes on to `pc`. -/
def move (pc : Pc) : Client := c.put n { c.threads n with pc }

/-- The dispatcher starts goroutine `n` on a frame. -/
def deliver (kind : Kind) (id : String) : Client × Output :=
  match (c.threads n).pc with
  | .idle => (c.put n ⟨kind, id, .arrived⟩, .nothing)
  | _ => (c, .nothing)

/-- The duplicate check: a remembered id is acknowledged again and not run. -/
def check : Client × Output :=
  match (c.threads n).pc with
  | .arrived => (c.move n (if c.seenDeliveries.contains (c.threads n).id then .acking else .checked), .nothing)
  | _ => (c, .nothing)

/-- `msgHandler` is read under `handlerMu`; without one the message stays undelivered. -/
def lookup (handler : Bool) : Client × Output :=
  match (c.threads n).kind, (c.threads n).pc with
  | .message, .checked => (c.move n (if handler then .ready else .returned), .nothing)
  | _, _ => (c, .nothing)

/-- The in-flight section: a second goroutine of one id returns. -/
def enter : Client × Output :=
  if (c.threads n).id ∈ c.inflightDeliveries then (c.move n .returned, .nothing)
  else ({ c.move n .registered with inflightDeliveries := insert (c.threads n).id c.inflightDeliveries }, .nothing)

/-- The in-flight section is the next one after the handler lookup, or after the check for events. -/
def register : Client × Output :=
  match (c.threads n).kind, (c.threads n).pc with
  | .message, .ready => c.enter n
  | .event, .checked => c.enter n
  | _, _ => (c, .nothing)

/-- Decryption and decoding: a failure gives the delivery up without an acknowledgement. -/
def decrypt (ok : Bool) : Client × Output :=
  match (c.threads n).pc, ok, (c.threads n).kind with
  | .registered, false, _ => (c.move n (.finishing false false), .nothing)
  | .registered, true, .message => (c.move n .running, .started (c.threads n).id)
  | .registered, true, .event => (c.move n .decrypted, .nothing)
  | _, _, _ => (c, .nothing)

/-- The handlers whose pattern matches the event are collected; without any there is nothing to do. -/
def route (handlers : Bool) : Client × Output :=
  match (c.threads n).pc, handlers with
  | .decrypted, true => (c.move n .running, .started (c.threads n).id)
  | .decrypted, false => (c.move n (.finishing false true), .nothing)
  | _, _ => (c, .nothing)

/-- Whether a run of the handlers is acknowledged: a failed one only for messages of a client
that does not retry them. -/
def acknowledges (kind : Kind) (failed : Bool) : Bool :=
  match kind with
  | .message => !(c.retryMessageHandlerErrors && failed)
  | .event => !failed

/-- The handlers returned, or one of them panicked. -/
def handled (failed : Bool) : Client × Output :=
  match (c.threads n).pc with
  | .running => (c.move n (.finishing true (c.acknowledges (c.threads n).kind failed)), .nothing)
  | _ => (c, .nothing)

/-- The last section leaves the in-flight set and remembers an acknowledged id. -/
def leave (ackIt : Bool) : Client :=
  { c.move n (if ackIt then .acking else .returned) with
    inflightDeliveries := c.inflightDeliveries.erase (c.threads n).id
    seenDeliveries := if ackIt then c.seenDeliveries.add (c.threads n).id else c.seenDeliveries }

/-- The last lock section of a delivery. -/
def finish : Client × Output :=
  match (c.threads n).pc with
  | .finishing ran ackIt => (c.leave n ackIt, .finished (c.threads n).id ran ackIt)
  | _ => (c, .nothing)

/-- The acknowledgement is sent. -/
def ack : Client × Output :=
  match (c.threads n).pc with
  | .acking => (c.move n .returned, .acked (c.threads n).id)
  | _ => (c, .nothing)

/-- One step of the delivery machine. -/
def step : Action → Client × Output
  | .deliver n kind id => c.deliver n kind id
  | .check n => c.check n
  | .lookup n handler => c.lookup n handler
  | .register n => c.register n
  | .decrypt n ok => c.decrypt n ok
  | .route n handlers => c.route n handlers
  | .handled n failed => c.handled n failed
  | .finish n => c.finish n
  | .ack n => c.ack n

end Client

end Pagnet.Sdk
