import Pagnet.Data.Relation
import Pagnet.Data.Transaction
import Pagnet.Fabric.Reference
import Pagnet.Json.Limits

/-!
# Durable events

The tables of the durable event queue of `fabric/events/durable`, its
configuration and the CloudEvents that it carries. The CloudEvents SDK is a
parameter: it says what an event is, which events are valid and how one is
written, and it reads back what it wrote. A time is a number of nanoseconds after
the Unix epoch; `unixNano` of a time that does not fit into 64 bits wraps.
-/

namespace Pagnet.Durable
open Json

/-- What a call is refused with. -/
inductive Error where
  | invalid (message : String)
  | unavailable
  | conflict
  | stale
  /-- `CodeTargetUnavailable`. -/
  | exhausted (message : String)
  deriving DecidableEq, Repr

def maxInt64 : Int := 9223372036854775807

/-- `validText`; Go strings that are no valid UTF-8 are not represented. -/
def validText (s : String) (n : Nat) : Bool :=
  0 < s.utf8ByteSize && s.utf8ByteSize ≤ n && !s.toList.contains '\x00'

/-! ## Times -/

/-- `time.Time`. -/
abbrev Time := Int

/-- January 1 of year 1. -/
def zeroTime : Time := -62135596800000000000

/-- `Time.UnixNano`. -/
def unixNano (t : Time) : Int := t.bmod (2 ^ 64)

/-- What `time.Now` answers, at a time of which the nanoseconds are counted. -/
abbrev Clock := { n : Int // -9223372036854775808 ≤ n ∧ n ≤ maxInt64 }

/-! ## Configuration -/

structure Subscription where
  id : String
  types : List String
  deriving DecidableEq, Repr

/-- `Config`; durations are in nanoseconds. -/
structure Config where
  subscriptions : List Subscription
  maxSubscriptions : Int
  maxFanout : Int
  maxRows : Int
  maxBytes : Int
  maxDatabaseBytes : Int
  maxEventBytes : Int
  maxCipherBytes : Int
  maxPendingPerSubscription : Int
  maxAttempts : Int
  leaseTTL : Int
  retryDelay : Int
  deliveryTTL : Int
  dedupTTL : Int

def millisecond : Int := 1000000

def hour : Int := 3600000000000

def Config.limits (c : Config) : Bool :=
  c.maxSubscriptions < 1 || 1024 < c.maxSubscriptions || c.maxSubscriptions < c.subscriptions.length ||
    c.maxFanout < 1 || c.maxSubscriptions < c.maxFanout || c.maxRows < 1 || 10000000 < c.maxRows || c.maxBytes < 1 ||
    2 ^ 40 < c.maxBytes || c.maxDatabaseBytes < 4096 || 2 ^ 40 < c.maxDatabaseBytes || c.maxEventBytes < 1 ||
    2 ^ 20 < c.maxEventBytes || c.maxCipherBytes < c.maxEventBytes || 2 ^ 21 < c.maxCipherBytes ||
    c.maxBytes < c.maxCipherBytes || c.maxPendingPerSubscription < 1 || c.maxRows < c.maxPendingPerSubscription ||
    c.maxAttempts < 1 || 100000 < c.maxAttempts || c.leaseTTL < millisecond || hour < c.leaseTTL ||
    c.retryDelay < millisecond || hour < c.retryDelay || c.deliveryTTL < millisecond || 30 * 24 * hour < c.deliveryTTL ||
    c.dedupTTL < c.deliveryTTL || 365 * 24 * hour < c.dedupTTL

/-- The names of a sorted list are valid and all different. -/
def validTypes : List String → Bool
  | [] => true
  | [t] => Fabric.validNamespacedName t
  | t :: u :: rest => Fabric.validNamespacedName t && t != u && validTypes (u :: rest)

/-- The loop of `normalize`: the bytes of the configuration so far, and the subscriptions copied. -/
def normalizeSubscription (state : Int × List Subscription) (s : Subscription) : Except Error (Int × List Subscription) := do
  refuse (!Fabric.validNamespacedName s.id || (state.2.map (·.id)).contains s.id || s.types.length < 1 ||
    64 < s.types.length) (.invalid "Invalid durable event subscription")
  let types := s.types.mergeSort fun a b => decide (a ≤ b)
  refuse (!validTypes types) (.invalid "Invalid durable event subscription type")
  let budget := state.1 + s.id.utf8ByteSize + 64 + (types.map fun t => (t.utf8ByteSize : Int) + 4).sum
  refuse (512 * 1024 < budget) (.invalid "Durable subscription configuration exceeds byte limit")
  return (budget, state.2 ++ [⟨s.id, types⟩])

/-- `normalize`. -/
def normalize (c : Config) : Except Error Config := do
  refuse c.limits (.invalid "Invalid durable event limits")
  let (_, subscriptions) ← c.subscriptions.foldlM normalizeSubscription (0, [])
  return { c with subscriptions := subscriptions.mergeSort fun a b => decide (a.id ≤ b.id) }

/-! ## Events -/

/-- The CloudEvents SDK: events of the type `E`, in JSON. -/
structure Sdk (E : Type) where
  source : E → String
  id : E → String
  kind : E → String
  /-- `len(e.DataEncoded)`. -/
  dataLength : E → Nat
  /-- A context of version 1.0 that `Validate` accepts. -/
  valid : E → Bool
  marshal : E → Option Value
  unmarshal : Value → Option E
  reads : ∀ e v, valid e → marshal e = some v →
    ∃ e', unmarshal v = some e' ∧ valid e' ∧ source e' = source e ∧ id e' = id e

/-- What a store works with. -/
structure Host (E : Type) where
  config : Config
  sdk : Sdk E
  sha256 : List UInt8 → Fin 32 → UInt8

variable {E : Type}

def Host.digest (h : Host E) (raw : Value) : String := hexEncode (h.sha256 (bytesOf raw.render))

/-- `claimHash`. -/
def Host.claimHash (h : Host E) (token : String) : String := hexEncode (h.sha256 (bytesOf token.toList))

/-- The limits of `events.Encode` and `events.Decode`. -/
def eventLimits (maxBytes : Int) : WireLimits := ⟨maxBytes, 64, 4096⟩

/-- `events.Encode`. -/
def encode (sdk : Sdk E) (e : E) (maxBytes : Int) : Except Error Value := do
  refuse (maxBytes < 1 || 2 ^ 20 < maxBytes || maxBytes < sdk.dataLength e || !sdk.valid e) (.invalid "Invalid CloudEvent")
  match sdk.marshal e with
  | none => .error (.invalid "CloudEvent exceeds configured limits")
  | some raw =>
    refuse (maxBytes < raw.size) (.invalid "CloudEvent exceeds configured limits")
    refuse (!decodesValue (eventLimits maxBytes) raw) (.invalid "Invalid CloudEvent JSON")
    return raw

/-- `events.Decode`. -/
def decodeEvent (sdk : Sdk E) (raw : Value) (maxBytes : Int) : Except Error E := do
  refuse (maxBytes < 1 || 2 ^ 20 < maxBytes) (.invalid "Invalid event byte limit")
  refuse (!decodesValue (eventLimits maxBytes) raw) (.invalid "Invalid CloudEvent JSON")
  match sdk.unmarshal raw with
  | none => .error (.invalid "Invalid CloudEvent")
  | some e =>
    refuse (!sdk.valid e) (.invalid "Invalid CloudEvent")
    return e

/-- A document under the protector's seal, with what the seal authenticates: `aad`. -/
structure Cipher where
  source : String
  id : String
  digest : String
  plain : Value
  length : Nat

/-! ## Tables -/

/-- A row of `events`. -/
structure EventRow where
  source : String
  id : String
  digest : String
  kind : String
  cipher : Cipher
  created : Int
  expires : Int
  retainUntil : Int
  cost : Int

inductive State where
  | pending
  | claimed
  | acked
  | failed
  deriving DecidableEq, Repr

/-- `state IN ('pending','claimed')`. -/
def State.isOpen : State → Bool
  | .pending | .claimed => true
  | .acked | .failed => false

/-- A row of `deliveries`. -/
structure DeliveryRow where
  subscription : String
  source : String
  id : String
  state : State
  due : Int
  lease : Int
  attempt : Int
  generation : Int
  worker : String
  tokenHash : String
  reason : String
  deriving DecidableEq, Repr

/-- A row of `subscriptions`. -/
structure SubscriptionRow where
  id : String
  pending : Int

abbrev EventKey := String × String

abbrev DeliveryKey := String × EventKey

def EventRow.key (row : EventRow) : EventKey := (row.source, row.id)

def DeliveryRow.event (d : DeliveryRow) : EventKey := (d.source, d.id)

def DeliveryRow.key (d : DeliveryRow) : DeliveryKey := (d.subscription, d.event)

/-- The database. -/
structure Store where
  rows : Int
  bytes : Int
  subscriptions : Relation SubscriptionRow String SubscriptionRow.id
  events : Relation EventRow EventKey EventRow.key
  deliveries : Relation DeliveryRow DeliveryKey DeliveryRow.key

/-- The inserts into `subscriptions` of a new database. -/
def insertSubscription (t : Relation SubscriptionRow String SubscriptionRow.id) (s : Subscription) :
    Except Error (Relation SubscriptionRow String SubscriptionRow.id) :=
  match t.insert ⟨s.id, 0⟩ with
  | none => .error .unavailable
  | some t => .ok t

/-- `Bootstrap`: the normalized configuration, and the new database. -/
def bootstrap (c : Config) : Except Error (Config × Store) := do
  let c ← normalize c
  let subscriptions ← c.subscriptions.foldlM insertSubscription .empty
  return (c, ⟨0, 0, subscriptions, .empty, .empty⟩)

/-! ## Answers -/

structure Receipt where
  source : String
  id : String
  digest : String
  committedAt : Int
  duplicate : Bool
  deriving DecidableEq, Repr

structure Claim where
  subscription : String
  source : String
  id : String
  worker : String
  generation : Int
  token : String
  deriving DecidableEq, Repr

def Claim.key (c : Claim) : DeliveryKey := (c.subscription, c.source, c.id)

structure Delivery (E : Type) where
  claim : Claim
  event : E
  digest : String
  attempt : Int
  leaseUntil : Time

end Pagnet.Durable
