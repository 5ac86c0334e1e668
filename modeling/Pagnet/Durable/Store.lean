import Pagnet.Durable.Types

/-!
# The operations of the durable event queue

Each operation is one transaction on the tables. The checks that `Open` makes on
a database are `verify`.
-/

namespace Pagnet.Durable
open Json

variable {E : Type}

/-- The environment of a call. -/
structure Env where
  now : Clock
  /-- The length of the protector's cipher text; `none` when it refuses. -/
  sealed : Option Nat
  /-- What `rand.Read` reads. -/
  random : Option (Fin 24 → UInt8)
  commit : Commit

/-! ## Reading -/

variable (h : Host E)

/-- `Store.decode`. -/
def decode (source id digest : String) (cipher : Cipher) : Except Error E := do
  refuse (h.config.maxCipherBytes < cipher.length) .unavailable
  refuse (cipher.source != source || cipher.id != id || cipher.digest != digest) .unavailable
  refuse (h.digest cipher.plain != digest) .unavailable
  match decodeEvent h.sdk cipher.plain h.config.maxEventBytes with
  | .error _ => .error .unavailable
  | .ok e =>
    refuse (h.sdk.source e != source || h.sdk.id e != id) .unavailable
    return e

/-- What an event is charged for itself. -/
def baseCost (row : EventRow) : Int :=
  row.cipher.length + row.source.utf8ByteSize + row.id.utf8ByteSize + row.kind.utf8ByteSize + row.digest.utf8ByteSize + 128

/-- What an event is charged for a delivery. -/
def deliveryCost (d : DeliveryRow) : Int :=
  d.source.utf8ByteSize + d.id.utf8ByteSize + d.subscription.utf8ByteSize + 1024

variable (s : Store)

/-- The deliveries of an event, each with a weight. -/
def Store.ofEvent (k : EventKey) (w : DeliveryRow → Int) : Int :=
  s.deliveries.total fun d => if d.event = k then w d else 0

/-- What an event is charged in all. -/
def Store.eventCost (row : EventRow) : Int := baseCost row + s.ofEvent row.key deliveryCost

/-- The deliveries of a subscription that are not settled. -/
def Store.pendingOf (subscription : String) : Int :=
  s.deliveries.total fun d => if d.subscription = subscription ∧ d.state.isOpen = true then 1 else 0

variable (c : Config)

/-- A delivery that no database may hold. -/
def malformed (d : DeliveryRow) : Bool :=
  d.generation < 0 || d.attempt < 0 || c.maxAttempts < d.attempt ||
    (d.state == .claimed && (d.generation == 0 || d.attempt == 0 || d.tokenHash.length != 64 || d.worker == "" ||
      d.lease ≤ 0)) ||
    (d.state != .claimed && (d.tokenHash != "" || d.worker != "" || d.lease != 0))

/-- `Store.verify`. -/
def verify (s : Store) : Except Error Unit := do
  refuse (s.rows != (s.events.total fun _ => 1) + (s.deliveries.total fun _ => 1) || s.bytes != s.events.total s.eventCost ||
    s.rows < 0 || h.config.maxRows < s.rows || s.bytes < 0 || h.config.maxBytes < s.bytes) .unavailable
  refuse (s.events.rows.any fun row => row.cost != s.eventCost row) .unavailable
  refuse (s.subscriptions.rows.any fun sub => sub.pending != s.pendingOf sub.id || sub.pending < 0 ||
    h.config.maxPendingPerSubscription < sub.pending) .unavailable
  refuse (s.deliveries.rows.any (malformed h.config)) .unavailable
  s.events.rows.forM fun row => (decode h row.source row.id row.digest row.cipher).map fun _ => ()

/-! ## Publish -/

/-- The subscriptions to a type of events: `byType`. -/
def Config.byType (kind : String) : List String :=
  c.subscriptions.flatMap fun sub => (sub.types.filter (· == kind)).map fun _ => sub.id

def updatePending (sub : String) (change : Int) : Store :=
  { s with
    subscriptions := s.subscriptions.modify (·.id == sub) (fun row => { row with pending := row.pending + change }) fun _ => rfl }

/-- The capacity of a subscription is not exhausted. -/
def checkPending (s : Store) (sub : String) : Except Error Unit :=
  match s.subscriptions.find? sub with
  | none => .error .unavailable
  | some row => refuse (c.maxPendingPerSubscription ≤ row.pending) (.exhausted "Durable subscription capacity exceeded")

/-- A new delivery. -/
def addDelivery (source id : String) (n : Int) (s : Store) (sub : String) : Except Error Store :=
  match s.deliveries.insert ⟨sub, source, id, .pending, n, 0, 0, 0, "", "", ""⟩ with
  | none => .error .unavailable
  | some deliveries => .ok (updatePending { s with deliveries } sub 1)

def insertEvent (row : EventRow) : Except Error Store :=
  match s.events.insert row with
  | none => .error .unavailable
  | some events => .ok { s with events }

/-- What a publication to these subscriptions is charged. -/
def publicationCost (base : Int) (source id : String) (matched : List String) : Int :=
  base + (matched.map fun sub => (source.utf8ByteSize : Int) + id.utf8ByteSize + sub.utf8ByteSize + 1024).sum

variable (env : Env)

/-- The part of `Publish` for an identity that is new. -/
def publishNew (s : Store) (cipher : Cipher) (kind : String) : Except Error (Change Store Receipt) := do
  let matched := h.config.byType kind
  refuse (h.config.maxFanout < matched.length) (.exhausted "Event fanout capacity exceeded")
  let row : EventRow := ⟨cipher.source, cipher.id, cipher.digest, kind, cipher, env.now, env.now + h.config.deliveryTTL,
    env.now + h.config.dedupTTL, 0⟩
  let cost := publicationCost (baseCost row) cipher.source cipher.id matched
  refuse (h.config.maxRows - s.rows < 1 + matched.length || h.config.maxBytes - s.bytes < cost)
    (.exhausted "Durable event capacity exceeded")
  matched.forM (checkPending h.config s)
  refuse (maxInt64 - h.config.dedupTTL < env.now) (.invalid "Event timestamp outside retention range")
  let s ← insertEvent s { row with cost }
  let s ← matched.foldlM (addDelivery cipher.source cipher.id env.now) s
  return .commit { s with rows := s.rows + (1 + matched.length), bytes := s.bytes + cost }
    ⟨cipher.source, cipher.id, cipher.digest, env.now, false⟩

/-- The part of `Publish` in front of its transaction. -/
def sealEvent (e : E) : Except Error Cipher := do
  let raw ← encode h.sdk e h.config.maxEventBytes
  refuse (!validText (h.sdk.source e) 4096 || !validText (h.sdk.id e) 256 || !validText (h.sdk.kind e) 256)
    (.invalid "Invalid bounded event identity")
  match env.sealed with
  | none => .error .unavailable
  | some length =>
    refuse (h.config.maxCipherBytes < length) .unavailable
    return ⟨h.sdk.source e, h.sdk.id e, h.digest raw, raw, length⟩

/-- `Publish` of an event that is known already: the receipt of its first publication, unless its content differs. -/
def republish (row : EventRow) (cipher : Cipher) : Except Error (Change Store Receipt) := do
  refuse (row.digest != cipher.digest) .conflict
  return .answer ⟨cipher.source, cipher.id, cipher.digest, row.created, true⟩

/-- `Publish`. -/
def publish (closed : Bool) (s : Store) (e : E) : Except Error (Change Store Receipt) := do
  let cipher ← sealEvent h env e
  refuse closed .unavailable
  match s.events.find? (cipher.source, cipher.id) with
  | some row => republish row cipher
  | none => publishNew h env s cipher (h.sdk.kind e)

/-! ## Claim -/

/-- The order of a queue: by a time, then by the event. -/
def precedes (time : DeliveryRow → Int) (a b : DeliveryRow) : Bool :=
  time a < time b || (time a == time b && (a.source < b.source || (a.source == b.source && a.id < b.id)))

/-- The first row of a queue. -/
def earliest (time : DeliveryRow → Int) (rows : List DeliveryRow) : Option DeliveryRow :=
  rows.foldl (fun best d => if best.any fun b => !precedes time d b then best else some d) none

/-- The delivery that a claim takes: one that is due or one whose lease is over. -/
def candidate (subscription : String) (now : Int) : Option DeliveryRow :=
  let due := earliest (·.due) (s.deliveries.rows.filter fun d =>
    d.subscription == subscription && d.state == .pending && d.due ≤ now)
  let lapsed := earliest (·.lease) (s.deliveries.rows.filter fun d =>
    d.subscription == subscription && d.state == .claimed && d.lease ≤ now)
  match due, lapsed with
  | chosen, none => chosen
  | none, other => other
  | some chosen, some other =>
    if other.lease < chosen.due || (other.lease == chosen.due &&
        (other.source < chosen.source || (other.source == chosen.source && other.id < chosen.id)))
    then some other else some chosen

/-- `UPDATE deliveries ... WHERE` the key is that of one row. -/
def updateDelivery (k : DeliveryKey) (f : DeliveryRow → DeliveryRow) (keeps : ∀ d, (f d).key = d.key) : Store :=
  { s with deliveries := s.deliveries.modify (fun d => d.key = k) f keeps }

/-- A delivery is given up. -/
def fail (reason : String) (d : DeliveryRow) : DeliveryRow :=
  { d with state := .failed, reason, worker := "", tokenHash := "", lease := 0 }

theorem key_fail (reason : String) (d : DeliveryRow) : (fail reason d).key = d.key := rfl

/-- A delivery is given to a worker. -/
def grant (lease : Int) (worker tokenHash : String) (d : DeliveryRow) : DeliveryRow :=
  { d with state := .claimed, lease, attempt := d.attempt + 1, generation := d.generation + 1, worker, tokenHash,
           reason := "" }

theorem key_grant (lease : Int) (worker tokenHash : String) (d : DeliveryRow) :
    (grant lease worker tokenHash d).key = d.key := rfl

/-- The text of a new token. -/
def tokenText (random : Fin 24 → UInt8) : String := String.ofList (base64 urlDigit [] (List.ofFn random))

/-- A lease does not outlive the delivery. -/
def leaseUntil (now : Time) (expires : Int) : Time :=
  if expires < unixNano (now + c.leaseTTL) then expires else now + c.leaseTTL

/-- The part of `Claim` for the delivery it chose. -/
def claimDelivery (s : Store) (worker : String) (now : Time) (d : DeliveryRow) (row : EventRow) :
    Except Error (Change Store (Option (Delivery E))) :=
  if row.expires ≤ unixNano now || h.config.maxAttempts ≤ d.attempt then
    let reason := if row.expires ≤ unixNano now then "delivery_expired" else "attempts_exhausted"
    .ok (.commit (updatePending (updateDelivery s d.key (fail reason) (key_fail reason)) d.subscription (-1)) none)
  else do
    refuse (d.generation < 0 || d.generation == maxInt64 || d.attempt < 0) .unavailable
    let original ← decode h d.source d.id row.digest row.cipher
    match env.random with
    | none => .error .unavailable
    | some random =>
      let token := tokenText random
      let lease := leaseUntil h.config now row.expires
      return .commit (updateDelivery s d.key (grant (unixNano lease) worker (h.claimHash token)) (key_grant _ _ _))
        (some ⟨⟨d.subscription, d.source, d.id, worker, d.generation + 1, token⟩, original, row.digest, d.attempt + 1, lease⟩)

/-- `Claim`. -/
def claim (h : Host E) (env : Env) (closed : Bool) (s : Store) (subscription worker : String) (now : Time) :
    Except Error (Change Store (Option (Delivery E))) := do
  refuse (!validText subscription 256 || !validText worker 256 || now == zeroTime || unixNano now ≤ 0 ||
    maxInt64 - h.config.leaseTTL < unixNano now) (.invalid "Invalid delivery claim")
  refuse closed .unavailable
  match candidate s subscription (unixNano now) with
  | none => return .answer none
  | some d =>
    match s.events.find? d.event with
    | none => .error .unavailable
    | some row => claimDelivery h env s worker now d row

/-! ## Ack and Nack -/

def validClaim (c : Claim) : Bool :=
  validText c.subscription 256 && validText c.source 4096 && validText c.id 256 && validText c.worker 256 &&
    0 < c.generation && c.token.utf8ByteSize == 32

/-- The claim is the one that holds the delivery, and its lease is not over. -/
def holds (c : Claim) (now : Int) (d : DeliveryRow) : Bool :=
  d.state == .claimed && d.generation == c.generation && d.worker == c.worker && d.tokenHash == h.claimHash c.token &&
    now < d.lease

/-- The state that a settlement leads to, and the reason recorded with it. -/
def settlement (ack : Bool) (attempts expires now : Int) : State × String :=
  if ack then (.acked, "")
  else if expires ≤ now then (.failed, "delivery_expired")
  else if c.maxAttempts ≤ attempts then (.failed, "attempts_exhausted")
  else (.pending, "")

/-- A delivery that is no longer claimed. -/
def release (state : State) (reason : String) (due : Int) (d : DeliveryRow) : DeliveryRow :=
  { d with state, reason, due, lease := 0, worker := "", tokenHash := "" }

theorem key_release (state : State) (reason : String) (due : Int) (d : DeliveryRow) :
    (release state reason due d).key = d.key := rfl

/-- The part of `settle` for the delivery that is settled. -/
def settleDelivery (s : Store) (now : Time) (ack : Bool) (d : DeliveryRow) (row : EventRow) : Store :=
  let (state, reason) := settlement h.config ack d.attempt row.expires (unixNano now)
  let due := if ack then unixNano now else unixNano (now + h.config.retryDelay)
  let s := updateDelivery s d.key (release state reason due) (key_release state reason due)
  if state = .pending then s else updatePending s d.subscription (-1)

/-- `settle`. -/
def settle (closed : Bool) (s : Store) (c : Claim) (now : Time) (ack : Bool) : Except Error (Change Store Unit) := do
  refuse (!validClaim c || now == zeroTime || unixNano now ≤ 0 || maxInt64 - h.config.retryDelay < unixNano now)
    (.invalid "Invalid delivery settlement")
  refuse closed .unavailable
  match s.deliveries.find? c.key, s.events.find? (c.source, c.id) with
  | some d, some row =>
    refuse (!holds h c (unixNano now) d) .stale
    return .commit (settleDelivery h s now ack d row) ()
  | _, _ => .error .stale

/-! ## Purge and Expire -/

/-- The event has a delivery that is not settled. -/
def Store.hasOpen (k : EventKey) : Bool := s.deliveries.rows.any fun d => d.event = k && d.state.isOpen

/-- `ORDER BY` a time, then the event, `LIMIT`. -/
def inOrder (time : EventRow → Int) (limit : Nat) (rows : List EventRow) : List EventRow :=
  (rows.mergeSort fun a b => time a < time b || (time a == time b && (a.source < b.source ||
    (a.source == b.source && a.id ≤ b.id)))).take limit

/-- A turn of the loop of `Purge`: an event with the number of its deliveries. -/
def purgeEvent (p : EventRow × Int) : Store :=
  { s with deliveries := s.deliveries.filter fun d => d.event ≠ p.1.key
           events := s.events.filter fun row => row.key ≠ p.1.key
           rows := s.rows - (1 + p.2)
           bytes := s.bytes - p.1.cost }

/-- What `Purge` removes. -/
def purgeable (before : Int) (limit : Nat) : List (EventRow × Int) :=
  (inOrder (·.retainUntil) limit (s.events.rows.filter fun row => row.retainUntil ≤ before && !s.hasOpen row.key)).map
    fun row => (row, s.ofEvent row.key fun _ => 1)

/-- `Purge`. -/
def purge (env : Env) (closed : Bool) (s : Store) (before : Time) (limit : Int) : Except Error (Change Store Int) := do
  refuse (before == zeroTime || limit < 1 || 1024 < limit || env.now < before) (.invalid "Invalid bounded event purge")
  refuse closed .unavailable
  let candidates := purgeable s (unixNano before) limit.toNat
  return .commit (candidates.foldl purgeEvent s) candidates.length

/-- What `Expire` gives up. -/
def expirable (before : Int) (limit : Nat) : List EventRow :=
  inOrder (·.expires) limit (s.events.rows.filter fun row => row.expires ≤ before && s.hasOpen row.key)

/-- A turn of the loop of `Expire`. -/
def expireEvent (row : EventRow) : Store :=
  let subs := (s.deliveries.rows.filter fun d => d.event = row.key && d.state.isOpen).map (·.subscription)
  let deliveries := s.deliveries.modify (fun d => d.event = row.key && d.state.isOpen) (fail "delivery_expired") (key_fail _)
  subs.foldl (fun s sub => updatePending s sub (-1)) { s with deliveries }

/-- `Expire`. -/
def expire (closed : Bool) (s : Store) (before : Time) (limit : Int) : Except Error (Change Store Int) := do
  refuse (before == zeroTime || env.now < before || limit < 1 || 1024 < limit) (.invalid "Invalid bounded event expiry")
  refuse closed .unavailable
  let events := expirable s (unixNano before) limit.toNat
  return .commit (events.foldl expireEvent s) events.length

end Pagnet.Durable
