import Mathlib.Data.Fintype.Basic
import Pagnet.Data.Refusal
import Pagnet.Data.Relation
import Pagnet.Fabric.Reference
import Pagnet.Json.Limits

/-!
# Deferred continuations

The rows of the private continuation store of `fabric/extension/continuation`
and the documents in them. A column that holds a sealed document is the document
with the length of its cipher text and the purpose and identity that the
protector authenticates: a protector opens what it sealed, for this purpose and
this identity only. A column that holds the RFC 3339 text of a time is the time.
JSON documents that the caller supplies are texts; bytes that are no valid UTF-8
are refused before anything is written.
-/

namespace Pagnet.Continuation
open Json Fabric

/-- What a call is refused with. -/
inductive Error where
  | invalid (message : String)
  | stale
  | internal
  | unauthenticated (message : String)
  /-- An error of `DecodeVerifiedEnvelope`. -/
  | envelope
  deriving DecidableEq, Repr

/-- `[32]byte`. -/
abbrev Bytes32 := Fin 32 → UInt8

/-- `fabric.Principal`. -/
structure Principal where
  ref : String
  kind : String
  issuer : String
  deriving DecidableEq, Repr

def Principal.toJson (p : Principal) : Value :=
  .ofFields [("ref", .ofString p.ref), ("kind", .ofString p.kind), ("issuer", .ofString p.issuer)]

/-- What a call knows of its caller: `fabric.ExecutionContext`. -/
structure ExecutionContext where
  principal : Principal
  verified : Bool
  audience : String
  /-- `DecodeVerifiedEnvelope` accepts these bytes. -/
  envelope : List UInt8 → Bool

def maxInt64 : Int := 9223372036854775807

structure Options where
  maxRecords : Int
  maxBytes : Int
  maxSnapshotBytes : Int
  maxOutcomeBytes : Int
  maxDatabaseBytes : Int
  /-- In nanoseconds. -/
  maxTTL : Int
  maxJSONDepth : Int
  maxJSONMembers : Int

/-- `Options.validate`. -/
def Options.validate (o : Options) : Except Error Unit :=
  refuse (o.maxJSONDepth ≤ 0 || o.maxJSONMembers ≤ 0 || o.maxRecords ≤ 0 || maxInt64 / 2 < o.maxRecords ||
    o.maxBytes ≤ 0 || o.maxDatabaseBytes < 4096 || o.maxSnapshotBytes ≤ 0 || o.maxOutcomeBytes ≤ 0 || o.maxTTL ≤ 0 ||
    o.maxBytes < o.maxSnapshotBytes || o.maxBytes < o.maxOutcomeBytes || maxInt64 / 2 < o.maxBytes ||
    4294967295 < o.maxDatabaseBytes / 4096) (.invalid "Invalid continuation limits")

/-- A store's configuration, and the hash function. -/
structure Config where
  options : Options
  audience : String
  sha256 : List UInt8 → Bytes32

/-- `decodePrivate` uses the limits of the store. -/
def Config.privateLimits (c : Config) (bound : Int) : WireLimits :=
  ⟨bound, c.options.maxJSONDepth, c.options.maxJSONMembers⟩

/-- `decode` uses fixed ones. -/
def plainLimits (bound : Int) : WireLimits := ⟨bound, 64, 4096⟩

/-- `digest`. -/
def Config.digest (c : Config) (text : Text) : String := hexEncode (c.sha256 (bytesOf text))

/-! ## Documents -/

structure Snapshot where
  format : Nat
  deferralID : String
  originalEnvelope : List UInt8
  originalPrincipal : Principal
  allowedResumePrincipals : List Principal
  planRevision : String
  planVersion : String
  planDigest : String
  pipeline : Text
  state : Text
  deferredAdmission : List UInt8
  deriving DecidableEq

def Snapshot.toJson (v : Snapshot) : Value :=
  .ofFields ([("format", .ofInt v.format), ("deferralId", .ofString v.deferralID),
    ("originalEnvelope", .ofBytes v.originalEnvelope), ("originalPrincipal", v.originalPrincipal.toJson),
    ("allowedResumePrincipals", .ofList (v.allowedResumePrincipals.map Principal.toJson)),
    ("planRevision", .ofString v.planRevision), ("planVersion", .ofString v.planVersion),
    ("planDigest", .ofString v.planDigest), ("pipeline", .ofBytes (bytesOf v.pipeline)),
    ("state", .ofBytes (bytesOf v.state))] ++ omitEmpty "deferredAdmission" [] .ofBytes v.deferredAdmission)

structure Receipt where
  id : String
  claimID : String
  principal : Principal
  audience : String
  snapshotDigest : String
  planDigest : String
  capabilityRevision : Nat
  claimedAt : Timestamp
  deriving DecidableEq

def Receipt.toJson (r : Receipt) : Value :=
  .ofFields [("id", .ofString r.id), ("claimId", .ofString r.claimID), ("principal", r.principal.toJson),
    ("audience", .ofString r.audience), ("snapshotDigest", .ofString r.snapshotDigest),
    ("planDigest", .ofString r.planDigest), ("capabilityRevision", .ofInt r.capabilityRevision),
    ("claimedAt", r.claimedAt.toJson)]

/-- A receipt is encoded unless its time is out of range. -/
def Receipt.encodable (r : Receipt) : Bool := r.claimedAt.encodable

/-- `fabric.EffectState`; a string that is none of the three states is never stored. -/
inductive Effect where
  | unknown
  | notStarted
  | completed
  | unsupported
  deriving DecidableEq, Repr

def Effect.name : Effect → String
  | .unknown => "unknown"
  | .notStarted => "not_started"
  | .completed => "completed"
  | .unsupported => ""

structure Outcome where
  effect : Effect
  data : Text
  deriving DecidableEq

def Outcome.toJson (o : Outcome) : Value :=
  .ofFields [("effect", .ofString o.effect.name), ("data", .ofBytes (bytesOf o.data))]

/-- A token's text is the identity, a dot, and the secret. -/
structure Token where
  id : String
  secret : Bytes32
  deriving DecidableEq

def Token.text (t : Token) : String := t.id ++ "." ++ String.ofList (base64 urlDigit [] (List.ofFn t.secret))

/-- `notificationPlain`. -/
structure NotificationPlain where
  format : Nat
  id : String
  recipient : Principal
  revision : Nat
  expiry : Timestamp
  token : Token
  deriving DecidableEq

def NotificationPlain.toJson (n : NotificationPlain) : Value :=
  .ofFields [("Format", .ofInt n.format), ("ID", .ofString n.id), ("Recipient", n.recipient.toJson),
    ("Revision", .ofInt n.revision), ("Expiry", .ofString (String.ofList n.expiry.format)),
    ("Token", .ofString n.token.text)]

/-! ## Sealed columns -/

def maxSealOverhead : Int := 65536

def maxReceiptBytes : Int := 16384

def maxNotificationBytes : Int := 16384

/-- A document under the protector's seal. -/
structure Sealed (α : Type) where
  purpose : String
  id : String
  plain : α
  length : Int
  deriving DecidableEq

/-- `sealBlob`; the protector answers with the length of its cipher text, or refuses. -/
def sealBlob {α : Type} (cipher : Option Int) (purpose id : String) (plain : α) (size max : Int) :
    Except Error (Sealed α) := do
  refuse (max < size) .internal
  match cipher with
  | none => .error .internal
  | some length =>
    refuse (length ≤ 0 || size + maxSealOverhead < length) .internal
    return ⟨purpose, id, plain, length⟩

/-- `openBlob`. -/
def openBlob {α : Type} (sealed : Sealed α) (purpose id : String) (size : α → Int) (max : Int) : Except Error α := do
  refuse (sealed.length ≤ 0 || max + maxSealOverhead < sealed.length) .internal
  refuse (sealed.purpose != purpose || sealed.id != id) .internal
  refuse (max < size sealed.plain) .internal
  return sealed.plain

def snapshotSize (v : Snapshot) : Int := v.toJson.size

def receiptSize (r : Receipt) : Int := r.toJson.size

def outcomeSize (o : Outcome) : Int := o.toJson.size

def notificationSize (n : NotificationPlain) : Int := n.toJson.size

/-! ## Tables -/

inductive State where
  | pending
  | claimed
  | complete
  deriving DecidableEq, Repr

/-- A row of `continuations`. -/
structure Row where
  id : String
  snapshot : Sealed Snapshot
  digest : String
  expires : Timestamp
  hash : Bytes32
  revision : Int
  state : State
  receipt : Option (Sealed Receipt)
  outcome : Option (Sealed Outcome)

/-- A row of `private_notifications`. -/
structure Notification where
  id : String
  recipient : String
  revision : Int
  payload : Sealed NotificationPlain
  published : Bool

/-- The database. -/
structure Store where
  continuations : Relation Row String Row.id
  notifications : Relation Notification (String × String) fun n => (n.id, n.recipient)
  records : Int
  bytes : Int

def Store.initial : Store := ⟨.empty, .empty, 0, 0⟩

/-! ## Times -/

/-- Nanoseconds from January 1 of year 1 to the Unix epoch. -/
def unixEpoch : Int := 62135596800000000000

/-- `time.Now().UTC()` at a number of nanoseconds after the Unix epoch. -/
def clock (now : Nat) : Timestamp := ⟨unixEpoch + now, 0⟩

/-- `time.Parse` of the text of a time: years of more than four digits are not read back. -/
def parseTime (t : Timestamp) : Option Timestamp := if t.encodable then some t else none

def after (a b : Timestamp) : Bool := b.instant < a.instant

/-- `a.Sub(b)`, which saturates. -/
def sub (a b : Timestamp) : Int := max (-maxInt64 - 1) (min maxInt64 (a.instant - b.instant))

end Pagnet.Continuation
