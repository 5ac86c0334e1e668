import Pagnet.Continuation.Types
import Pagnet.Data.Transaction

/-!
# The continuation store

The transactions of the store, each as what it would commit and answer. Reading
the clock, drawing a secret, sealing a document and committing are the
environment's part of a call.
-/

namespace Pagnet.Continuation
open Json Fabric

/-! ## Checks -/

def Config.authenticated (c : Config) (ctx : ExecutionContext) : Except Error Unit :=
  refuse (!ctx.verified || ctx.audience != c.audience)
    (.unauthenticated "Invalid authenticated infrastructure admission")

def text (s : String) (n : Nat) : Bool := 0 < s.utf8ByteSize && s.utf8ByteSize ≤ n && !s.toList.contains '\x00'

/-- The lower-case hexadecimal text of 32 bytes. -/
def hexID (s : String) : Bool := (chars s).length == 64 && (chars s).all isLowerHex

def validPrincipal (p : Principal) : Bool := text p.ref 4096 && text p.issuer 4096 && validNamespacedName p.kind

def allowed (v : Snapshot) (p : Principal) : Bool := v.allowedResumePrincipals.contains p

def invalidJSON : Error := .invalid "Invalid bounded private continuation JSON"

variable (c : Config)

def validateSnapshot (v : Snapshot) : Except Error Unit := do
  refuse (v.format != 1 || !hexID v.deferralID || !validPrincipal v.originalPrincipal ||
    v.allowedResumePrincipals.isEmpty || 64 < v.allowedResumePrincipals.length || !text v.planRevision 4096 ||
    !text v.planVersion 256 || !hexID v.planDigest || v.originalEnvelope.isEmpty) (.invalid "Invalid continuation snapshot")
  refuse (!v.allowedResumePrincipals.all validPrincipal || !decide v.allowedResumePrincipals.Nodup)
    (.invalid "Invalid continuation resumers")
  refuse (c.digest v.pipeline != v.planDigest) (.invalid "Pipeline digest mismatch")
  refuse (!decodesText (c.privateLimits c.options.maxSnapshotBytes) v.pipeline) invalidJSON
  refuse (!decodesText (c.privateLimits c.options.maxSnapshotBytes) v.state) invalidJSON

/-- `Store.snapshot`: a stored snapshot is decoded within the limits of the store and validated again. -/
def snapshot (v : Snapshot) : Except Error Snapshot := do
  refuse (!decodesValue (c.privateLimits c.options.maxSnapshotBytes) v.toJson) invalidJSON
  validateSnapshot c v
  return v

/-- An error of a check inside the store is not told apart. -/
def orInternal {α : Type} : Except Error α → Except Error α
  | .ok a => .ok a
  | .error _ => .error .internal

/-- `parseToken`; a text that is no token is `none`. -/
def parseToken : Option Token → Except Error (String × Bytes32)
  | none => .error .stale
  | some t => do
    refuse (!hexID t.id) .stale
    return (t.id, c.sha256 (List.ofFn t.secret))

/-! ## Reading a row -/

/-- `row`, opened. -/
structure Opened where
  snapshot : Snapshot
  digest : String
  expires : Timestamp
  hash : Bytes32
  revision : Int
  state : State
  receipt : Option Receipt
  outcome : Option Outcome

/-- A column that may be empty. -/
def openOption {α : Type} (column : Option (Sealed α)) (purpose id : String) (size : α → Int) (max : Int) :
    Except Error (Option α) :=
  match column with
  | none => .ok none
  | some sealed => (openBlob sealed purpose id size max).map some

def openRow (row : Row) : Except Error Opened := do
  let v ← openBlob row.snapshot "snapshot" row.id snapshotSize c.options.maxSnapshotBytes
  refuse (c.digest v.toJson.render != row.digest) .internal
  let receipt ← openOption row.receipt "receipt" row.id receiptSize maxReceiptBytes
  let outcome ← openOption row.outcome "outcome" row.id outcomeSize c.options.maxOutcomeBytes
  return ⟨v, row.digest, row.expires, row.hash, row.revision, row.state, receipt, outcome⟩

def load (s : Store) (id : String) : Except Error Opened :=
  match s.continuations.find? id with
  | none => .error .stale
  | some row => openRow c row

/-! ## Writing -/

/-- The environment of a call. -/
structure Env where
  /-- Nanoseconds since the Unix epoch. -/
  now : Nat
  secret : Option Bytes32
  /-- The length of the cipher text of a document, by its purpose. -/
  cipher : String → Option Int
  commit : Commit

/-- What a transaction on the database leads to. -/
abbrev Change (α : Type) := Pagnet.Change Store α

def charge (s : Store) (records bytes : Int) : Except Error Store := do
  refuse (!(s.records + records ≤ c.options.maxRecords && s.bytes + bytes ≤ c.options.maxBytes))
    (.invalid "Continuation store capacity reached")
  return { s with records := s.records + records, bytes := s.bytes + bytes }

variable (env : Env)

def mint (id : String) : Except Error Token :=
  match env.secret with
  | none => .error .internal
  | some secret => .ok ⟨id, secret⟩

def recipientDomain : Text := "pagnet.continuation.recipient.v1".toList ++ ['\x00']

def notificationRecipient (p : Principal) : String :=
  hexEncode (c.sha256 (bytesOf (recipientDomain ++ p.toJson.render)))

def notificationPurpose (recipient : String) (revision : Int) : String :=
  "notification." ++ recipient ++ "." ++ toString revision

/-- One turn of `writeNotifications`. -/
def writeNotification (v : Snapshot) (token : Token) (revision : Nat) (expiry : Timestamp)
    (s : Store) (recipient : Principal) : Except Error Store := do
  let key := notificationRecipient c recipient
  let plain : NotificationPlain := ⟨1, v.deferralID, recipient, revision, expiry, token⟩
  refuse (maxNotificationBytes < notificationSize plain) .internal
  let purpose := notificationPurpose key revision
  let cipher ← sealBlob (env.cipher purpose) purpose v.deferralID plain (notificationSize plain) maxNotificationBytes
  let previous := ((s.notifications.find? (v.deferralID, key)).map fun n => n.payload.length).getD 0
  let s ← charge c s 0 (cipher.length - previous)
  return { s with notifications := s.notifications.upsert ⟨v.deferralID, key, revision, cipher, false⟩ }

def writeNotifications (s : Store) (v : Snapshot) (token : Token) (revision : Nat)
    (expiry : Timestamp) : Except Error Store :=
  v.allowedResumePrincipals.foldlM (writeNotification c env v token revision expiry) s

/-- `INSERT INTO continuations`. -/
def insertRow (s : Store) (row : Row) : Except Error Store :=
  match s.continuations.insert row with
  | none => .error .internal
  | some continuations => .ok { s with continuations := continuations }

/-- `UPDATE continuations ... WHERE p`; no row that meets `p` is `stale`. -/
def updateRow (s : Store) (p : Row → Bool) (f : Row → Row) (keeps : ∀ r, (f r).id = r.id) : Except Error Store := do
  refuse (!s.continuations.rows.any p) .stale
  return { s with continuations := s.continuations.modify p f keeps }

structure Issued where
  id : String
  revision : Int
  created : Bool
  token : Option Token
  deriving DecidableEq

/-! ## The operations -/

variable (ctx : ExecutionContext)

/-- The first part of `Create`, before the store is locked. -/
def checkCreate (v : Snapshot) : Except Error Unit := do
  c.authenticated ctx
  refuse (ctx.principal != v.originalPrincipal) (.unauthenticated "Original principal mismatch")
  refuse (!ctx.envelope v.originalEnvelope) .envelope
  refuse (c.options.maxSnapshotBytes < size v.pipeline || c.options.maxSnapshotBytes < size v.state)
    (.invalid "Snapshot exceeds capacity")
  validateSnapshot c v
  refuse (c.options.maxSnapshotBytes < snapshotSize v) (.invalid "Snapshot exceeds capacity")

/-- `Create` of an identity that has no row. -/
def createNew (s : Store) (v : Snapshot) (expires : Timestamp) : Except Error (Change Issued) := do
  refuse (expires.isZero || !after expires (clock env.now) || c.options.maxTTL < sub expires (clock env.now))
    (.invalid "Invalid continuation expiry")
  let token ← mint env v.deferralID
  let sealed ← sealBlob (env.cipher "snapshot") "snapshot" v.deferralID v (snapshotSize v) c.options.maxSnapshotBytes
  let s ← charge c s 1 sealed.length
  let s ← insertRow s ⟨v.deferralID, sealed, c.digest v.toJson.render, expires.utc, c.sha256 (List.ofFn token.secret), 1,
    .pending, none, none⟩
  let s ← writeNotifications c env s v token 1 expires.utc
  return .commit s ⟨v.deferralID, 1, true, some token⟩

def create (s : Store) (ctx : ExecutionContext) (v : Snapshot) (expires : Timestamp) :
    Except Error (Change Issued) := do
  checkCreate c ctx v
  match load c s v.deferralID with
  | .ok prior =>
    refuse (prior.snapshot != v || prior.expires != expires.utc) .stale
    return .answer ⟨v.deferralID, prior.revision, false, none⟩
  | .error .stale => createNew c env s v expires
  | .error e => .error e

/-- A time that was stored. -/
def storedTime (t : Timestamp) : Except Error Timestamp :=
  match parseTime t with
  | none => .error .internal
  | some t => .ok t

def rotatePendingCapability (s : Store) (ctx : ExecutionContext) (id : String) (expected : Nat) :
    Except Error (Change Issued) := do
  c.authenticated ctx
  refuse (!hexID id || expected == 0 || maxInt64 ≤ expected) .stale
  let r ← load c s id
  let v ← orInternal (snapshot c r.snapshot)
  let expiry ← storedTime r.expires
  refuse (!allowed v ctx.principal || r.state != .pending || r.revision != expected || !after expiry (clock env.now))
    .stale
  let token ← mint env id
  let s ← updateRow s (fun row => row.id = id && row.state = .pending && row.revision = r.revision)
    (fun row => { row with hash := c.sha256 (List.ofFn token.secret), revision := row.revision + 1 }) fun _ => rfl
  let s ← writeNotifications c env s v token (expected + 1) r.expires
  return .commit s ⟨id, expected + 1, false, some token⟩

structure ClaimResult where
  receipt : Receipt
  snapshot : Snapshot
  state : State
  fresh : Bool
  outcome : Option Outcome

/-- `decode` of a stored document. -/
def decodeStored {α : Type} (toJson : α → Value) (bound : Int) (a : α) : Except Error α := do
  refuse (!decodesValue (plainLimits bound) (toJson a)) .internal
  return a

/-- The outcome of a continuation that has one. -/
def decodeOutcome : Option Outcome → Except Error (Option Outcome)
  | none => .ok none
  | some out => (decodeStored Outcome.toJson c.options.maxOutcomeBytes out).map some

/-- `Claim` of a continuation that was claimed before. -/
def claimAgain (r : Opened) (v : Snapshot) (claimID : String) : Except Error (Change ClaimResult) :=
  match r.receipt with
  | none => .error .internal
  | some receipt => do
    let receipt ← decodeStored Receipt.toJson maxReceiptBytes receipt
    refuse (receipt.claimID != claimID || receipt.principal != ctx.principal || receipt.audience != c.audience) .stale
    let outcome ← decodeOutcome c r.outcome
    return .answer ⟨receipt, v, r.state, false, outcome⟩

/-- `Claim` of a pending continuation. -/
def claimFresh (s : Store) (ctx : ExecutionContext) (r : Opened) (v : Snapshot)
    (id claimID : String) : Except Error (Change ClaimResult) := do
  let expiry ← storedTime r.expires
  refuse (!after expiry (clock env.now)) .stale
  let receipt : Receipt := ⟨id, claimID, ctx.principal, c.audience, r.digest, v.planDigest, r.revision.toNat, clock env.now⟩
  refuse (!receipt.encodable || maxReceiptBytes < receiptSize receipt) .internal
  let sealed ← sealBlob (env.cipher "receipt") "receipt" id receipt (receiptSize receipt) maxReceiptBytes
  let s ← charge c s 0 sealed.length
  let s ← updateRow s (fun row => row.id = id && row.state = .pending && row.revision = r.revision)
    (fun row => { row with state := .claimed, receipt := some sealed }) fun _ => rfl
  return .commit s ⟨receipt, v, .claimed, true, none⟩

def claim (s : Store) (ctx : ExecutionContext) (token : Option Token) (claimID : String) :
    Except Error (Change ClaimResult) := do
  c.authenticated ctx
  let (id, hash) ← parseToken c token
  refuse (!hexID claimID) (.invalid "Claim identity must be a stable 256-bit identity")
  let r ← load c s id
  let v ← orInternal (snapshot c r.snapshot)
  refuse (!allowed v ctx.principal || hash != r.hash) .stale
  if r.state = .pending then claimFresh c env s ctx r v id claimID else claimAgain c ctx r v claimID

/-- The first part of `Complete`, before the store is locked. -/
def checkComplete (receipt : Receipt) (out : Outcome) : Except Error Unit := do
  c.authenticated ctx
  refuse (!hexID receipt.id || !hexID receipt.claimID || !hexID receipt.planDigest || !hexID receipt.snapshotDigest ||
    receipt.capabilityRevision == 0 || receipt.claimedAt.isZero || receipt.principal != ctx.principal ||
    receipt.audience != c.audience) .stale
  refuse (out.effect == .unsupported) (.invalid "Invalid effect evidence")
  refuse (!decodesText (c.privateLimits c.options.maxOutcomeBytes) out.data) invalidJSON
  refuse (c.options.maxOutcomeBytes < outcomeSize out) (.invalid "Outcome exceeds capacity")
  refuse (!receipt.encodable) .stale

def complete (c : Config) (env : Env) (s : Store) (ctx : ExecutionContext) (receipt : Receipt) (out : Outcome) :
    Except Error (Change Outcome) := do
  checkComplete c ctx receipt out
  let r ← load c s receipt.id
  refuse (r.state == .pending || r.receipt != some receipt) .stale
  if r.state = .complete then do
    refuse (r.outcome != some out) .stale
    return .answer out
  else do
    let sealed ← sealBlob (env.cipher "outcome") "outcome" receipt.id out (outcomeSize out) c.options.maxOutcomeBytes
    let s ← charge c s 0 sealed.length
    let s ← updateRow s (fun row => row.id = receipt.id && row.state = .claimed)
      (fun row => { row with state := .complete, outcome := some sealed }) fun _ => rfl
    return .commit s out

def acknowledgePrivateNotification (s : Store) (ctx : ExecutionContext) (token : Option Token)
    (revision : Nat) : Except Error (Change Unit) := do
  let (id, hash) ← parseToken c token
  refuse (!ctx.verified || ctx.audience != c.audience) .stale
  let r ← load c s id
  refuse (match snapshot c r.snapshot with
    | .error _ => true
    | .ok v => !allowed v ctx.principal || r.state != .pending || r.revision != revision || hash != r.hash) .stale
  refuse (match parseTime r.expires with
    | none => true
    | some expiry => !after expiry (clock env.now)) .stale
  let key := notificationRecipient c ctx.principal
  let published : Notification → Bool := fun n => n.id = id && n.recipient = key && n.revision = revision
  refuse (!s.notifications.rows.any published) .stale
  let notifications := s.notifications.modify published (fun n => { n with published := true }) fun _ => rfl
  return .commit { s with notifications := notifications } ()

/-! ## The checks of the opener -/

/-- What the loop over the continuations has counted. -/
structure Counted where
  count : Int
  total : Int
  notifications : Int

def rowBytes (row : Row) : Int :=
  row.snapshot.length + (row.receipt.map (·.length)).getD 0 + (row.outcome.map (·.length)).getD 0

/-- A receipt of the row it is stored in. -/
def validReceipt (id : String) (r : Opened) (v : Snapshot) (expiry : Timestamp) (receipt : Receipt) : Bool :=
  decodesValue (plainLimits maxReceiptBytes) receipt.toJson && receipt.id = id && hexID receipt.claimID &&
    allowed v receipt.principal && receipt.audience = c.audience && receipt.snapshotDigest = r.digest &&
    receipt.planDigest = v.planDigest && receipt.capabilityRevision = r.revision && !receipt.claimedAt.isZero &&
    after expiry receipt.claimedAt

def validOutcome (out : Outcome) : Bool :=
  out.effect != .unsupported && decodesText (c.privateLimits c.options.maxOutcomeBytes) out.data

/-- The columns that belong to a state. -/
def verifyState (id : String) (r : Opened) (v : Snapshot) (expiry : Timestamp) : Bool :=
  match r.state, r.receipt, r.outcome with
  | .pending, none, none => true
  | .claimed, some receipt, none => validReceipt c id r v expiry receipt && receipt.encodable
  | .complete, some receipt, some out =>
    validReceipt c id r v expiry receipt && receipt.encodable &&
      decodesValue (plainLimits c.options.maxOutcomeBytes) out.toJson && validOutcome c out
  | _, _, _ => false

/-- One turn of the loop of `verify`. -/
def verifyRow (counted : Counted) (row : Row) : Except Error Counted := do
  refuse (c.options.maxBytes - counted.total < rowBytes row || c.options.maxRecords < counted.count + 1) .internal
  let r ← openRow c row
  refuse (row.revision < 1 || r.digest != c.digest r.snapshot.toJson.render) .internal
  let v ← orInternal (snapshot c r.snapshot)
  refuse (v.deferralID != row.id) .internal
  let expiry ← storedTime r.expires
  refuse (expiry.isZero || expiry.utc != r.expires) .internal
  refuse (!verifyState c row.id r v expiry) .internal
  return ⟨counted.count + 1, counted.total + rowBytes row, counted.notifications + v.allowedResumePrincipals.length⟩

/-- `decodeNotification`. -/
def decodeNotification (n : Notification) : Except Error NotificationPlain := do
  let v ← openBlob n.payload (notificationPurpose n.recipient n.revision) n.id notificationSize maxNotificationBytes
  refuse (!decodesValue (plainLimits maxNotificationBytes) v.toJson || v.format != 1 || v.id != n.id ||
    v.revision != n.revision || notificationRecipient c v.recipient != n.recipient) .internal
  return v

/-- One turn of the loop of `verifyNotifications`: the rows so far, and their bytes with those of the continuations. -/
def verifyNotification (s : Store) (counted : Int × Int) (n : Notification) : Except Error (Int × Int) := do
  refuse (c.options.maxRecords < (counted.1 + 1 + 63) / 64 ||
    c.options.maxBytes - counted.2 < n.payload.length) .internal
  match s.continuations.find? n.id with
  | none => .error .internal
  | some row => do
    refuse (n.revision != row.revision) .internal
    let v ← decodeNotification c n
    refuse (v.expiry != row.expires) .internal
    let (id, hash) ← orInternal (parseToken c (some v.token))
    refuse (id != n.id || hash != row.hash) .internal
    return (counted.1 + 1, counted.2 + n.payload.length)

/-- A blob that no row may hold. -/
def oversized (row : Row) : Bool :=
  c.options.maxSnapshotBytes + maxSealOverhead < row.snapshot.length ||
    row.receipt.any (fun r => maxReceiptBytes + maxSealOverhead < r.length) ||
    row.outcome.any (fun o => c.options.maxOutcomeBytes + maxSealOverhead < o.length) || row.revision < 1

/-- `Store.verify`. -/
def verify (s : Store) : Except Error Unit := do
  refuse (s.continuations.rows.any (oversized c)) .internal
  let counted ← s.continuations.rows.foldlM (verifyRow c) ⟨0, 0, 0⟩
  let notified ← s.notifications.rows.foldlM (verifyNotification c s) (0, counted.total)
  refuse (notified.1 != counted.notifications) .internal
  refuse (s.records != counted.count || s.bytes != notified.2) .internal

end Pagnet.Continuation
