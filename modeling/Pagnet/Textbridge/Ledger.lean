import Pagnet.Textbridge.Types

/-!
# The operations of the text bridge ledger

`Insert`, `CompareAndSwap` and `Revoke` work on one job; the operations on the
provider budget are immediate transactions. `CompareAndSwap` and `Revoke` read the
job first and then update the row if it is still the one they read: `prepare` is
the part in front of the update.
-/

namespace Pagnet.Textbridge
open Json

/-! ## Jobs -/

variable (c : Config)

/-- `Store.encode`. -/
def encode (j : Job) : Except Error Sealed := do
  refuse (j.projectID == [] || j.askID == [] || j.revision < 1 || !validData c j.data) .invalid
  match marshal j.data with
  | none => .error .malformed
  | some plain => return ⟨j.projectID.coerce, j.askID.coerce, j.revision, j.phase, j.revoked, plain⟩

/-- The row of a job. -/
def Job.row (j : Job) (sealed : Sealed) : JobRow := ⟨j.projectID, j.askID, j.revision, j.phase, j.revoked, sealed⟩

/-- `Store.scan`. -/
def scan (row : JobRow) : Except Error Job := do
  refuse (row.sealed.projectID != row.projectID.coerce || row.sealed.askID != row.askID.coerce ||
    row.sealed.revision != row.revision || row.sealed.phase != row.phase || row.sealed.revoked != row.revoked) .unauthentic
  match unmarshal row.sealed.plain with
  | none => .error .malformed
  | some d =>
    refuse (row.projectID == [] || row.askID == [] || row.revision < 1 || !validData c d) .invalid
    return ⟨row.projectID, row.askID, row.revision, row.phase, row.revoked, d⟩

variable (s : Store)

/-- `Get`. -/
def get (k : JobKey) : Except Error Job :=
  match s.jobs.find? k with
  | none => .error .noRows
  | some row => scan c row

/-- `List` of every phase. -/
def list : Except Error (List Job) := s.jobs.rows.mapM (scan c)

/-- `Insert`. -/
def insert (c : Config) (s : Store) (projectID askID : GoString) (d : Data) : Except Error (Change Store Job) := do
  let j : Job := ⟨projectID, askID, 1, .queued, false, d⟩
  let sealed ← encode c j
  match s.jobs.insert (j.row sealed) with
  | some jobs => return .commit { s with jobs } j
  | none =>
    let old ← get c s (projectID, askID)
    refuse (old.data.wireDigest != d.wireDigest) .conflict
    return .answer old

/-- `allowed`. -/
def allowed : Phase → Phase → Bool
  | .admitted, _ | .unknown, _ | .rejected, _ => false
  | _, .unknown => true
  | .queued, next => next == .providerStarted || next == .rejected
  | .providerStarted, next => next == .outputReady
  | .outputReady, next => next == .replyPreparing
  | .replyPreparing, next => next == .replyPrepared
  | .replyPrepared, next => next == .admitted

/-- The update that `CompareAndSwap` or `Revoke` is about to make. -/
structure Update where
  /-- The job as it has to be still. -/
  expected : Job
  job : Job
  sealed : Sealed

/-- `Store.replace` in front of its update. -/
def prepare (expected j : Job) : Except Error Update := do
  let stored ← get c s expected.key
  refuse (stored.revision != expected.revision || stored.phase != expected.phase || stored.revoked != expected.revoked)
    (.stale "")
  refuse (j.data.wireDigest != stored.data.wireDigest || j.data.predecessorWire != stored.data.predecessorWire ||
    j.data.header != stored.data.header || j.data.input != stored.data.input ||
    j.data.providerConfigFingerprint != stored.data.providerConfigFingerprint) .invalid
  refuse (expected.revoked && (stored.data.replyID == [] || j.data.replyID != stored.data.replyID ||
    j.data.replyDigest != stored.data.replyDigest)) .invalid
  let j := if j.revoked && !expected.revoked then { j with data := stored.data } else j
  let sealed ← encode c j
  return ⟨expected, j, sealed⟩

/-- `CompareAndSwap` in front of its update. -/
def prepareSwap (expected : Job) (next : Phase) (d : Data) : Except Error Update := do
  refuse (next == .providerStarted || expected.phase == .providerStarted) .invalid
  refuse (expected.revoked && (expected.phase != .replyPrepared || next != .admitted || emptyReceipt d.receipt ||
    d.receipt.any fun text => trimSpace text == ['n', 'u', 'l', 'l'])) .invalid
  refuse (!allowed expected.phase next || d.wireDigest != expected.data.wireDigest) .invalid
  prepare c s expected { expected with revision := increment expected.revision, phase := next, data := d }

/-- `Revoke` in front of its update. -/
def prepareRevoke (expected : Job) : Except Error Update := do
  refuse expected.revoked .invalid
  prepare c s expected { expected with revision := increment expected.revision, revoked := true }

/-- The columns that an update of `jobs` sets. -/
def overwrite (j : Job) (sealed : Sealed) (row : JobRow) : JobRow :=
  { row with revision := j.revision, phase := j.phase, revoked := j.revoked, sealed }

theorem key_overwrite (j : Job) (sealed : Sealed) (row : JobRow) : (overwrite j sealed row).key = row.key := rfl

/-- `UPDATE jobs` of one row. -/
def updateJob (j : Job) (sealed : Sealed) : Store :=
  { s with jobs := s.jobs.modify (fun row => row.key = j.key) (overwrite j sealed) (key_overwrite j sealed) }

/-- The update of `replace`. -/
def Update.apply (u : Update) (s : Store) : Except Error (Change Store Job) :=
  match s.jobs.find? u.job.key with
  | none => .error (.stale "")
  | some row => do
    refuse (row.revision != u.expected.revision || row.phase != u.expected.phase || row.revoked != u.expected.revoked)
      (.stale "")
    return .commit (updateJob s u.job u.sealed) u.job

/-! ## The budget -/

/-- Two claims are of one job. -/
def duplicates : List Active → Bool
  | [] => false
  | a :: rest => (rest.map Active.claim).contains a.claim || duplicates rest

/-- A day of a year of four digits, whose text `time.Parse` reads. -/
def validDay (day : Int) : Bool := 0 ≤ (Timestamp.civil day).1 && (Timestamp.civil day).1 ≤ 9999

/-- The day of a budget that `readBudget` accepts. -/
def checkDay (b : Budget) : Except Error Unit :=
  match b.day with
  | none => refuse (b.calls != 0 || b.active.rows != []) .invalid
  | some day => refuse (!validDay day) .invalid

/-- `readBudget`. -/
def readBudget : Except Error Budget := do
  let b := s.budget
  refuse (s.revision < 1 || b.limits != c.limits || !b.limits.valid || b.calls < 0 || b.limits.callsPerDay < b.calls ||
    b.limits.maxConcurrent < b.active.rows.length) .invalid
  checkDay b
  refuse (b.active.rows.any (fun a => !validDigest a.token || a.projectID == [] || a.askID == []) ||
    duplicates b.active.rows) .invalid
  return b

/-- What is read back of an entry. -/
def Active.coerce (a : Active) : Active := { a with projectID := a.projectID.coerce, askID := a.askID.coerce }

theorem token_coerce (a : Active) : a.coerce.token = a.token := rfl

/-- `writeBudget`: the identities go through JSON. -/
def writeBudget (b : Budget) : Store :=
  { s with
    revision := increment s.revision
    budget := { b with active := b.active.modify (fun _ => true) Active.coerce token_coerce } }

/-- `SetEnabled`. -/
def setEnabled (enabled : Bool) : Except Error (Change Store Unit) := do
  let b ← readBudget c s
  return .commit (writeBudget s { b with enabled }) ()

/-- `writeProviderJob`. -/
def writeProviderJob (j : Job) : Except Error Store := do
  let sealed ← encode c j
  return updateJob s j sealed

/-- The day of a time in UTC. -/
def utcDay (now : Timestamp) : Int := now.instant / 86400000000000

/-- The calls of a day that begins are counted from zero. -/
def rollDay (b : Budget) (day : Int) : Budget :=
  if b.day.all fun old => old < day then { b with day := some day, calls := 0 } else b

/-- `ClaimProvider`; `random` is what the random source gives. -/
def claimProvider (random : Option (Fin 32 → UInt8)) (s : Store) (expected : Job) (now : Timestamp) :
    Except Error (Change Store (Job × GoString)) := do
  let b ← readBudget c s
  refuse (!b.enabled) .disabled
  let j ← get c s expected.key
  refuse (j.revision != expected.revision || j.phase != expected.phase || j.revoked != expected.revoked)
    (.stale "job revision")
  refuse (j.phase != .queued || j.revoked) .invalid
  refuse (!validDay (utcDay now)) .invalid
  refuse (b.day.any fun old => utcDay now < old) (.stale "UTC day rollback")
  let b := rollDay b (utcDay now)
  refuse (b.limits.callsPerDay ≤ b.calls) (.limit "calls per UTC day")
  refuse (b.limits.maxConcurrent ≤ b.active.rows.length) (.limit "concurrent calls")
  match random with
  | none => .error .random
  | some raw =>
    let token := GoString.ofString (hexEncode raw)
    match b.active.insert ⟨token, j.projectID, j.askID⟩ with
    | none => .error .invalid
    | some active =>
      let j := { j with revision := increment j.revision, phase := .providerStarted }
      let s ← writeProviderJob c s j
      return .commit (writeBudget s { b with active, calls := b.calls + 1 }) (j, token)

/-- The claim of a job. -/
def claimOf (b : Budget) (k : JobKey) : Option Active := b.active.rows.find? fun a => a.claim = k

def release (b : Budget) (token : GoString) : Budget := { b with active := b.active.filter fun a => a.token ≠ token }

/-- `AbandonProviderClaim`. -/
def abandonProviderClaim (k : JobKey) (expectedRevision : Int) : Except Error (Change Store Job) := do
  let b ← readBudget c s
  refuse b.enabled .invalid
  let j ← get c s k
  refuse (j.revision != expectedRevision) (.stale "job revision")
  refuse (j.phase != .unknown && j.phase != .providerStarted) .invalid
  match claimOf b k with
  | none => .error (.stale "claim unavailable")
  | some a =>
    if j.phase = .providerStarted then
      let j := { j with revision := increment j.revision, phase := .unknown }
      let s ← writeProviderJob c s j
      return .commit (writeBudget s (release b a.token)) j
    else
      return .commit (writeBudget s (release b a.token)) j

/-- `FinishProvider`. -/
def finishProvider (k : JobKey) (token : GoString) (output : List UInt8) (succeeded : Bool) :
    Except Error (Change Store Job) := do
  let b ← readBudget c s
  refuse (!(b.active.find? token).any fun a => a.claim = k) (.stale "claim token")
  let j ← get c s k
  refuse (j.phase != .providerStarted) (.stale "provider already finished")
  let j := { j with revision := increment j.revision, phase := .unknown }
  if succeeded then do
    refuse (output == []) .invalid
    let j := { j with phase := .outputReady, data := { j.data with output } }
    let s ← writeProviderJob c s j
    return .commit (writeBudget s (release b token)) j
  else do
    let s ← writeProviderJob c s j
    return .commit (writeBudget s b) j

end Pagnet.Textbridge
