import Pagnet.Data.Refusal
import Pagnet.Data.Table
import Pagnet.Json.GoString

/-!
# The session worker's wire types and tables

The rows that `internal/sessionworker` keeps in its cloud journal, with the
transport types they are made of. Identities and kinds are `String`s: requests
reach the worker through a JSON decoder, so they are valid UTF-8 and their times
have zones of whole minutes. The two free texts of a cancellation proposal are
Go strings, since the length they were checked for need not be the one they are
read back with. A column that holds the JSON encoding of a struct is represented
by the struct that `encoding/json` reads back from it; the length of the
encoding is `encodedSize`. The `int64` columns and arguments are integers, and
`wrap64` is the one addition of the source that can leave the range.
-/

namespace Pagnet.SessionWorker
open Json

def maxInt64 : Int := 9223372036854775807

/-- Two's complement wrap-around of an `int64` sum. -/
def wrap64 (x : Int) : Int := (x + 9223372036854775808) % 18446744073709551616 - 9223372036854775808

def maxCommands : Nat := 128

def maxOutcomeBytes : Nat := 65536

/-- The bound of an encoded cancellation record. -/
def maxPreparationBytes : Nat := 16384

/-- What the callers of the journal see of a refusal. -/
inductive Error where
  | fenced
  | conflict
  | retired
  | nativeBusy
  | full
  | dispatchGap
  | invalidIntent
  | invalidOutcome
  /-- The driver's error for an insert that a constraint or a trigger aborts. -/
  | constraint
  /-- `sql.ErrNoRows`. -/
  | noRows
  | unencodable
  | unauthorized (message : String)
  | incompleteHistory
  | invalidHistory
  | invalidReservations
  deriving DecidableEq, Repr

/-- `nativeauthority.CloudScope`. -/
structure Scope where
  serverURL : String
  tenantID : String
  accountID : String
  hostID : String
  instanceID : String
  generation : String
  deriving DecidableEq, Repr

/-- `transport.NativeTaskSource` and `transport.NativeInvocationSource`: an
identity and the additional data of its input, carried as encoded. -/
structure NativeSource where
  id : String
  inputAAD : Value
  deriving DecidableEq

/-- `transport.NativeDispatchProof`. -/
structure NativeDispatchProof where
  invocationSource : Option NativeSource
  taskSource : Option NativeSource
  sourceBootID : String
  ownershipID : String
  ownershipGeneration : String
  dispatchSequence : Int
  sourceCommandID : String
  sourceAdmissionID : String
  sourceRunnerID : String
  sourceRunnerEpoch : Timestamp
  deriving DecidableEq

namespace NativeDispatchProof

def sourceFields (name idName : String) : Option NativeSource → List (String × Value)
  | none => []
  | some s => [(name, .ofFields [(idName, .ofString s.id), ("inputAAD", s.inputAAD)])]

def toJson (p : NativeDispatchProof) : Value :=
  .ofFields (sourceFields "invocationSource" "invocationId" p.invocationSource ++
    sourceFields "taskSource" "taskId" p.taskSource ++
    [("sourceBootId", .ofString p.sourceBootID), ("ownershipId", .ofString p.ownershipID),
      ("ownershipGeneration", .ofString p.ownershipGeneration), ("dispatchSequence", .ofInt p.dispatchSequence),
      ("sourceCommandId", .ofString p.sourceCommandID), ("sourceAdmissionId", .ofString p.sourceAdmissionID),
      ("sourceRunnerId", .ofString p.sourceRunnerID), ("sourceRunnerEpoch", p.sourceRunnerEpoch.toJson)])

/-- `transport.SameNativeDispatchProof`. -/
def same (a b : NativeDispatchProof) : Bool :=
  { a with sourceRunnerEpoch := a.sourceRunnerEpoch.utc } = { b with sourceRunnerEpoch := b.sourceRunnerEpoch.utc }

theorem same_sequence {a b : NativeDispatchProof} (h : a.same b) : a.dispatchSequence = b.dispatchSequence := by
  simp only [same, decide_eq_true_eq, mk.injEq] at h
  exact h.2.2.2.2.2.1

end NativeDispatchProof

/-- `transport.NativeWorkerOwnership`; a deletion proof is carried as encoded. -/
structure NativeWorkerOwnership where
  deletionProof : Option Value
  id : String
  instanceID : String
  ownershipGeneration : String
  runtime : String
  profile : String
  originalAdmissionID : String
  state : String
  lastDispatchSequence : Int
  retiredFloor : Int
  profileFingerprint : String
  deriving DecidableEq

/-- `transport.NativeDispatchCancellationProposal`. -/
structure CancellationProposal where
  instanceID : String
  commandType : GoString
  reason : GoString
  proof : NativeDispatchProof
  deriving DecidableEq

/-- `transport.SameNativeDispatchCancellationProposal`. -/
def CancellationProposal.same (a b : CancellationProposal) : Bool :=
  a.instanceID = b.instanceID && a.commandType = b.commandType && a.reason = b.reason && a.proof.same b.proof

/-- `utf8.ValidString` of the free texts. -/
def CancellationProposal.isValid (p : CancellationProposal) : Bool := p.commandType.isValid && p.reason.isValid

/-- `transport.NativeDispatchCancelPayload`. -/
structure CancelPayload where
  requestID : String
  preparationID : String
  instanceID : String
  ownershipID : String
  ownershipGeneration : String
  dispatchSequence : Int
  sourceCommandID : String
  sourceAdmissionID : String
  deriving DecidableEq

/-- `transport.NativeDispatchCancelledPayload`. -/
structure CancelledPayload where
  requestID : String
  preparationID : String
  instanceID : String
  proof : Option NativeDispatchProof
  disposition : String
  publicError : String
  retryable : Bool
  deriving DecidableEq

inductive CancellationState where
  | prepared
  | finalized
  deriving DecidableEq, Repr

def CancellationState.text : CancellationState → String
  | .prepared => "prepared"
  | .finalized => "finalized"

/-- `DispatchCancellationPreparation`, and its row: the columns repeat fields of the payload. -/
structure CancellationPreparation where
  request : CancelPayload
  proposal : CancellationProposal
  state : CancellationState
  deriving DecidableEq

namespace CancellationPreparation

def toJson (r : CancellationPreparation) : Value :=
  .ofFields [
    ("request", .ofFields [("requestId", .ofString r.request.requestID),
      ("preparationId", .ofString r.request.preparationID), ("instanceId", .ofString r.request.instanceID),
      ("ownershipId", .ofString r.request.ownershipID),
      ("ownershipGeneration", .ofString r.request.ownershipGeneration),
      ("dispatchSequence", .ofInt r.request.dispatchSequence),
      ("sourceCommandId", .ofString r.request.sourceCommandID),
      ("sourceAdmissionId", .ofString r.request.sourceAdmissionID)]),
    ("proposal", .ofFields [("instanceId", .ofString r.proposal.instanceID),
      ("commandType", .ofGoString r.proposal.commandType), ("reason", .ofGoString r.proposal.reason),
      ("proof", r.proposal.proof.toJson)]),
    ("state", .ofString r.state.text)]

/-- `len(json.Marshal(record))`. -/
def encodedSize (r : CancellationPreparation) : Nat := r.toJson.size

/-- `json.Marshal` fails on a time it cannot write. -/
def encodable (r : CancellationPreparation) : Bool := r.proposal.proof.sourceRunnerEpoch.encodable

/-- What `json.Unmarshal` reads back from the payload of a record. -/
def stored (r : CancellationPreparation) : CancellationPreparation :=
  { r with proposal := { r.proposal with
      commandType := r.proposal.commandType.coerce
      reason := r.proposal.reason.coerce } }

theorem stored_of_valid {r : CancellationPreparation} (valid : r.proposal.isValid) : r.stored = r := by
  obtain ⟨command, reason⟩ := Bool.and_eq_true_iff.1 valid
  simp only [stored, GoString.coerce_of_valid command, GoString.coerce_of_valid reason]

end CancellationPreparation

/-- `Admission`. -/
structure Admission where
  nativeAdmissionID : String
  scope : Scope
  tenantID : String
  networkID : String
  kind : String
  runnerID : String
  runnerEpoch : Timestamp
  bootID : String
  deriving DecidableEq

/-- The state column of an intent and of its dispatch. -/
inductive IntentState where
  | admitted
  | completed
  | failed
  | uncertain
  | resourceInterrupted
  | ownerStopped
  deriving DecidableEq, Repr

/-- A row of `worker_intent`. A missing result is the empty text. -/
structure IntentRow where
  sequence : Int
  commandID : String
  digest : String
  kind : String
  state : IntentState
  result : Text
  acknowledged : Bool
  deriving DecidableEq

/-- A row of `worker_intent_admission`. -/
structure AdmissionRow where
  sequence : Int
  admission : Admission
  deriving DecidableEq

/-- A row of `worker_dispatches`. -/
structure DispatchRow where
  dispatchSequence : Int
  operationSequence : Int
  commandID : String
  proof : NativeDispatchProof
  state : IntentState
  operationKind : String
  deriving DecidableEq

/-- The row of `worker_dispatch_meta`. -/
structure DispatchMeta where
  ownership : NativeWorkerOwnership
  lastSequence : Int
  retired : Int
  deriving DecidableEq

/-- A row of `worker_terminal_reservations`. -/
structure ReservationRow where
  sequence : Int
  rowsLeft : Nat
  captureLeft : Nat
  contentLeft : Nat
  deriving DecidableEq

/-- A row of `worker_terminal_view_commits`. -/
structure ViewCommitRow where
  operationSequence : Int
  committed : Bool
  deriving DecidableEq

/-- A row of `worker_resource_settlements` or `worker_owner_stop_settlements`:
its sequence and the dispatch proof of its payload. -/
structure SettlementRow where
  sequence : Int
  proof : Option NativeDispatchProof
  finished : Bool
  deriving DecidableEq

/-- The evidence tables of a native turn that journal operations read: sequences
of `worker_output_spools`, `worker_resource_interruptions` and
`worker_observations`, source commands of `worker_turn_sources`, and the
aggregates that `reserveTerminalTx` sums up. The worker's other operations fill
them; no operation of this development does. -/
structure Evidence where
  resourceSettlements : List SettlementRow
  ownerStopSettlements : List SettlementRow
  turnSources : List (Int × String)
  outputSpools : List Int
  resourceInterruptions : List Int
  observations : List Int
  observationRows : Nat
  observationBytes : Nat
  unmarkedObservations : Nat
  contentFragments : Nat
  sourceStops : Nat

/-- The cloud journal: the tables behind `Journal.db`. -/
structure Journal where
  lease : Int
  nextSequence : Int
  retired : Int
  ownershipRetired : Bool
  intents : Table IntentRow IntentRow.sequence
  admissions : Table AdmissionRow AdmissionRow.sequence
  dispatchMeta : Option DispatchMeta
  dispatches : Table DispatchRow DispatchRow.dispatchSequence
  cancellations : Table CancellationPreparation fun r => r.request.dispatchSequence
  reservations : Table ReservationRow ReservationRow.sequence
  viewCommits : Table ViewCommitRow ViewCommitRow.operationSequence
  evidence : Evidence

def Evidence.empty : Evidence := ⟨[], [], [], [], [], [], 0, 0, 0, 0, 0⟩

/-- A journal as its first open creates it. -/
def Journal.initial : Journal :=
  ⟨0, 1, 0, false, .empty, .empty, none, .empty, .empty, .empty, .empty, .empty⟩

/-- `Outcome`, as far as cloud journals use it. -/
structure Outcome where
  sourceAdmission : Option Admission
  sequence : Int
  commandID : String
  kind : String
  state : IntentState
  result : Text
  deriving DecidableEq

/-- What a journal is opened with, and the code outside this repository it
calls: `uuid.Parse` of `domain.ParseID` and `sha256.Sum256`. -/
structure Context where
  scope : Scope
  parseID : String → Bool
  sha256 : List UInt8 → Fin 32 → UInt8

end Pagnet.SessionWorker
