import Pagnet.SessionWorker.Journal

/-!
# Settlement, acknowledgement and reopening

The rest of `internal/sessionworker/journal.go`, with the parts of the opener
that refuse a journal: `initializeTerminalReservations`,
`initializeDispatchCancellations`, `initializeDispatches` and `validateHistory`.
-/

namespace Pagnet.SessionWorker
open Json

/-- The outcomes a worker may report. -/
def terminalState : String → Option IntentState
  | "completed" => some .completed
  | "failed" => some .failed
  | "uncertain" => some .uncertain
  | _ => none

variable (sequence : Int)

variable (state : IntentState)

/-- `UPDATE worker_intent SET state=?,result=? WHERE sequence=? AND state='admitted'`. -/
def settleRow (result : Text) (row : IntentRow) : IntentRow :=
  if row.sequence == sequence && row.state == .admitted then { row with state, result } else row

theorem settleRow_key (result : Text) (row : IntentRow) :
    (settleRow sequence state result row).sequence = row.sequence := by
  unfold settleRow
  split <;> rfl

/-- The trigger `worker_dispatch_settle`. -/
def settleDispatch (d : DispatchRow) : DispatchRow :=
  if d.operationSequence == sequence then { d with state } else d

theorem settleDispatch_key (d : DispatchRow) :
    (settleDispatch sequence state d).dispatchSequence = d.dispatchSequence := by
  unfold settleDispatch
  split <;> rfl

/-- Native evidence that keeps a reservation after the outcome. -/
def Evidence.holds (e : Evidence) (sequence : Int) : Bool :=
  e.turnSources.any (·.1 == sequence) || e.outputSpools.any (· == sequence) ||
  e.resourceInterruptions.any (· == sequence) || e.observations.any (· == sequence)

/-- A settlement proves how an interrupted or stopped intent ended. -/
def proven (j : Journal) (sequence : Int) : Bool :=
  j.intents.exists? fun row => row.sequence == sequence &&
    ((row.state == .resourceInterrupted || row.state == .ownerStopped) &&
        j.evidence.resourceSettlements.any (·.sequence == sequence) ||
      row.state == .ownerStopped && j.evidence.ownerStopSettlements.any (·.sequence == sequence))

/-- The update of an admitted row, with its trigger and the release of an unused reservation. -/
def settleAdmitted (j : Journal) (sequence : Int) (state : IntentState) (result : Text) : Journal :=
  { j with
    intents := j.intents.modify (settleRow sequence state result) (settleRow_key sequence state result)
    dispatches := j.dispatches.modify (settleDispatch sequence state) (settleDispatch_key sequence state)
    reservations := if state == .uncertain || j.evidence.holds sequence then j.reservations
      else j.reservations.filter (·.sequence != sequence) }

/-- `UPDATE worker_resource_settlements SET finished=1 WHERE sequence=?`. -/
def finishRow (s : SettlementRow) : SettlementRow :=
  if s.sequence == sequence then { s with finished := true } else s

/-- An admitted turn may finish after its controller was replaced, so no lease is checked. -/
def settle (j : Journal) (sequence : Int) (state : String) (result : Text) : Except Error Journal :=
  match terminalState state with
  | none => .error .invalidOutcome
  | some state => do
    refuse (maxOutcomeBytes < size result || (!result.isEmpty && !valid result)) .invalidOutcome
    if j.intents.exists? fun row => row.sequence == sequence && row.state == .admitted then
      return settleAdmitted j sequence state result
    refuse (!proven j sequence) .conflict
    return { j with evidence := { j.evidence with
      resourceSettlements := j.evidence.resourceSettlements.map (finishRow sequence) } }

theorem terminalState_eq_some {text : String} {state : IntentState} (h : terminalState text = some state) :
    state = .completed ∨ state = .failed ∨ state = .uncertain := by
  unfold terminalState at h
  split at h <;> cases h <;> simp

variable {j j' : Journal} {sequence : Int}

/-- A settlement updates an admitted row, or finishes the proof of an interrupted one. -/
theorem settle_ok {state : String} {result : Text}
    (h : settle j sequence state result = .ok j') :
    ∃ terminal, terminalState state = some terminal ∧ size result ≤ maxOutcomeBytes ∧
      (result.isEmpty ∨ valid result) ∧
      (j' = settleAdmitted j sequence terminal result ∨ proven j sequence ∧
        j' = { j with evidence := { j.evidence with
          resourceSettlements := j.evidence.resourceSettlements.map (finishRow sequence) } }) := by
  unfold settle at h
  split at h
  · cases h
  case h_2 terminal known =>
    obtain ⟨bounds, h⟩ := of_refuse h
    simp only [Bool.or_eq_false_iff, decide_eq_false_iff_not, not_lt, Bool.and_eq_false_iff,
      Bool.not_eq_false'] at bounds
    refine ⟨terminal, known, bounds.1, bounds.2, ?_⟩
    split at h
    · cases h
      exact .inl rfl
    · obtain ⟨evidence, h⟩ := of_refuse h
      cases h
      exact .inr ⟨by simpa using evidence, rfl⟩

/-- `UPDATE worker_intent SET acknowledged=1 WHERE sequence=? AND state!='admitted'`. -/
def acknowledgeRow (sequence : Int) (row : IntentRow) : IntentRow :=
  if row.sequence == sequence && row.state != .admitted then { row with acknowledged := true } else row

theorem acknowledgeRow_key (sequence : Int) (row : IntentRow) :
    (acknowledgeRow sequence row).sequence = row.sequence := by
  unfold acknowledgeRow
  split <;> rfl

/-- The journal with the receipt, before its floor moves. -/
def markAcknowledged (j : Journal) (sequence : Int) : Journal :=
  { j with intents := j.intents.modify (acknowledgeRow sequence) (acknowledgeRow_key sequence) }

def acknowledgedAt (intents : Table IntentRow IntentRow.sequence) (sequence : Int) : Bool :=
  intents.exists? fun row => row.sequence == sequence && row.acknowledged

/-- The loop of `Acknowledge`: the floor rises while the next row is
acknowledged; see `climb_table` for the fuel. -/
def raisedFloor (j : Journal) : Int := climb (acknowledgedAt j.intents) j.intents.count j.retired

/-- The last part of `Acknowledge`: rows at or below the new floor are pruned. -/
def prune (j : Journal) : Journal :=
  let floor := raisedFloor j
  { j with
    admissions := j.admissions.filter fun row => floor < row.sequence
    intents := j.intents.filter fun row => floor < row.sequence
    retired := floor }

/-- A durable receipt of the current controller. -/
def acknowledge (j : Journal) (lease sequence : Int) : Except Error Journal := do
  let (_, floor) ← checkLease j lease
  if sequence ≤ floor then
    return j
  refuse (j.evidence.resourceSettlements.any fun s => s.sequence == sequence && !s.finished) .conflict
  refuse (j.viewCommits.exists? fun v => v.operationSequence == sequence && !v.committed) .conflict
  refuse (!j.intents.exists? fun row => row.sequence == sequence && row.state != .admitted) .conflict
  return prune (markAcknowledged j sequence)

theorem acknowledge_ok {lease : Int} (h : acknowledge j lease sequence = .ok j') :
    (0 < lease ∧ j.lease = lease) ∧ (j' = j ∨ j' = prune (markAcknowledged j sequence)) := by
  obtain ⟨_, leased, h⟩ := of_bind h
  obtain ⟨positive, current, rfl⟩ := checkLease_eq_ok.1 leased
  refine ⟨⟨positive, current⟩, ?_⟩
  dsimp only at h
  split at h
  · cases h
    exact .inl rfl
  · have h := past_refuse h
    have h := past_refuse h
    have h := past_refuse h
    cases h
    exact .inr rfl

/-! ## Opening a journal -/

def initializeTerminalReservations (j : Journal) : Except Error Unit :=
  let e := j.evidence
  refuse (j.reservations.exists? (fun r => r.sequence < 1 || terminalSourceReserveRows < r.rowsLeft ||
      terminalCaptureReserveBytes < r.captureLeft || terminalContentReserveBytes < r.contentLeft) ||
    maxCommands < j.reservations.count ||
    maxPendingObservations < e.observationRows + reserved j (·.rowsLeft) ||
    maxPendingObservationBytes < e.observationBytes + reserved j (·.captureLeft) ||
    maxWorkerContentBytes < e.contentFragments + reserved j (·.contentLeft)) .invalidReservations

variable (c : Context)

/-- A stored cancellation the opener accepts. -/
def initializeCancellation (j : Journal) (r : CancellationPreparation) : Except Error Unit := do
  checkCancellationOwnershipTx c j r.proposal.proof false
  checkNeverAcceptedDispatchTx j r.proposal.proof

def initializeDispatchCancellations (j : Journal) : Except Error Unit := do
  refuse (maxCommands < j.cancellations.count) .full
  refuse (j.cancellations.exists? fun r =>
    maxPreparationBytes < r.encodedSize || !validCancellationPreparation c r) .conflict
  j.cancellations.rows.forM (initializeCancellation c j)

/-- A dispatch row may recover its kind from the intent it started. -/
def recoverKind (j : Journal) (d : DispatchRow) : DispatchRow :=
  match j.intents.find? d.operationSequence with
  | some row => if d.operationKind == "" && row.commandID == d.commandID then { d with operationKind := row.kind } else d
  | none => d

theorem recoverKind_key (j : Journal) (d : DispatchRow) :
    (recoverKind j d).dispatchSequence = d.dispatchSequence := by
  unfold recoverKind
  split
  · split <;> rfl
  · rfl

/-- The row condition of the opener's query over `worker_dispatches`. -/
def invalidDispatch (j : Journal) (m : DispatchMeta) (d : DispatchRow) : Bool :=
  let settled (rows : List SettlementRow) := rows.any fun s => s.sequence == d.operationSequence && s.proof == some d.proof
  d.dispatchSequence ≤ m.retired || m.lastSequence < d.dispatchSequence ||
  d.operationSequence ≤ 0 || j.nextSequence ≤ d.operationSequence ||
  (d.state == .resourceInterrupted && !settled j.evidence.resourceSettlements) ||
  (d.state == .ownerStopped && !settled j.evidence.ownerStopSettlements) ||
  !(d.operationKind == "" || d.operationKind ∈ ownedKinds) ||
  j.intents.exists? (fun row => row.sequence == d.operationSequence &&
    (row.commandID != d.commandID || (d.operationKind != "" && row.kind != d.operationKind))) ||
  d.proof.ownershipID != m.ownership.id || d.proof.ownershipGeneration != c.scope.generation ||
  d.proof.dispatchSequence != d.dispatchSequence || d.proof.sourceCommandID != d.commandID

/-- The finalized cancellations that `last_sequence` has passed. -/
def tombstones (j : Journal) (m : DispatchMeta) : Table CancellationPreparation fun r => r.request.dispatchSequence :=
  j.cancellations.filter fun r => r.state == .finalized &&
    m.retired < r.request.dispatchSequence && r.request.dispatchSequence ≤ m.lastSequence

/-- The checks of `initializeDispatches`. -/
def checkDispatches (j : Journal) : Except Error Unit :=
  match j.dispatchMeta with
  | none => refuse (j.dispatches.count != 0) .conflict
  | some m => do
    let count := j.dispatches.count + (tombstones j m).count
    refuse (m.lastSequence < m.retired || m.retired < 0 || m.lastSequence - m.retired != count ||
      maxCommands < count) .conflict
    refuse (m.ownership.instanceID != c.scope.instanceID ||
      m.ownership.ownershipGeneration != c.scope.generation) .conflict
    refuse (j.dispatches.exists? (invalidDispatch c j m)) .conflict

def initializeDispatches (j : Journal) : Except Error Journal := do
  let j := { j with dispatches := j.dispatches.modify (recoverKind j) (recoverKind_key j) }
  checkDispatches c j
  return j

/-- The row condition of `validateHistory` beside the order of the sequences. -/
def invalidIntentRow (j : Journal) (row : IntentRow) : Bool :=
  let settled (rows : List SettlementRow) := rows.any (·.sequence == row.sequence)
  row.commandID == "" || 256 < row.commandID.utf8ByteSize || row.kind == "" || 64 < row.kind.utf8ByteSize ||
  !validDigest row.digest ||
  ((row.state == .resourceInterrupted || row.state == .ownerStopped) &&
    !(settled j.evidence.resourceSettlements || settled j.evidence.ownerStopSettlements)) ||
  maxOutcomeBytes < size row.result || (!row.result.isEmpty && !valid row.result) ||
  (row.state == .admitted && (row.acknowledged || !row.result.isEmpty))

def validateHistory (j : Journal) : Except Error Unit := do
  refuse (j.lease < 0 || j.nextSequence < 1 || j.retired < 0 || j.nextSequence ≤ j.retired ||
    maxCommands < j.intents.count || j.nextSequence - j.retired - 1 != j.intents.count) .incompleteHistory
  refuse (!consecutive IntentRow.sequence (j.retired + 1) j.intents.rows ||
    j.intents.exists? (invalidIntentRow j)) .invalidHistory

/-- A crash may have lost an outcome, so an admitted intent is uncertain from now on. -/
def uncertainRow (row : IntentRow) : IntentRow :=
  if row.state == .admitted then { row with state := .uncertain } else row

theorem uncertainRow_key (row : IntentRow) : (uncertainRow row).sequence = row.sequence := by
  unfold uncertainRow
  split <;> rfl

/-- The trigger `worker_dispatch_settle` for every row the crash made uncertain. -/
def uncertainDispatch (j : Journal) (d : DispatchRow) : DispatchRow :=
  if j.intents.exists? fun row => row.sequence == d.operationSequence && row.state == .admitted then
    { d with state := .uncertain }
  else d

theorem uncertainDispatch_key (j : Journal) (d : DispatchRow) :
    (uncertainDispatch j d).dispatchSequence = d.dispatchSequence := by
  unfold uncertainDispatch
  split <;> rfl

/-- No native effect is repeated after a crash. -/
def markUncertain (j : Journal) : Journal :=
  { j with
    intents := j.intents.modify uncertainRow uncertainRow_key
    dispatches := j.dispatches.modify (uncertainDispatch j) (uncertainDispatch_key j) }

/-- `Open` on the tables of an existing journal. -/
def reopen (j : Journal) : Except Error Journal := do
  initializeTerminalReservations j
  initializeDispatchCancellations c j
  let j ← initializeDispatches c j
  validateHistory j
  return markUncertain j

/-- An open recovers kinds and marks what a crash left uncertain. -/
theorem reopen_ok {c : Context} (h : reopen c j = .ok j') :
    j' = markUncertain { j with dispatches := j.dispatches.modify (recoverKind j) (recoverKind_key j) } := by
  obtain ⟨_, -, h⟩ := of_bind h
  obtain ⟨_, -, h⟩ := of_bind h
  obtain ⟨j₁, recovered, h⟩ := of_bind h
  obtain ⟨_, -, h⟩ := of_bind h
  obtain ⟨_, -, recovered⟩ := of_bind recovered
  cases h
  cases recovered
  rfl

end Pagnet.SessionWorker
