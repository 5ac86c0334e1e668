import Pagnet.SessionWorker.Types

/-!
# Dispatch cancellations

`internal/sessionworker/dispatch_cancellations.go`, with `checkLease` of
`journal.go` and `advanceFinalizedDispatchesTx` of `dispatch.go`. Every
operation is a transaction: it returns the tables it commits, or an error and
leaves the journal as it was.
-/

namespace Pagnet.SessionWorker

/-- Only the current lease may write. -/
def checkLease (j : Journal) (lease : Int) : Except Error (Int × Int) := do
  refuse (lease ≤ 0 || j.lease != lease) .fenced
  return (j.nextSequence, j.retired)

variable {j j' : Journal} {lease : Int} {c : Context} {p : NativeDispatchProof} {u : Unit}
    {r : CancellationPreparation}

@[simp] theorem checkLease_eq_ok {r : Int × Int} :
    checkLease j lease = .ok r ↔ 0 < lease ∧ j.lease = lease ∧ r = (j.nextSequence, j.retired) := by
  unfold checkLease
  rw [refuse_bind_eq_ok]
  simp only [Bool.or_eq_false_iff, decide_eq_false_iff_not, bne_eq_false_iff_eq, not_le, and_assoc]
  simp [pure, Except.pure, eq_comm]

/-- The length checks on the strings of a proof that admission and cancellation share. -/
def validBoot (p : NativeDispatchProof) : Bool :=
  !p.sourceRunnerEpoch.isZero && p.sourceBootID != "" && p.sourceBootID.utf8ByteSize ≤ 256

/-- The ordinals a server may assign. -/
def validOrdinal (sequence : Int) : Bool := 0 < sequence && sequence != maxInt64

def validCancellationPreparation (c : Context) (r : CancellationPreparation) : Bool :=
  let p := r.proposal.proof
  let q := r.request
  p.ownershipGeneration == c.scope.generation && validOrdinal p.dispatchSequence && validBoot p &&
  0 < r.proposal.reason.byteLength && r.proposal.reason.byteLength ≤ 128 &&
  0 < r.proposal.commandType.byteLength && r.proposal.commandType.byteLength ≤ 128 &&
  [p.ownershipID, p.sourceCommandID, p.sourceAdmissionID, p.sourceRunnerID, q.requestID,
    q.preparationID].all c.parseID &&
  r.proposal.instanceID == c.scope.instanceID && q.instanceID == c.scope.instanceID &&
  q.ownershipID == p.ownershipID && q.ownershipGeneration == p.ownershipGeneration &&
  q.dispatchSequence == p.dispatchSequence && q.sourceCommandID == p.sourceCommandID &&
  q.sourceAdmissionID == p.sourceAdmissionID

def checkCancellationOwnershipTx (c : Context) (j : Journal) (p : NativeDispatchProof)
    (newPreparation : Bool) : Except Error Unit :=
  match j.dispatchMeta with
  | none => .error .noRows
  | some m => do
    refuse (m.ownership.id != p.ownershipID || m.ownership.instanceID != c.scope.instanceID ||
      m.ownership.ownershipGeneration != c.scope.generation || m.ownership.state != "active") .conflict
    refuse (newPreparation &&
      (p.dispatchSequence ≤ m.retired || wrap64 (m.lastSequence + maxCommands) < p.dispatchSequence)) .conflict

theorem checkCancellationOwnershipTx_eq_ok {new : Bool} : checkCancellationOwnershipTx c j p new = .ok u ↔
      ∃ m, j.dispatchMeta = some m ∧ m.ownership.id = p.ownershipID ∧
        m.ownership.instanceID = c.scope.instanceID ∧ m.ownership.ownershipGeneration = c.scope.generation ∧
        m.ownership.state = "active" ∧ (new → m.retired < p.dispatchSequence ∧
          p.dispatchSequence ≤ wrap64 (m.lastSequence + maxCommands)) := by
  unfold checkCancellationOwnershipTx
  cases bound : j.dispatchMeta with
  | none => simp
  | some m => cases new <;> simp [refuse_bind_eq_ok, and_assoc]

def checkNeverAcceptedDispatchTx (j : Journal) (p : NativeDispatchProof) : Except Error Unit := do
  refuse (j.intents.exists? (·.commandID == p.sourceCommandID) ||
    j.evidence.turnSources.any (·.2 == p.sourceCommandID)) .conflict
  refuse (j.dispatches.exists? fun d =>
    d.commandID == p.sourceCommandID || d.dispatchSequence == p.dispatchSequence) .conflict

theorem checkNeverAcceptedDispatchTx_eq_ok : checkNeverAcceptedDispatchTx j p = .ok u ↔
      (∀ row ∈ j.intents, row.commandID ≠ p.sourceCommandID) ∧
      (∀ t ∈ j.evidence.turnSources, t.2 ≠ p.sourceCommandID) ∧
      ∀ d ∈ j.dispatches, d.commandID ≠ p.sourceCommandID ∧ d.dispatchSequence ≠ p.dispatchSequence := by
  unfold checkNeverAcceptedDispatchTx
  rw [refuse_bind_eq_ok, refuse_eq_ok, Bool.or_eq_false_iff, Table.exists?_eq_false, Table.exists?_eq_false]
  simp [and_assoc]

/-- A prepared or finalized cancellation names this ordinal or this command. -/
def fenced (j : Journal) (p : NativeDispatchProof) : Bool :=
  j.cancellations.exists? fun r =>
    r.request.dispatchSequence == p.dispatchSequence || r.request.sourceCommandID == p.sourceCommandID

theorem fenced_eq_false : fenced j p = false ↔ ∀ r ∈ j.cancellations,
      r.request.dispatchSequence ≠ p.dispatchSequence ∧ r.request.sourceCommandID ≠ p.sourceCommandID := by
  rw [fenced, Table.exists?_eq_false]
  simp

def checkDispatchCancellationTx (j : Journal) (p : NativeDispatchProof) : Except Error Unit :=
  refuse (fenced j p) .conflict

def finalizedAt (rows : Table CancellationPreparation fun r => r.request.dispatchSequence) (sequence : Int) : Bool :=
  rows.exists? fun r => r.request.dispatchSequence == sequence && r.state == .finalized

theorem finalizedAt_eq_true {rows : Table CancellationPreparation fun r => r.request.dispatchSequence}
    {sequence : Int} : finalizedAt rows sequence ↔
      ∃ r ∈ rows, r.request.dispatchSequence = sequence ∧ r.state = .finalized := by
  rw [finalizedAt, Table.exists?_eq_true]
  simp

/-- Pass over the tombstones behind `last`; see `climb_table` for the fuel. -/
def advanceFinalizedDispatchesTx (j : Journal) (m : DispatchMeta) : DispatchMeta :=
  { m with lastSequence := climb (finalizedAt j.cancellations) j.cancellations.count m.lastSequence }

/-- The columns of `worker_dispatch_cancellations` that must be unique beside its key. -/
def insertCancellation (j : Journal) (r : CancellationPreparation) : Except Error Journal := do
  refuse (j.cancellations.exists? fun old =>
    old.request.sourceCommandID == r.request.sourceCommandID ||
      old.request.preparationID == r.request.preparationID) .constraint
  match j.cancellations.insert r.stored with
  | none => .error .constraint
  | some rows => return { j with cancellations := rows }

theorem insertCancellation_ok (h : insertCancellation j r = .ok j') :
    ∃ rows, j.cancellations.insert r.stored = some rows ∧ j' = { j with cancellations := rows } := by
  unfold insertCancellation at h
  rw [refuse_bind_eq_ok] at h
  obtain ⟨-, h⟩ := h
  split at h
  · cases h
  case h_2 rows inserted =>
    cases h
    exact ⟨rows, inserted, rfl⟩

/-- The record a proposal starts as; the identities come from `domain.NewID`. -/
def newPreparation (requestID preparationID : String) (proposal : CancellationProposal) : CancellationPreparation :=
  let p := proposal.proof
  { request := { requestID, preparationID, instanceID := proposal.instanceID, ownershipID := p.ownershipID,
                 ownershipGeneration := p.ownershipGeneration, dispatchSequence := p.dispatchSequence,
                 sourceCommandID := p.sourceCommandID, sourceAdmissionID := p.sourceAdmissionID }
    proposal
    state := .prepared }

def prepareDispatchCancellation (c : Context) (j : Journal) (lease : Int) (requestID preparationID : String)
    (proposal : CancellationProposal) : Except Error (Journal × CancellationPreparation) := do
  let record := newPreparation requestID preparationID proposal
  let p := proposal.proof
  refuse (!validCancellationPreparation c record) .conflict
  let _ ← checkLease j lease
  checkCancellationOwnershipTx c j p true
  checkNeverAcceptedDispatchTx j p
  match j.cancellations.rows.find? fun r =>
      r.request.dispatchSequence == p.dispatchSequence || r.request.sourceCommandID == p.sourceCommandID with
  | some old =>
    refuse (!old.proposal.same proposal) .conflict
    return (j, old)
  | none =>
    refuse (maxCommands ≤ j.cancellations.count) .full
    refuse (!record.encodable || maxPreparationBytes < record.encodedSize) .full
    let j ← insertCancellation j record
    return (j, record)

/-- A preparation returns the retained record of the same proposal, or inserts a
new one; either way its dispatch was never accepted. -/
theorem prepareDispatchCancellation_ok {requestID preparationID : String}
    {proposal : CancellationProposal}
    (h : prepareDispatchCancellation c j lease requestID preparationID proposal = .ok (j', r)) :
    validCancellationPreparation c (newPreparation requestID preparationID proposal) ∧
    (0 < lease ∧ j.lease = lease) ∧
    checkCancellationOwnershipTx c j proposal.proof true = .ok () ∧
    checkNeverAcceptedDispatchTx j proposal.proof = .ok () ∧
    (j' = j ∧ r ∈ j.cancellations ∧ r.proposal.same proposal ∨
      fenced j proposal.proof = false ∧ r = newPreparation requestID preparationID proposal ∧
        j.cancellations.count < maxCommands ∧ r.encodedSize ≤ maxPreparationBytes ∧
        ∃ rows, j.cancellations.insert r.stored = some rows ∧ j' = { j with cancellations := rows }) := by
  obtain ⟨valid, h⟩ := of_refuse h
  obtain ⟨_, leased, h⟩ := of_bind h
  obtain ⟨_, owned, h⟩ := of_bind h
  obtain ⟨_, accepted, h⟩ := of_bind h
  obtain ⟨positive, current, -⟩ := checkLease_eq_ok.1 leased
  refine ⟨by simpa using valid, ⟨positive, current⟩, owned, accepted, ?_⟩
  split at h
  case h_1 old found =>
    obtain ⟨same, h⟩ := of_refuse h
    cases h
    exact .inl ⟨rfl, List.mem_of_find?_eq_some found, by simpa using same⟩
  case h_2 missing =>
    obtain ⟨room, h⟩ := of_refuse h
    obtain ⟨fits, h⟩ := of_refuse h
    obtain ⟨j₁, inserted, h⟩ := of_bind h
    cases h
    refine .inr ⟨?_, rfl, by simpa using room, ?_, insertCancellation_ok inserted⟩
    · rw [fenced_eq_false]
      intro r mem
      simpa using List.find?_eq_none.1 missing r mem
    · simp only [Bool.or_eq_false_iff, decide_eq_false_iff_not, not_lt] at fits
      exact fits.2

/-- The tombstone of a prepared record. -/
def CancellationPreparation.finalize (r : CancellationPreparation) : CancellationPreparation :=
  { r with state := .finalized }

/-- `UPDATE ... SET payload=?,state='finalized' WHERE preparation_id=?`. -/
def finalizeRow (preparationID : String) (r : CancellationPreparation) : CancellationPreparation :=
  if r.request.preparationID == preparationID then r.finalize else r

theorem finalizeRow_key (preparationID : String) (r : CancellationPreparation) :
    (finalizeRow preparationID r).request.dispatchSequence = r.request.dispatchSequence := by
  unfold finalizeRow
  split <;> rfl

/-- The tables of a finalization: the tombstone, and the ordinals it lets pass. -/
def recordFinalized (j : Journal) (preparationID : String) (m : DispatchMeta) : Journal :=
  let j := { j with cancellations :=
    j.cancellations.modify (finalizeRow preparationID) (finalizeRow_key preparationID) }
  { j with dispatchMeta := some (advanceFinalizedDispatchesTx j m) }

def finalizeDispatchCancellation (c : Context) (j : Journal) (lease : Int) (response : CancelledPayload) :
    Except Error Journal := do
  match response.proof with
  | none => .error .conflict
  | some proof =>
    refuse (response.disposition != "cancelled" || response.publicError != "" || response.retryable) .conflict
    let _ ← checkLease j lease
    match j.cancellations.rows.find? (·.request.preparationID == response.preparationID) with
    | none => .error .noRows
    | some record =>
      refuse (!validCancellationPreparation c record || record.request.requestID != response.requestID ||
        record.request.instanceID != response.instanceID || !record.proposal.proof.same proof) .conflict
      checkCancellationOwnershipTx c j proof false
      checkNeverAcceptedDispatchTx j proof
      refuse (!record.encodable) .unencodable
      match j.dispatchMeta with
      | none => .error .noRows
      | some m => return recordFinalized j response.preparationID m

/-- A finalization finds the valid record of the same proof, never accepted. -/
theorem finalizeDispatchCancellation_ok {response : CancelledPayload}
    (h : finalizeDispatchCancellation c j lease response = .ok j') : (0 < lease ∧ j.lease = lease) ∧
    ∃ proof record m, response.proof = some proof ∧ record ∈ j.cancellations ∧
      record.request.preparationID = response.preparationID ∧ validCancellationPreparation c record ∧
      record.proposal.proof.same proof ∧ checkNeverAcceptedDispatchTx j proof = .ok () ∧
      j.dispatchMeta = some m ∧ j' = recordFinalized j response.preparationID m := by
  unfold finalizeDispatchCancellation at h
  split at h
  · cases h
  case h_2 proof given =>
    have h := past_refuse h
    obtain ⟨_, leased, h⟩ := of_bind h
    obtain ⟨positive, current, -⟩ := checkLease_eq_ok.1 leased
    split at h
    · cases h
    case h_2 record found =>
      obtain ⟨matching, h⟩ := of_refuse h
      obtain ⟨_, -, h⟩ := of_bind h
      obtain ⟨_, accepted, h⟩ := of_bind h
      have h := past_refuse h
      simp only [Bool.or_eq_false_iff, Bool.not_eq_false'] at matching
      split at h
      · cases h
      case h_2 m bound =>
        cases h
        refine ⟨⟨positive, current⟩, proof, record, m, given, List.mem_of_find?_eq_some found, ?_,
          matching.1.1.1, matching.2, accepted, bound, rfl⟩
        simpa using List.find?_some found

/-- What `DELETE ... WHERE dispatch_sequence<=? AND state='finalized'` leaves. -/
def retained (floor : Int) (r : CancellationPreparation) : Bool :=
  !(r.request.dispatchSequence ≤ floor && r.state == .finalized)

/-- Tombstones at or below an authenticated floor are reclaimed; a prepared record there is not. -/
def retireDispatchCancellationsTx (j : Journal) (ownershipID : String) (floor : Int) : Except Error Journal :=
  match j.dispatchMeta with
  | none => .error .noRows
  | some m => do
    refuse (m.ownership.id != ownershipID || floor < 0 || m.retired != floor) .conflict
    refuse (j.cancellations.exists? fun r => r.request.dispatchSequence ≤ floor && r.state != .finalized) .conflict
    return { j with cancellations := j.cancellations.filter (retained floor) }

theorem retireDispatchCancellationsTx_ok {ownershipID : String} {floor : Int}
    (h : retireDispatchCancellationsTx j ownershipID floor = .ok j') :
    (∀ r ∈ j.cancellations, r.request.dispatchSequence ≤ floor → r.state = .finalized) ∧
    j' = { j with cancellations := j.cancellations.filter (retained floor) } := by
  unfold retireDispatchCancellationsTx at h
  split at h
  · cases h
  · have h := past_refuse h
    obtain ⟨safe, h⟩ := of_refuse h
    cases h
    refine ⟨fun r mem below => ?_, rfl⟩
    simpa [below] using Table.exists?_eq_false.1 safe r mem

end Pagnet.SessionWorker
