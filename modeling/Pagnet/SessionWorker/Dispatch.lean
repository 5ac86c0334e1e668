import Pagnet.SessionWorker.Cancellation

/-!
# Server dispatches

`internal/sessionworker/dispatch.go`: binding the server's ownership, allocating
a dispatch with its operation, and retiring settled dispatches.
-/

namespace Pagnet.SessionWorker

/-- The operations that only a server dispatch may start once an ownership is bound. -/
def ownedKinds : List String := ["activate", "prompt", "stop", "hibernate", "restart", "attach", "resolve"]

def isTurn (kind : String) : Bool := kind == "activate" || kind == "prompt"

def bindDispatchOwnership (c : Context) (j : Journal) (lease : Int) (o : NativeWorkerOwnership)
    (runtime profileFingerprint : String) : Except Error Journal := do
  refuse (!c.parseID o.id) .conflict
  refuse (!c.parseID o.originalAdmissionID) .conflict
  refuse (o.instanceID != c.scope.instanceID || o.ownershipGeneration != c.scope.generation ||
    o.runtime != runtime || o.profileFingerprint != profileFingerprint ||
    profileFingerprint.utf8ByteSize != 64 || o.state != "active") .conflict
  -- the server's counters are never local allocation input
  let o := { o with lastDispatchSequence := 0, retiredFloor := 0 }
  let _ ← checkLease j lease
  match j.dispatchMeta with
  | some m =>
    refuse (m.ownership != o) .conflict
    return j
  | none =>
    refuse (j.intents.exists? (isTurn ·.kind)) .conflict
    return { j with dispatchMeta := some ⟨o, 0, 0⟩ }

variable {c : Context} {j j' : Journal} {lease floor : Int}

/-- Binding leaves the bound journal alone, or pins the first ownership. -/
theorem bindDispatchOwnership_ok {o : NativeWorkerOwnership}
    {runtime profileFingerprint : String} (h : bindDispatchOwnership c j lease o runtime profileFingerprint = .ok j') :
    (0 < lease ∧ j.lease = lease) ∧
    (j' = j ∨ j.dispatchMeta = none ∧ o.instanceID = c.scope.instanceID ∧
      o.ownershipGeneration = c.scope.generation ∧ o.state = "active" ∧
      j' = { j with dispatchMeta := some ⟨{ o with lastDispatchSequence := 0, retiredFloor := 0 }, 0, 0⟩ }) := by
  have h := past_refuse h
  have h := past_refuse h
  obtain ⟨matching, h⟩ := of_refuse h
  obtain ⟨_, leased, h⟩ := of_bind h
  obtain ⟨positive, current, -⟩ := checkLease_eq_ok.1 leased
  simp only [Bool.or_eq_false_iff, bne_eq_false_iff_eq] at matching
  obtain ⟨⟨⟨⟨⟨instance_eq, generation_eq⟩, -⟩, -⟩, -⟩, active⟩ := matching
  refine ⟨⟨positive, current⟩, ?_⟩
  split at h
  · have h := past_refuse h
    cases h
    exact .inl rfl
  case h_2 unbound =>
    have h := past_refuse h
    cases h
    exact .inr ⟨unbound, instance_eq, generation_eq, active, rfl⟩

/-- `INSERT INTO worker_dispatches`: the operation and the command must be new too. -/
def insertDispatch (j : Journal) (d : DispatchRow) : Except Error Journal := do
  refuse (j.dispatches.exists? fun old =>
    old.operationSequence == d.operationSequence || old.commandID == d.commandID) .conflict
  match j.dispatches.insert d with
  | none => .error .conflict
  | some rows => return { j with dispatches := rows }

theorem insertDispatch_ok {d : DispatchRow} (h : insertDispatch j d = .ok j') :
    ∃ rows, j.dispatches.insert d = some rows ∧ j' = { j with dispatches := rows } := by
  have h := past_refuse h
  split at h
  · cases h
  case h_2 rows inserted =>
    cases h
    exact ⟨rows, inserted, rfl⟩

/-- The proof of an admission names this worker, its command and valid identities. -/
def validDispatchProof (c : Context) (command : String) (p : NativeDispatchProof) : Bool :=
  p.ownershipGeneration == c.scope.generation && validOrdinal p.dispatchSequence &&
  p.sourceCommandID == command && validBoot p &&
  [p.ownershipID, p.sourceCommandID, p.sourceAdmissionID, p.sourceRunnerID].all c.parseID

/-- The row of a dispatch before its intent is inserted. -/
def newDispatchRow (next : Int) (command : String) (p : NativeDispatchProof) : DispatchRow :=
  { dispatchSequence := p.dispatchSequence, operationSequence := next, commandID := command,
    proof := p, state := .admitted, operationKind := "" }

/-- Allocate the operation ordinal of a dispatch: the retained one of an exact
repeat, or the next one together with a new dispatch row. -/
def prepareDispatchTx (c : Context) (j : Journal) (next requested : Int) (command : String)
    (p : NativeDispatchProof) : Except Error (Journal × Int × Bool) := do
  refuse (!validDispatchProof c command p) .conflict
  checkDispatchCancellationTx j p
  match j.dispatchMeta with
  | none => .error .conflict
  | some m =>
    refuse (m.ownership.id != p.ownershipID) .conflict
    refuse (p.dispatchSequence ≤ m.retired) .retired
    refuse (!p.sourceRunnerEpoch.encodable) .unencodable
    match j.dispatches.find? p.dispatchSequence with
    | some d =>
      refuse (d.proof != p || (requested != 0 && requested != d.operationSequence)) .conflict
      return (j, d.operationSequence, false)
    | none =>
      refuse (m.lastSequence + 1 < p.dispatchSequence) .dispatchGap
      refuse (p.dispatchSequence != m.lastSequence + 1 || (requested != 0 && requested != next)) .conflict
      refuse (maxCommands ≤ j.dispatches.count + j.cancellations.count) .full
      let j ← insertDispatch j (newDispatchRow next command p)
      let m := { m with lastSequence := p.dispatchSequence }
      return ({ j with dispatchMeta := some (advanceFinalizedDispatchesTx j m) }, next, true)

/-- What an allocation found: the retained row of this very proof, or room for a
new row behind the last ordinal. -/
theorem prepareDispatchTx_ok {next requested sequence : Int} {command : String}
    {p : NativeDispatchProof} {fresh : Bool}
    (h : prepareDispatchTx c j next requested command p = .ok (j', sequence, fresh)) :
    validDispatchProof c command p ∧ fenced j p = false ∧
    ∃ m, j.dispatchMeta = some m ∧ m.ownership.id = p.ownershipID ∧ m.retired < p.dispatchSequence ∧
      ((∃ d, j.dispatches.find? p.dispatchSequence = some d ∧ d.proof = p ∧
          (requested = 0 ∨ requested = d.operationSequence) ∧ j' = j ∧ sequence = d.operationSequence ∧
          fresh = false) ∨
        p.dispatchSequence = m.lastSequence + 1 ∧ (requested = 0 ∨ requested = next) ∧
          j.dispatches.count + j.cancellations.count < maxCommands ∧ sequence = next ∧ fresh ∧
          ∃ rows, j.dispatches.insert (newDispatchRow next command p) = some rows ∧
            j' = { j with
              dispatches := rows
              dispatchMeta := some (advanceFinalizedDispatchesTx j { m with lastSequence := p.dispatchSequence }) }) := by
  obtain ⟨valid, h⟩ := of_refuse h
  obtain ⟨_, open_, h⟩ := of_bind h
  refine ⟨by simpa using valid, refuse_eq_ok.1 open_, ?_⟩
  split at h
  · cases h
  case h_2 m bound =>
    obtain ⟨owned, h⟩ := of_refuse h
    obtain ⟨above, h⟩ := of_refuse h
    have h := past_refuse h
    refine ⟨m, bound, by simpa using owned, by simpa using above, ?_⟩
    split at h
    case h_1 d found =>
      obtain ⟨same, h⟩ := of_refuse h
      cases h
      simp only [Bool.or_eq_false_iff, bne_eq_false_iff_eq, Bool.and_eq_false_iff] at same
      exact .inl ⟨d, found, same.1, same.2, rfl, rfl, rfl⟩
    case h_2 missing =>
      have h := past_refuse h
      obtain ⟨next_eq, h⟩ := of_refuse h
      obtain ⟨room, h⟩ := of_refuse h
      obtain ⟨j₁, allocated, h⟩ := of_bind h
      obtain ⟨rows, inserted, rfl⟩ := insertDispatch_ok allocated
      cases h
      simp only [Bool.or_eq_false_iff, bne_eq_false_iff_eq, Bool.and_eq_false_iff] at next_eq
      exact .inr ⟨next_eq.1, next_eq.2, by simpa using room, rfl, rfl, rows, inserted, rfl⟩

/-- A dispatch at or below the floor that still needs its row: unsettled, not
acknowledged, or with evidence that has not drained. -/
def undrained (j : Journal) (d : DispatchRow) : Bool :=
  let at_ := (· == d.operationSequence)
  !(d.state ∈ [IntentState.completed, .failed, .resourceInterrupted, .ownerStopped]) ||
  j.evidence.resourceSettlements.any (fun s => at_ s.sequence && !s.finished) ||
  j.retired < d.operationSequence ||
  j.viewCommits.exists? (fun v => at_ v.operationSequence && !v.committed) ||
  j.evidence.outputSpools.any at_ || j.reservations.exists? (at_ ·.sequence) ||
  j.evidence.resourceInterruptions.any at_ || j.evidence.turnSources.any (at_ ·.1) ||
  j.evidence.observations.any at_

def validateDispatchRetirementTx (j : Journal) (lease floor : Int) : Except Error DispatchMeta := do
  let _ ← checkLease j lease
  match j.dispatchMeta with
  | none => .error .noRows
  | some m =>
    refuse (floor < m.retired || m.lastSequence < floor) .conflict
    refuse (j.dispatches.exists? fun d => d.dispatchSequence ≤ floor && undrained j d) .conflict
    return m

/-- An operation whose dispatch is retired with the floor. -/
def retiring (j : Journal) (floor sequence : Int) : Bool :=
  j.dispatches.exists? fun d => d.dispatchSequence ≤ floor && d.operationSequence == sequence

/-- The deletes of `RetireDispatches` in front of the cancellations. -/
def dropDispatches (j : Journal) (m : DispatchMeta) (floor : Int) : Journal :=
  { j with
    viewCommits := j.viewCommits.filter fun v => !retiring j floor v.operationSequence
    evidence := { j.evidence with
      ownerStopSettlements := j.evidence.ownerStopSettlements.filter fun s => !retiring j floor s.sequence
      resourceSettlements := j.evidence.resourceSettlements.filter fun s => !retiring j floor s.sequence }
    dispatches := j.dispatches.filter fun d => floor < d.dispatchSequence
    dispatchMeta := some { m with retired := floor } }

def retireDispatches (j : Journal) (lease floor : Int) : Except Error Journal := do
  let m ← validateDispatchRetirementTx j lease floor
  retireDispatchCancellationsTx (dropDispatches j m floor) m.ownership.id floor

theorem validateDispatchRetirementTx_ok {m : DispatchMeta} (h : validateDispatchRetirementTx j lease floor = .ok m) :
    (0 < lease ∧ j.lease = lease) ∧ j.dispatchMeta = some m ∧ m.retired ≤ floor ∧ floor ≤ m.lastSequence ∧
      ∀ d ∈ j.dispatches, d.dispatchSequence ≤ floor → undrained j d = false := by
  obtain ⟨_, leased, h⟩ := of_bind h
  obtain ⟨positive, current, -⟩ := checkLease_eq_ok.1 leased
  split at h
  · cases h
  case h_2 m' bound =>
    obtain ⟨range, h⟩ := of_refuse h
    obtain ⟨drained, h⟩ := of_refuse h
    cases h
    simp only [Bool.or_eq_false_iff, decide_eq_false_iff_not, not_lt] at range
    refine ⟨⟨positive, current⟩, bound, range.1, range.2, fun d mem below => ?_⟩
    simpa [below] using Table.exists?_eq_false.1 drained d mem

/-- Retirement moves the floor within the ordinals in use and drops what lies
at or below it; a prepared cancellation there refuses it. -/
theorem retireDispatches_ok (h : retireDispatches j lease floor = .ok j') :
    (0 < lease ∧ j.lease = lease) ∧ ∃ m, j.dispatchMeta = some m ∧ m.retired ≤ floor ∧ floor ≤ m.lastSequence ∧
      (∀ d ∈ j.dispatches, d.dispatchSequence ≤ floor → undrained j d = false) ∧
      (∀ r ∈ j.cancellations, r.request.dispatchSequence ≤ floor → r.state = .finalized) ∧
      j' = { dropDispatches j m floor with cancellations := j.cancellations.filter (retained floor) } := by
  obtain ⟨m, validated, h⟩ := of_bind h
  obtain ⟨leased, bound, low, high, drained⟩ := validateDispatchRetirementTx_ok validated
  obtain ⟨finalized, rfl⟩ := retireDispatchCancellationsTx_ok h
  exact ⟨leased, m, bound, low, high, drained, finalized, rfl⟩

end Pagnet.SessionWorker
