import Pagnet.SessionWorker.Dispatch

/-!
# Intent admission

`internal/sessionworker/journal.go`: the lease of the controller, admission of
an intent with or without a server dispatch, settlement and acknowledgement.
Sequences are allocated here and nowhere else, so an intent that was pruned can
never be taken for new work.
-/

namespace Pagnet.SessionWorker
open Json

/-- The durable monotonic lease fences every previous controller. -/
def advanceLease (j : Journal) : Except Error (Journal × Int) := do
  refuse (maxInt64 ≤ j.lease) .noRows
  return ({ j with lease := j.lease + 1 }, j.lease + 1)

variable {j j' : Journal} {sequence : Int} {admission : Option Admission} {digest : String} {c : Context}
    {fresh execute : Bool} {out : Outcome}

theorem advanceLease_ok {lease : Int} (h : advanceLease j = .ok (j', lease)) :
    j' = { j with lease := j.lease + 1 } := by
  have h := past_refuse h
  cases h
  rfl

/-- `len(s) == 64` and `hex.DecodeString` accepts. -/
def validDigest (s : String) : Bool := s.toList.length == 64 && s.toList.all isHex

/-- The wrapper keeps the boundary between kind and body. -/
def intentDigest (c : Context) (kind : String) (payload : Value) : String :=
  let wrapper := Value.ofFields [("Kind", .ofString kind), ("Payload", payload.escapeHTML)]
  hexEncode (c.sha256 (bytesOf wrapper.render))

def terminalSourceReserveRows : Nat := 384

def terminalCaptureReserveBytes : Nat := 44040192

def terminalContentReserveBytes : Nat := 67108864

def maxPendingObservations : Nat := 4096

def maxPendingObservationBytes : Nat := 50331648

def maxWorkerContentBytes : Nat := 134217728

def sourceDispositionReserveBytes : Nat := 2048

def sourceStopReserveBytes : Nat := 65536

/-- `SELECT SUM(column) FROM worker_terminal_reservations`. -/
def reserved (j : Journal) (column : ReservationRow → Nat) : Nat := (j.reservations.rows.map column).sum

/-- The reservation of a prompt. -/
def newReservation (sequence : Int) : ReservationRow :=
  ⟨sequence, terminalSourceReserveRows, terminalCaptureReserveBytes, terminalContentReserveBytes⟩

/-- A prompt needs room for its terminal evidence before it may start. -/
def reserveTerminalTx (j : Journal) (sequence : Int) (kind : String) : Except Error Journal := do
  if kind != "prompt" then return j
  let e := j.evidence
  refuse (maxPendingObservations <
      e.observationRows + e.sourceStops + reserved j (·.rowsLeft) + terminalSourceReserveRows ||
    maxPendingObservationBytes <
      e.observationBytes + e.unmarkedObservations * sourceDispositionReserveBytes +
        e.sourceStops * sourceStopReserveBytes + reserved j (·.captureLeft) + terminalCaptureReserveBytes ||
    maxWorkerContentBytes <
      e.contentFragments + reserved j (·.contentLeft) + terminalContentReserveBytes) .full
  match j.reservations.insert (newReservation sequence) with
  | none => .error .constraint
  | some rows => return { j with reservations := rows }

/-- A reservation is made only where the journal's bounds leave room for it. -/
theorem reserveTerminalTx_ok {kind : String}
    (h : reserveTerminalTx j sequence kind = .ok j') :
    j' = j ∨ reserved j (·.captureLeft) + terminalCaptureReserveBytes ≤ maxPendingObservationBytes ∧
      ∃ rows, j.reservations.insert (newReservation sequence) = some rows ∧
        j' = { j with reservations := rows } := by
  unfold reserveTerminalTx at h
  split at h
  · cases h
    exact .inl rfl
  · obtain ⟨room, h⟩ := of_refuse h
    simp only [Bool.or_eq_false_iff, decide_eq_false_iff_not, not_lt] at room
    split at h
    · cases h
    case h_2 rows inserted =>
      cases h
      exact .inr ⟨by omega, rows, inserted, rfl⟩

/-- `INSERT INTO worker_intent`: the command must be new, and the trigger
`worker_cancel_fence` aborts for a command with a cancellation. -/
def insertIntent (j : Journal) (row : IntentRow) : Except Error Journal := do
  refuse (j.intents.exists? (·.commandID == row.commandID)) .constraint
  refuse (j.cancellations.exists? (·.request.sourceCommandID == row.commandID)) .constraint
  match j.intents.insert row with
  | none => .error .constraint
  | some rows => return { j with intents := rows }

theorem insertIntent_ok {row : IntentRow} (h : insertIntent j row = .ok j') :
    (∀ r ∈ j.cancellations, r.request.sourceCommandID ≠ row.commandID) ∧
      ∃ rows, j.intents.insert row = some rows ∧ j' = { j with intents := rows } := by
  have h := past_refuse h
  obtain ⟨open_, h⟩ := of_refuse h
  split at h
  · cases h
  case h_2 rows inserted =>
    cases h
    refine ⟨fun r mem => ?_, rows, inserted, rfl⟩
    simpa using Table.exists?_eq_false.1 open_ r mem

/-- `UPDATE worker_dispatches SET operation_kind=? WHERE operation_sequence=? AND operation_kind=''`. -/
def setKind (sequence : Int) (kind : String) (d : DispatchRow) : DispatchRow :=
  if d.operationSequence == sequence && d.operationKind == "" then { d with operationKind := kind } else d

theorem setKind_key (sequence : Int) (kind : String) (d : DispatchRow) :
    (setKind sequence kind d).dispatchSequence = d.dispatchSequence := by
  unfold setKind
  split <;> rfl

/-- An attach must have its view committed before it can be acknowledged. -/
def insertViewCommit (j : Journal) (sequence : Int) : Except Error Journal :=
  match j.viewCommits.insert ⟨sequence, false⟩ with
  | none => .error .constraint
  | some rows => .ok { j with viewCommits := rows }

def insertAdmission (j : Journal) (sequence : Int) (admission : Admission) : Except Error Journal := do
  refuse (!admission.runnerEpoch.encodable) .unencodable
  match j.admissions.insert ⟨sequence, admission⟩ with
  | none => .error .constraint
  | some rows => return { j with admissions := rows }

theorem insertAdmission_ok {admission : Admission}
    (h : insertAdmission j sequence admission = .ok j') :
    ∃ rows, j.admissions.insert ⟨sequence, admission⟩ = some rows ∧ j' = { j with admissions := rows } := by
  have h := past_refuse h
  split at h
  · cases h
  case h_2 rows inserted =>
    cases h
    exact ⟨rows, inserted, rfl⟩

/-- A dispatched operation is admitted under the source its proof names. -/
def originalAdmission (p : NativeDispatchProof) (a : Admission) : Admission :=
  { a with
    nativeAdmissionID := p.sourceAdmissionID
    runnerID := p.sourceRunnerID
    runnerEpoch := p.sourceRunnerEpoch
    bootID := p.sourceBootID }

/-- The arguments of `admitDispatch`: `authorizeNew` is what the callback of a
new effect returns, if there is one. -/
structure AdmitCall where
  lease : Int
  sequence : Int
  commandID : String
  kind : String
  payload : Text
  authorizeNew : Option (Except String (Option Admission))
  dispatch : Option NativeDispatchProof

def callback : Option (Except String (Option Admission)) → Except Error (Option Admission)
  | none => .ok none
  | some (.error message) => .error (.unauthorized message)
  | some (.ok admission) => .ok admission

/-- The source of a new effect, checked against the journal's scope when a
dispatch is bound to it. -/
def authorize (c : Context) (call : AdmitCall) (newDispatch : Bool) : Except Error (Option Admission) := do
  let admission ← callback call.authorizeNew
  match call.dispatch, admission with
  | none, _ => return admission
  | some _, none => .error .conflict
  | some p, some a =>
    refuse (!newDispatch || a.scope != c.scope) .conflict
    return some (originalAdmission p a)

/-- The outcome of an intent that is already in the journal. -/
def recordedOutcome (j : Journal) (row : IntentRow) : Outcome :=
  { sourceAdmission := (j.admissions.find? row.sequence).map (·.admission)
    sequence := row.sequence, commandID := row.commandID, kind := row.kind, state := row.state, result := row.result }

/-- The row of an intent before its effect. -/
def newIntentRow (call : AdmitCall) (sequence : Int) (digest : String) : IntentRow :=
  ⟨sequence, call.commandID, digest, call.kind, .admitted, [], false⟩

/-- The dispatches after the kind of a newly admitted intent was written. -/
def kindedDispatches (j : Journal) (call : AdmitCall) (sequence : Int) :
    Table DispatchRow DispatchRow.dispatchSequence :=
  if call.dispatch.isSome then j.dispatches.modify (setKind sequence call.kind) (setKind_key sequence call.kind)
  else j.dispatches

/-- Only an authorized intent reserves room for its evidence. -/
def recordReservation (j : Journal) (call : AdmitCall) (sequence : Int) (admission : Option Admission) :
    Except Error Journal :=
  if admission.isSome then reserveTerminalTx j sequence call.kind else .ok j

variable {call : AdmitCall}

theorem recordReservation_ok
    (h : recordReservation j call sequence admission = .ok j') :
    ∃ reservations, (reservations = j.reservations ∨
        reserved j (·.captureLeft) + terminalCaptureReserveBytes ≤ maxPendingObservationBytes ∧
          j.reservations.insert (newReservation sequence) = some reservations) ∧
      j' = { j with reservations } := by
  unfold recordReservation at h
  split at h
  · rcases reserveTerminalTx_ok h with rfl | ⟨room, rows, inserted, rfl⟩
    · exact ⟨_, .inl rfl, rfl⟩
    · exact ⟨rows, .inr ⟨room, inserted⟩, rfl⟩
  · cases h
    exact ⟨_, .inl rfl, rfl⟩

/-- Only a dispatched attach waits for its view. -/
def recordView (j : Journal) (call : AdmitCall) (sequence : Int) : Except Error Journal :=
  if call.dispatch.isSome && call.kind == "attach" then insertViewCommit j sequence else .ok j

theorem recordView_ok
    (h : recordView j call sequence = .ok j') : ∃ viewCommits, j' = { j with viewCommits } := by
  unfold recordView insertViewCommit at h
  split at h
  · split at h
    · cases h
    · cases h
      exact ⟨_, rfl⟩
  · cases h
    exact ⟨_, rfl⟩

def recordAdmission (j : Journal) (sequence : Int) : Option Admission → Except Error Journal
  | none => .ok j
  | some admission => insertAdmission j sequence admission

/-- The tables of a newly admitted intent. -/
def recordIntent (j : Journal) (call : AdmitCall) (sequence : Int) (digest : String)
    (admission : Option Admission) : Except Error Journal := do
  let j ← recordReservation j call sequence admission
  let j ← insertIntent j (newIntentRow call sequence digest)
  let j := { j with dispatches := kindedDispatches j call sequence }
  let j ← recordView j call sequence
  let j ← recordAdmission j sequence admission
  return { j with nextSequence := sequence + 1 }

/-- What recording an intent changes: its row and admission, the kind of its
dispatch, the reservation of a prompt, the view of an attach, and the cursor. -/
theorem recordIntent_ok (h : recordIntent j call sequence digest admission = .ok j') :
    (∀ r ∈ j.cancellations, r.request.sourceCommandID ≠ call.commandID) ∧
    ∃ reservations intents viewCommits admissions,
      (reservations = j.reservations ∨
        reserved j (·.captureLeft) + terminalCaptureReserveBytes ≤ maxPendingObservationBytes ∧
          j.reservations.insert (newReservation sequence) = some reservations) ∧
      j.intents.insert (newIntentRow call sequence digest) = some intents ∧
      (admission = none ∧ admissions = j.admissions ∨
        ∃ a, admission = some a ∧ j.admissions.insert ⟨sequence, a⟩ = some admissions) ∧
      j' = { j with
        reservations, intents, viewCommits, admissions
        dispatches := kindedDispatches j call sequence
        nextSequence := sequence + 1 } := by
  obtain ⟨j₁, reserving, h⟩ := of_bind h
  obtain ⟨j₂, inserting, h⟩ := of_bind h
  obtain ⟨j₃, viewing, h⟩ := of_bind h
  obtain ⟨j₄, admitting, h⟩ := of_bind h
  cases h
  obtain ⟨reservations, room, rfl⟩ := recordReservation_ok reserving
  obtain ⟨unfenced, intents, inserted, rfl⟩ := insertIntent_ok inserting
  obtain ⟨viewCommits, rfl⟩ := recordView_ok viewing
  refine ⟨unfenced, reservations, intents, viewCommits, ?_⟩
  cases admission with
  | none =>
    cases admitting
    exact ⟨_, room, inserted, .inl ⟨rfl, rfl⟩, rfl⟩
  | some a =>
    obtain ⟨rows, stored, rfl⟩ := insertAdmission_ok admitting
    exact ⟨rows, room, inserted, .inr ⟨a, rfl, stored⟩, rfl⟩

/-- The ordinal an admission is about: its own, or that of its dispatch. -/
def admitSequence (c : Context) (j : Journal) (call : AdmitCall) : Except Error (Journal × Int × Bool) :=
  match call.dispatch with
  | some p => prepareDispatchTx c j j.nextSequence call.sequence call.commandID p
  | none => do
    refuse (call.kind ∈ ownedKinds && j.dispatchMeta.isSome) .conflict
    return (j, call.sequence, false)

/-- Without a dispatch the journal is read only; with one see `prepareDispatchTx_ok`. -/
theorem admitSequence_ok (h : admitSequence c j call = .ok (j', sequence, fresh)) :
    call.dispatch = none ∧ j' = j ∧ sequence = call.sequence ∧ fresh = false ∨ ∃ p, call.dispatch = some p ∧
      prepareDispatchTx c j j.nextSequence call.sequence call.commandID p = .ok (j', sequence, fresh) := by
  unfold admitSequence at h
  split at h
  case h_1 p given => exact .inr ⟨p, given, h⟩
  case h_2 absent =>
    have h := past_refuse h
    cases h
    exact .inl ⟨absent, rfl, rfl, rfl⟩

/-- A new effect: the second half of `admitDispatch`. -/
def admitNew (c : Context) (j : Journal) (call : AdmitCall) (sequence : Int) (newDispatch : Bool)
    (digest : String) : Except Error (Journal × Outcome × Bool) := do
  refuse (sequence != j.nextSequence || sequence == maxInt64) .conflict
  refuse (call.dispatch.isSome && isTurn call.kind &&
    j.intents.exists? fun row => row.state == .admitted && isTurn row.kind) .nativeBusy
  let admission ← authorize c call newDispatch
  refuse (maxCommands ≤ j.intents.count) .full
  let j ← recordIntent j call sequence digest admission
  return (j, ⟨admission, sequence, call.commandID, call.kind, .admitted, []⟩, true)

theorem admitNew_ok (h : admitNew c j call sequence fresh digest = .ok (j', out, execute)) :
    sequence = j.nextSequence ∧ sequence ≠ maxInt64 ∧ j.intents.count < maxCommands ∧ execute ∧
    ∃ admission, authorize c call fresh = .ok admission ∧ recordIntent j call sequence digest admission = .ok j' ∧
      out = ⟨admission, sequence, call.commandID, call.kind, .admitted, []⟩ := by
  obtain ⟨at_cursor, h⟩ := of_refuse h
  have h := past_refuse h
  obtain ⟨admission, authorized, h⟩ := of_bind h
  obtain ⟨room, h⟩ := of_refuse h
  obtain ⟨j₁, recorded, h⟩ := of_bind h
  cases h
  simp only [Bool.or_eq_false_iff, bne_eq_false_iff_eq, beq_eq_false_iff_ne] at at_cursor
  exact ⟨at_cursor.1, at_cursor.2, by simpa using room, rfl, admission, authorized, recorded, rfl⟩

/-- The bounds an intent is checked against before anything is read. -/
def validCall (call : AdmitCall) : Bool :=
  (0 < call.sequence || call.dispatch.isSome) &&
  call.commandID != "" && call.commandID.utf8ByteSize ≤ 256 &&
  call.kind != "" && call.kind.utf8ByteSize ≤ 64 && size call.payload ≤ 1048576 && valid call.payload

/-- The document behind a raw message that `json.Valid` accepts. -/
def decodePayload (text : Text) : Except Error Value :=
  match parse text with
  | none => .error .invalidIntent
  | some payload => .ok payload

theorem decodePayload_eq_ok {text : Text} {payload : Value} :
    decodePayload text = .ok payload ↔ parse text = some payload := by
  unfold decodePayload
  cases parse text <;> simp

def admitDispatch (c : Context) (j : Journal) (call : AdmitCall) : Except Error (Journal × Outcome × Bool) := do
  refuse (!validCall call) .invalidIntent
  let payload ← decodePayload call.payload
  let digest := intentDigest c call.kind payload
  let (_, retired) ← checkLease j call.lease
  refuse j.ownershipRetired .retired
  let (j, sequence, newDispatch) ← admitSequence c j call
  refuse (sequence ≤ retired) .retired
  match j.intents.find? sequence with
  | some row =>
    refuse (row.commandID != call.commandID || row.kind != call.kind || row.digest != digest) .conflict
    return (j, recordedOutcome j row, false)
  | none => admitNew c j call sequence newDispatch digest

/-- An admission replays the row of its ordinal, or is a new effect. -/
theorem admitDispatch_ok (h : admitDispatch c j call = .ok (j', out, execute)) :
    validCall call ∧ (0 < call.lease ∧ j.lease = call.lease) ∧
    ∃ payload j₁ sequence fresh, parse call.payload = some payload ∧
      admitSequence c j call = .ok (j₁, sequence, fresh) ∧ j.retired < sequence ∧ (execute = false ∧ j' = j₁ ∧
          (∃ row, j₁.intents.find? sequence = some row ∧ row.commandID = call.commandID ∧ row.kind = call.kind ∧
            row.digest = intentDigest c call.kind payload ∧ out = recordedOutcome j₁ row) ∨
        j₁.intents.find? sequence = none ∧
          admitNew c j₁ call sequence fresh (intentDigest c call.kind payload) = .ok (j', out, execute)) := by
  obtain ⟨valid, h⟩ := of_refuse h
  obtain ⟨payload, parsed, h⟩ := of_bind h
  obtain ⟨_, leased, h⟩ := of_bind h
  obtain ⟨positive, current, rfl⟩ := checkLease_eq_ok.1 leased
  have h := past_refuse h
  obtain ⟨⟨j₁, sequence, fresh⟩, allocated, h⟩ := of_bind h
  obtain ⟨above, h⟩ := of_refuse h
  refine ⟨by simpa using valid, ⟨positive, current⟩, payload, j₁, sequence, fresh,
    decodePayload_eq_ok.1 parsed, allocated, by simpa using above, ?_⟩
  split at h
  case h_1 row found =>
    obtain ⟨same, h⟩ := of_refuse h
    cases h
    simp only [Bool.or_eq_false_iff, bne_eq_false_iff_eq] at same
    exact .inl ⟨rfl, rfl, row, found, same.1.1, same.1.2, same.2, rfl⟩
  case h_2 missing => exact .inr ⟨missing, h⟩

end Pagnet.SessionWorker
