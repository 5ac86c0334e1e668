import Pagnet.SessionWorker.AtMostOnce

/-!
# Repeated calls

What a controller hears that asks for an intent again: the recorded outcome when
it is the same intent, a conflict when it is another one, and that the sequence
is retired once the journal has forgotten it.
-/

namespace Pagnet.SessionWorker
open Json

variable {c : Context} {j j' : Journal} {call call' : AdmitCall} {out : Outcome}

/-- A call within the bounds of an intent, under the current lease. -/
structure AdmitCall.Current (call : AdmitCall) (j : Journal) : Prop where
  valid : validCall call
  lease : 0 < call.lease ∧ j.lease = call.lease

/-- Command, kind and payload digest are equal. -/
def AdmitCall.SameIntent (c : Context) (call call' : AdmitCall) : Prop :=
  call'.commandID = call.commandID ∧ call'.kind = call.kind ∧ call'.digest c = call.digest c

/-- The outcome of one intent, told again. -/
structure Outcome.Repeats (out out' : Outcome) : Prop where
  sequence : out'.sequence = out.sequence
  command : out'.commandID = out.commandID
  kind : out'.kind = out.kind
  source : out'.sourceAdmission = out.sourceAdmission
  settled : out.state ≠ .admitted → out'.state = out.state ∧ out'.result = out.result

/-- How `call'` is answered after `call` was answered with `out`. -/
structure Repeated (c : Context) (j : Journal) (call : AdmitCall) (out : Outcome) (call' : AdmitCall) : Prop where
  same : call.SameIntent c call' → ∃ out', admitDispatch c j call' = .ok (j, out', false) ∧ out.Repeats out'
  other : ¬ call.SameIntent c call' → admitDispatch c j call' = .error .conflict

/-- The ownership of this journal is in use. -/
def Journal.Owned (j : Journal) : Prop := j.ownershipRetired = false

/-- No operation of these runs retires the ownership. -/
theorem reached_owned {trace : List JournalEvent} (run : Reached c trace j) : j.Owned := (reached_inv run).intents.owned

/-! ## The answer behind an allocated sequence -/

/-- A call that passes the checks in front of the allocation. -/
theorem AdmitCall.Current.reaches (current : call.Current j) (owned : j.Owned) : ∃ payload,
    call.digest c = some (intentDigest c call.kind payload) ∧
    admitDispatch c j call = admitSequence c j call >>= fun (j₁, sequence, fresh) =>
      refuse (sequence ≤ j.retired) .retired >>= fun _ =>
        match j₁.intents.find? sequence with
        | some row =>
          refuse (row.commandID != call.commandID || row.kind != call.kind ||
              row.digest != intentDigest c call.kind payload) .conflict >>= fun _ =>
            .ok (j₁, recordedOutcome j₁ row, false)
        | none => admitNew c j₁ call sequence fresh (intentDigest c call.kind payload) := by
  have valid := current.valid
  have bounds := valid
  simp only [validCall, Bool.and_eq_true] at bounds
  cases parsed : parse call.payload with
  | none => simp [Json.valid, parsed] at bounds
  | some payload =>
    refine ⟨payload, by simp [AdmitCall.digest, parsed], ?_⟩
    have decoded : decodePayload call.payload = .ok payload := decodePayload_eq_ok.2 parsed
    have leased : checkLease j call.lease = .ok (j.nextSequence, j.retired) :=
      checkLease_eq_ok.2 ⟨current.lease.1, current.lease.2, rfl⟩
    unfold admitDispatch
    rw [valid, Bool.not_true, refuse_false, ok_bind, decoded, ok_bind, leased, ok_bind]
    simp only [show j.ownershipRetired = false from owned, refuse_false, ok_bind]
    rfl

theorem admitDispatch_unallocated {e : Error} (current : call.Current j) (owned : j.Owned)
    (refused : admitSequence c j call = .error e) : admitDispatch c j call = .error e := by
  obtain ⟨payload, -, reaches⟩ := current.reaches (c := c) owned
  rw [reaches, refused, error_bind]

variable {fresh : Bool} {command : String} {d : DispatchRow} {next requested : Int}

theorem admitDispatch_retired {sequence : Int} (current : call.Current j) (owned : j.Owned)
    (allocated : admitSequence c j call = .ok (j', sequence, fresh)) (below : sequence ≤ j.retired) :
    admitDispatch c j call = .error .retired := by
  obtain ⟨payload, -, reaches⟩ := current.reaches (c := c) owned
  rw [reaches, allocated]
  simp only [ok_bind, decide_eq_true below, refuse_true, error_bind]

/-- A row at the sequence decides: the same intent, or a conflict. -/
theorem admitDispatch_row {row : IntentRow} (current : call.Current j) (owned : j.Owned)
    (allocated : admitSequence c j call = .ok (j, row.sequence, fresh)) (mem : row ∈ j.intents)
    (above : j.retired < row.sequence) :
    (row.commandID = call.commandID ∧ row.kind = call.kind ∧ call.digest c = some row.digest →
      admitDispatch c j call = .ok (j, recordedOutcome j row, false)) ∧
    (¬ (row.commandID = call.commandID ∧ row.kind = call.kind ∧ call.digest c = some row.digest) →
      admitDispatch c j call = .error .conflict) := by
  obtain ⟨payload, digest, reaches⟩ := current.reaches (c := c) owned
  have found : j.intents.find? row.sequence = some row := Table.find?_eq_some.2 ⟨mem, rfl⟩
  rw [reaches, allocated, digest]
  simp only [ok_bind, decide_eq_false (not_le.2 above), refuse_false, found]
  constructor
  · rintro ⟨command, kind, same⟩
    simp [command, kind, Option.some.inj same]
  · intro other
    have refused : (row.commandID != call.commandID || row.kind != call.kind ||
        row.digest != intentDigest c call.kind payload) := by
      by_contra accepted
      simp only [Bool.not_eq_true, Bool.or_eq_false_iff, bne_eq_false_iff_eq] at accepted
      exact other ⟨accepted.1.1, accepted.1.2, congrArg some accepted.2.symm⟩
    simp [refused]

/-- An answer that is still remembered is given again. -/
theorem Remembered.repeated (remembered : Remembered c j call out) (above : j.retired < out.sequence)
    (current : call'.Current j) (owned : j.Owned) (allocated : admitSequence c j call' = .ok (j, out.sequence, fresh)) :
    Repeated c j call out call' := by
  obtain ⟨row, mem, sequence, command, kind, digest, settled⟩ := remembered.row above
  have admission := remembered.admission above
  rw [← sequence] at allocated above admission
  obtain ⟨same, other⟩ := admitDispatch_row current owned allocated mem above
  constructor
  · rintro ⟨command', kind', digest'⟩
    refine ⟨recordedOutcome j row, same ⟨?_, ?_, ?_⟩, sequence, ?_, ?_, admission, settled⟩
    · exact command.trans command'.symm
    · exact kind.trans kind'.symm
    · exact digest'.trans digest
    · exact command.trans remembered.identity.1.symm
    · exact kind.trans remembered.identity.2.symm
  · intro different
    refine other fun ⟨command', kind', digest'⟩ => different ⟨?_, ?_, ?_⟩
    · exact command'.symm.trans command
    · exact kind'.symm.trans kind
    · exact digest'.trans digest.symm

/-! ## Dispatches asked for again -/

variable {m : DispatchMeta} {p p' : NativeDispatchProof}

/-- An ordinal whose row is retained: its own proof gets its operation again,
every other one is a conflict. -/
theorem prepareDispatchTx_retained
    (valid : validDispatchProof c command p) (unfenced : fenced j p = false) (bound : j.dispatchMeta = some m)
    (owned : m.ownership.id = p.ownershipID) (above : m.retired < p.dispatchSequence)
    (epoch : p.sourceRunnerEpoch.encodable) (mem : d ∈ j.dispatches) (at_p : d.dispatchSequence = p.dispatchSequence) :
    prepareDispatchTx c j next requested command p =
      if d.proof = p ∧ (requested = 0 ∨ requested = d.operationSequence) then .ok (j, d.operationSequence, false)
      else .error .conflict := by
  have found : j.dispatches.find? p.dispatchSequence = some d := Table.find?_eq_some.2 ⟨mem, at_p⟩
  have above' : ¬ p.dispatchSequence ≤ m.retired := not_le.2 above
  unfold prepareDispatchTx checkDispatchCancellationTx
  simp only [valid, unfenced, bound, owned, epoch, found, above', Bool.not_true, refuse_false, ok_bind,
    bne_self_eq_false, decide_false]
  split
  next same => obtain ⟨proof, rfl | rfl⟩ := same <;> simp [proof, pure, Except.pure]
  next other =>
    have refused : (d.proof != p || requested != 0 && requested != d.operationSequence) := by
      by_contra accepted
      simp only [Bool.not_eq_true, Bool.or_eq_false_iff, bne_eq_false_iff_eq, Bool.and_eq_false_iff] at accepted
      exact other accepted
    simp [refused]

/-- Where the proof is not one of this command, or is fenced, the ordinal does not matter. -/
theorem prepareDispatchTx_conflict (bound : j.dispatchMeta = some m)
    (h : validDispatchProof c command p = false ∨ fenced j p ∨ m.ownership.id ≠ p.ownershipID) :
    prepareDispatchTx c j next requested command p = .error .conflict := by
  unfold prepareDispatchTx checkDispatchCancellationTx
  by_cases valid : validDispatchProof c command p
  · by_cases unfenced : fenced j p
    · simp [valid, unfenced]
    · have other : m.ownership.id ≠ p.ownershipID := by
        simpa [valid, unfenced] using h
      simp [valid, unfenced, bound, bne_iff_ne.2 other]
  · simp [valid]

theorem validDispatchProof_command (valid : validDispatchProof c command p) : p.sourceCommandID = command := by
  simp only [validDispatchProof, Bool.and_eq_true, beq_iff_eq] at valid
  exact valid.1.1.2

/-- A dispatched ordinal is not fenced. -/
theorem Ordinals.unfenced (ordinals : Ordinals c j m) (mem : d ∈ j.dispatches) : fenced j d.proof = false := by
  refine fenced_eq_false.2 fun r record => ?_
  obtain ⟨ordinal, command⟩ := ordinals.apart d mem r record
  have row := ordinals.rows d mem
  rw [row.ordinal, row.command]
  exact ⟨ordinal.symm, command.symm⟩

/-- The proof of a remembered dispatch finds the operation of its answer. -/
theorem RememberedDispatch.allocates (remembered : RememberedDispatch c j call out p) (inv : Inv c j)
    (bound : j.dispatchMeta = some m) (above : m.retired < p.dispatchSequence) (given : call'.dispatch = some p)
    (command : call'.commandID = call.commandID) (requested : call'.sequence = 0 ∨ call'.sequence = out.sequence) :
    admitSequence c j call' = .ok (j, out.sequence, false) := by
  obtain ⟨m', bound', owned, row⟩ := remembered.row
  cases bound.symm.trans bound'
  obtain ⟨d, mem, at_p, operation, rfl⟩ := row above
  have unfenced := (inv.ordinals.bound m bound).unfenced mem
  have valid : validDispatchProof c call'.commandID d.proof := command ▸ remembered.valid
  unfold admitSequence
  simp only [given]
  rw [prepareDispatchTx_retained valid unfenced bound owned above remembered.epoch mem at_p, operation]
  simp [requested]

/-- Another command's proof is refused before its ordinal is looked at. -/
theorem RememberedDispatch.other_command (remembered : RememberedDispatch c j call out p) (bound : j.dispatchMeta = some m)
    (given : call'.dispatch = some p) (command : call'.commandID ≠ call.commandID) :
    admitSequence c j call' = .error .conflict := by
  have invalid : validDispatchProof c call'.commandID p = false := by
    by_contra valid
    rw [Bool.not_eq_false] at valid
    exact command ((validDispatchProof_command valid).symm.trans (validDispatchProof_command remembered.valid))
  unfold admitSequence
  simp only [given]
  exact prepareDispatchTx_conflict bound (.inl invalid)

/-- Any other proof of a dispatched ordinal is a conflict. -/
theorem RememberedDispatch.other_proof (remembered : RememberedDispatch c j call out p)
    (bound : j.dispatchMeta = some m) (above : m.retired < p.dispatchSequence) (given : call'.dispatch = some p')
    (at_p : p'.dispatchSequence = p.dispatchSequence) (epoch : p'.sourceRunnerEpoch.encodable)
    (other : p' ≠ p ∨ call'.sequence ≠ 0 ∧ call'.sequence ≠ out.sequence) :
    admitSequence c j call' = .error .conflict := by
  obtain ⟨m', bound', -, row⟩ := remembered.row
  cases bound.symm.trans bound'
  obtain ⟨d, mem, at_d, operation, rfl⟩ := row above
  unfold admitSequence
  simp only [given]
  by_cases conflict : validDispatchProof c call'.commandID p' = false ∨ fenced j p' ∨ m.ownership.id ≠ p'.ownershipID
  · exact prepareDispatchTx_conflict bound conflict
  · simp only [not_or, Bool.not_eq_false, Bool.not_eq_true, ne_eq, not_not] at conflict
    obtain ⟨valid, unfenced, owned⟩ := conflict
    rw [prepareDispatchTx_retained valid unfenced bound owned (at_p ▸ above) epoch mem (at_d.trans at_p.symm), operation]
    refine if_neg fun ⟨same, requested⟩ => ?_
    rcases other with different | ⟨nonzero, elsewhere⟩
    · exact different same.symm
    · exact requested.elim nonzero elsewhere

/-! ## Runs -/

/-- Kinds that a bound journal takes with a dispatch only. -/
def AdmitCall.Reserved (call : AdmitCall) (j : Journal) : Prop := call.kind ∈ ownedKinds ∧ j.dispatchMeta.isSome

/-- How a call is answered that asks again for what `call` was answered with `out`. -/
structure AskedAgain (c : Context) (j : Journal) (call : AdmitCall) (out : Outcome) (call' : AdmitCall) : Prop where
  /-- By its own sequence. -/
  intent : call'.dispatch = none → ¬ call'.Reserved j → call'.sequence = out.sequence → j.retired < out.sequence →
    Repeated c j call out call'
  /-- By the proof of its dispatch. -/
  dispatch : ∀ p m, call.dispatch = some p → call'.dispatch = some p → j.dispatchMeta = some m →
    m.retired < p.dispatchSequence → (call'.sequence = 0 ∨ call'.sequence = out.sequence) → j.retired < out.sequence →
    Repeated c j call out call'
  /-- By the proof of its dispatch, after the operation was acknowledged and pruned. -/
  pruned : ∀ p m, call.dispatch = some p → call'.dispatch = some p → j.dispatchMeta = some m →
    m.retired < p.dispatchSequence → (call'.sequence = 0 ∨ call'.sequence = out.sequence) →
    call'.commandID = call.commandID → out.sequence ≤ j.retired → admitDispatch c j call' = .error .retired
  /-- By another proof of its ordinal, or for another sequence. -/
  other : ∀ p p' m, call.dispatch = some p → call'.dispatch = some p' → p'.dispatchSequence = p.dispatchSequence →
    j.dispatchMeta = some m → m.retired < p.dispatchSequence → p'.sourceRunnerEpoch.encodable →
    (p' ≠ p ∨ call'.sequence ≠ 0 ∧ call'.sequence ≠ out.sequence) → admitDispatch c j call' = .error .conflict

/-- The calls below the floors, and the ones that need a dispatch. -/
structure NotAsked (c : Context) (j : Journal) (call : AdmitCall) : Prop where
  reserved : call.dispatch = none → call.Reserved j → admitDispatch c j call = .error .conflict
  retired : call.dispatch = none → ¬ call.Reserved j → call.sequence ≤ j.retired → admitDispatch c j call = .error .retired
  dispatch : ∀ p m, call.dispatch = some p → j.dispatchMeta = some m → validDispatchProof c call.commandID p →
    fenced j p = false → m.ownership.id = p.ownershipID → p.dispatchSequence ≤ m.retired →
    admitDispatch c j call = .error .retired

/-- Without a dispatch the call names its own sequence. -/
theorem admitSequence_plain (absent : call.dispatch = none) (free : ¬ call.Reserved j) :
    admitSequence c j call = .ok (j, call.sequence, false) := by
  unfold admitSequence
  have allowed : (decide (call.kind ∈ ownedKinds) && j.dispatchMeta.isSome) = false := by
    simpa [AdmitCall.Reserved] using free
  simp only [absent, allowed, refuse_false, ok_bind]
  rfl

theorem AdmitCall.Current.notAsked (current : call.Current j) (owned : j.Owned) : NotAsked c j call where
  reserved absent reserved := by
    refine admitDispatch_unallocated current owned ?_
    unfold admitSequence
    simp [absent, reserved.1, reserved.2]
  retired absent free below := admitDispatch_retired current owned (admitSequence_plain absent free) below
  dispatch p m given bound valid unfenced same below := by
    refine admitDispatch_unallocated current owned ?_
    unfold admitSequence
    simp only [given]
    unfold prepareDispatchTx checkDispatchCancellationTx
    simp [valid, unfenced, bound, same, below]

theorem Remembered.askedAgain (remembered : Remembered c j call out) (inv : Inv c j) (owned : j.Owned)
    (current : call'.Current j) : AskedAgain c j call out call' where
  intent absent free sequence above := by
    have allocated := admitSequence_plain (c := c) absent free
    rw [sequence] at allocated
    exact remembered.repeated above current owned allocated
  dispatch p m given given' bound above requested live := by
    have dispatch := remembered.dispatch p given
    by_cases command : call'.commandID = call.commandID
    · exact remembered.repeated live current owned (dispatch.allocates inv bound above given' command requested)
    · refine ⟨fun same => absurd same.1 command, fun _ => ?_⟩
      exact admitDispatch_unallocated current owned (dispatch.other_command bound given' command)
  pruned p m given given' bound above requested command below :=
    admitDispatch_retired current owned
      ((remembered.dispatch p given).allocates inv bound above given' command requested) below
  other p p' m given given' at_p bound above epoch different :=
    admitDispatch_unallocated current owned
      ((remembered.dispatch p given).other_proof bound above given' at_p epoch different)

/-- A controller that lost its lease is told so. -/
theorem admitDispatch_fenced (valid : validCall call) (stale : call.lease ≤ 0 ∨ call.lease ≠ j.lease) :
    admitDispatch c j call = .error .fenced := by
  have bounds := valid
  simp only [validCall, Bool.and_eq_true] at bounds
  cases parsed : parse call.payload with
  | none => simp [Json.valid, parsed] at bounds
  | some payload =>
    have refused : (decide (call.lease ≤ 0) || j.lease != call.lease) := by
      rcases stale with low | other
      · simp [low]
      · simp [Ne.symm other]
    unfold admitDispatch checkLease
    rw [valid, decodePayload_eq_ok.2 parsed, refused]
    rfl

/-- Nothing is executed twice, whoever calls and in whatever order. A call
that asks again for what was answered is answered from the tables, the calls
below the floors are told so, and a stale lease changes nothing. -/
theorem admission_at_most_once {trace : List JournalEvent} (run : Reached c trace j) :
    (∀ s, trace.countP (fun e => executedSequence e = some s) ≤ 1) ∧
    (∀ s, trace.countP (fun e => executedOrdinal e = some s) ≤ 1) ∧
    (∀ e ∈ trace, ∀ call out, answered e = some (call, out) → ∀ call', call'.Current j → AskedAgain c j call out call') ∧
    (∀ call, call.Current j → NotAsked c j call) ∧
    (∀ call, validCall call = true → call.lease ≤ 0 ∨ call.lease ≠ j.lease → admitDispatch c j call = .error .fenced) ∧
    (∀ op l, op.lease? = some l → l ≠ j.lease → ∃ err, step c j op = (j, .error err)) := by
  have inv := reached_inv run
  have owned := reached_owned run
  refine ⟨fun s => ?_, fun s => ?_, fun e mem call out answer call' current => ?_, fun call current => ?_,
    fun call valid stale => admitDispatch_fenced valid stale, fun op l given stale => ?_⟩
  · exact (run.at_most_once (executedSequence_counter c) (Inv.initial c) (fun _ op inv => inv.step op) s).1
  · exact (run.at_most_once (executedOrdinal_counter c) (Inv.initial c) (fun _ op inv => inv.step op) s).1
  · exact (answered_remembered run e mem call out answer).askedAgain inv owned current
  · exact current.notAsked owned
  · cases answer : apply c j op with
    | error err => exact ⟨err, step_of_error answer⟩
    | ok result =>
      obtain ⟨j', reply⟩ := result
      exact absurd ((apply_applied answer).lease given).symm stale

/-- The first stop of the sample run is executed once. -/
theorem admission_once_sample : ∃ trace j, Reached sampleContext trace j ∧
    trace.countP (fun e => executedSequence e = some 1) = 1 := by
  obtain ⟨trace, e, out, run, mem, execution, first⟩ := sample_executed
  have sequence : executedSequence e = some 1 := by
    rw [executedSequence, execution, Option.map_some, first]
  have once := (admission_at_most_once run).1 1
  have some_event : 0 < trace.countP (fun e => executedSequence e = some 1) :=
    List.countP_pos_iff.2 ⟨e, mem, by simpa using sequence⟩
  exact ⟨trace, _, run, by omega⟩

/-- The dispatched stop, asked for by its sequence. -/
def samplePlain : AdmitCall := { sampleCall 1 with sequence := 1, authorizeNew := none, dispatch := none }

/-- A bound journal refuses to repeat an intent of a reserved kind to a call
that has no proof, and a sequence that is not positive is not called retired. -/
theorem repeated_stop_conflicts : ∃ trace j e call out, Reached sampleContext trace j ∧ e ∈ trace ∧
    executed e = some (call, out) ∧
    (samplePlain.Current j ∧ samplePlain.sequence = out.sequence ∧ call.SameIntent sampleContext samplePlain ∧
      j.retired < out.sequence ∧ admitDispatch sampleContext j samplePlain = .error .conflict) ∧
    ∃ zero : AdmitCall, zero.lease = j.lease ∧ zero.sequence ≤ j.retired ∧
      admitDispatch sampleContext j zero = .error .invalidIntent := by
  obtain ⟨trace, e, out, run, mem, execution, first⟩ := sample_executed
  have lease : sampleStopped.lease = 1 := by decide +kernel
  have floor : sampleStopped.retired = 0 := by decide +kernel
  have current : samplePlain.Current sampleStopped := ⟨by decide +kernel, Int.one_pos, lease⟩
  refine ⟨trace, _, e, sampleCall 1, out, run, mem, execution, ⟨current, first.symm, ⟨rfl, rfl, rfl⟩, by omega, ?_⟩,
    { samplePlain with sequence := 0 }, lease.symm, floor.ge, ?_⟩
  · refine (current.notAsked (reached_owned run)).reserved rfl ⟨(by decide : "stop" ∈ ownedKinds), ?_⟩
    decide +kernel
  · rfl

end Pagnet.SessionWorker
