import Pagnet.SessionWorker.Exclusion

/-!
# At most once

The cursor and the last ordinal are counters, so nothing is executed twice.
Every answer of the journal is remembered in its tables until the sequence is
retired, and a call that repeats it is answered from there.
-/

namespace Pagnet.SessionWorker
open Json

variable {c : Context} {j j' : Journal}

/-! ## The counters -/

/-- The last server ordinal in use. -/
def lastOrdinal (j : Journal) : Int := (j.dispatchMeta.map (·.lastSequence)).getD 0

theorem executedSequence_counter (c : Context) :
    Counter (step c) (Inv c) (fun j => j.nextSequence - 1) executedSequence where
  rises j op inv := by
    have := (Forward.step inv op).cursor
    omega
  fresh j op n inv given := by
    obtain ⟨⟨call, out⟩, execution, rfl⟩ := Option.map_eq_some_iff.1 given
    have effect := admitDispatch_executed inv (executed_step execution).2
    have := effect.sequence
    have := effect.cursor
    constructor <;> dsimp only <;> omega

theorem lastOrdinal_of_bound {m : DispatchMeta} (bound : j.dispatchMeta = some m) : lastOrdinal j = m.lastSequence := by
  simp [lastOrdinal, bound]

theorem lastOrdinal_nonneg (inv : Inv c j) : 0 ≤ lastOrdinal j := by
  cases bound : j.dispatchMeta with
  | none => simp [lastOrdinal, bound]
  | some m =>
    have ordinals := inv.ordinals.bound m bound
    have := ordinals.floor
    have := ordinals.order
    rw [lastOrdinal_of_bound bound]
    omega

theorem executedOrdinal_counter (c : Context) : Counter (step c) (Inv c) lastOrdinal executedOrdinal where
  rises j op inv := by
    cases bound : j.dispatchMeta with
    | none =>
      have zero : lastOrdinal j = 0 := by simp [lastOrdinal, bound]
      rw [zero]
      exact lastOrdinal_nonneg (inv.step op)
    | some m =>
      obtain ⟨m', bound', ordinals⟩ := (Forward.step inv op).ordinals m bound
      rw [lastOrdinal_of_bound bound, lastOrdinal_of_bound bound']
      exact ordinals.last
  fresh j op n inv given := by
    obtain ⟨out, p, m, m', rfl, dispatched, -⟩ := executedOrdinal_step inv given
    have next_eq := dispatched.next_eq
    rw [lastOrdinal_of_bound dispatched.before, lastOrdinal_of_bound dispatched.after]
    exact ⟨by omega, dispatched.last⟩

/-! ## What the tables remember -/

/-- The call and the outcome of an event that an admission answered. -/
def answered : JournalEvent → Option (AdmitCall × Outcome)
  | ⟨_, .admission call, .ok (.admission out _), _⟩ => some (call, out)
  | _ => none

/-- The dispatch behind an answer: it is here, or was retired. -/
structure RememberedDispatch (c : Context) (j : Journal) (call : AdmitCall) (out : Outcome) (p : NativeDispatchProof) :
    Prop where
  valid : validDispatchProof c call.commandID p
  epoch : p.sourceRunnerEpoch.encodable
  row : ∃ m, j.dispatchMeta = some m ∧ m.ownership.id = p.ownershipID ∧ (m.retired < p.dispatchSequence →
    ∃ d ∈ j.dispatches, d.dispatchSequence = p.dispatchSequence ∧ d.operationSequence = out.sequence ∧ d.proof = p)

/-- An answer that a journal can still give: the intent is here, or was retired. -/
structure Remembered (c : Context) (j : Journal) (call : AdmitCall) (out : Outcome) : Prop where
  identity : out.commandID = call.commandID ∧ out.kind = call.kind
  cursor : out.sequence < j.nextSequence
  row : j.retired < out.sequence → ∃ row ∈ j.intents, row.sequence = out.sequence ∧ row.commandID = call.commandID ∧
    row.kind = call.kind ∧ call.digest c = some row.digest ∧
    (out.state ≠ .admitted → row.state = out.state ∧ row.result = out.result)
  admission : j.retired < out.sequence → (j.admissions.find? out.sequence).map (·.admission) = out.sourceAdmission
  dispatch : ∀ p, call.dispatch = some p → RememberedDispatch c j call out p

variable {call : AdmitCall} {out : Outcome}

theorem RememberedDispatch.forward {p : NativeDispatchProof} (remembered : RememberedDispatch c j call out p)
    (forward : Forward j j') : RememberedDispatch c j' call out p := by
  obtain ⟨m, bound, owned, row⟩ := remembered.row
  obtain ⟨m', bound', ordinals⟩ := forward.ordinals m bound
  have floor := ordinals.floor
  refine ⟨remembered.valid, remembered.epoch, m', bound', ordinals.ownership ▸ owned, fun above => ?_⟩
  obtain ⟨d, mem, at_p, operation, proof⟩ := row (by omega)
  obtain ⟨d', mem', same, operation', proof'⟩ := ordinals.dispatches d mem (at_p ▸ above)
  exact ⟨d', mem', same.trans at_p, operation'.trans operation, proof'.trans proof⟩

theorem Remembered.forward (remembered : Remembered c j call out) (forward : Forward j j') :
    Remembered c j' call out := by
  have cursor := forward.cursor
  have floor := forward.floor
  have below := remembered.cursor
  refine ⟨remembered.identity, by omega, fun above => ?_, fun above => ?_, fun p given => ?_⟩
  · obtain ⟨row, mem, sequence, command, kind, digest, settled⟩ := remembered.row (by omega)
    obtain ⟨row', mem', continues⟩ := forward.intents row mem (sequence ▸ above)
    refine ⟨row', mem', continues.sequence.trans sequence, continues.command.trans command, continues.kind.trans kind,
      continues.digest ▸ digest, fun done => ?_⟩
    obtain ⟨state, result⟩ := settled done
    obtain ⟨state', result'⟩ := continues.settled (state ▸ done)
    exact ⟨state'.trans state, result'.trans result⟩
  · rw [forward.admissions out.sequence above below]
    exact remembered.admission (by omega)
  · exact (remembered.dispatch p given).forward forward

theorem prepareDispatchTx_encodable {next requested sequence : Int} {command : String} {p : NativeDispatchProof}
    {fresh : Bool} (h : prepareDispatchTx c j next requested command p = .ok (j', sequence, fresh)) :
    p.sourceRunnerEpoch.encodable := by
  have h := past_refuse h
  obtain ⟨_, -, h⟩ := of_bind h
  split at h
  · cases h
  · have h := past_refuse h
    have h := past_refuse h
    obtain ⟨encodable, -⟩ := of_refuse h
    simpa using encodable

/-- An answer from a row that is already there changes nothing. -/
theorem admitDispatch_replayed (inv : Inv c j) (h : admitDispatch c j call = .ok (j', out, false)) :
    j' = j ∧ ∃ row ∈ j.intents, row.commandID = call.commandID ∧ row.kind = call.kind ∧
      call.digest c = some row.digest ∧ out = recordedOutcome j row ∧
      ∀ p, call.dispatch = some p → ∃ d ∈ j.dispatches, d.proof = p ∧ d.operationSequence = row.sequence := by
  obtain ⟨-, -, payload, j₁, sequence, fresh, parsed, allocated, above, outcome⟩ := admitDispatch_ok h
  rcases outcome with ⟨-, rfl, row, found, command, kind, digest, rfl⟩ | ⟨-, new⟩
  swap
  · obtain ⟨-, -, -, absurd_, -⟩ := admitNew_ok new
    cases absurd_
  obtain ⟨mem, at_sequence⟩ := Table.find?_eq_some.1 found
  have same : j' = j ∧ ∀ p, call.dispatch = some p → ∃ d ∈ j.dispatches, d.proof = p ∧ d.operationSequence = sequence := by
    rcases admitSequence_ok allocated with ⟨absent, rfl, -⟩ | ⟨p, given, prepared⟩
    · exact ⟨rfl, fun p given => by cases absent.symm.trans given⟩
    obtain ⟨-, -, m, -, -, -, ⟨d, retained, proof, -, rfl, rfl, -⟩ | ⟨-, -, -, rfl, -, rows, -, rfl⟩⟩ :=
      prepareDispatchTx_ok prepared
    · refine ⟨rfl, fun p' given' => ⟨d, (Table.find?_eq_some.1 retained).1, ?_, rfl⟩⟩
      exact proof.trans (Option.some.inj (given.symm.trans given'))
    · -- a new dispatch is at the cursor, where no row is
      have fresh := inv.intents.cursor_fresh row mem
      omega
  obtain ⟨rfl, dispatched⟩ := same
  refine ⟨rfl, row, mem, command, kind, ?_, rfl, at_sequence ▸ dispatched⟩
  simp [AdmitCall.digest, parsed, digest]

theorem admitDispatch_remembered {execute : Bool} (inv : Inv c j)
    (h : admitDispatch c j call = .ok (j', out, execute)) : Remembered c j' call out := by
  have proved : ∀ p, call.dispatch = some p → validDispatchProof c call.commandID p ∧
      p.sourceRunnerEpoch.encodable ∧ ∃ m, j.dispatchMeta = some m ∧ m.ownership.id = p.ownershipID := by
    intro p given
    obtain ⟨-, -, payload, j₁, sequence, fresh, -, allocated, -⟩ := admitDispatch_ok h
    rcases admitSequence_ok allocated with ⟨absent, -⟩ | ⟨p', given', prepared⟩
    · cases absent.symm.trans given
    cases given.symm.trans given'
    obtain ⟨valid, -, m, bound, owned, -⟩ := prepareDispatchTx_ok prepared
    exact ⟨valid, prepareDispatchTx_encodable prepared, m, bound, owned⟩
  cases execute with
  | true =>
    have effect := admitDispatch_executed inv h
    have sequence := effect.sequence
    have cursor := effect.cursor
    obtain ⟨row, mem, at_out, command, kind, digest⟩ := effect.row
    obtain ⟨-, -, _, _, _, _, -, -, -, ⟨absurd_, -⟩ | ⟨-, new⟩⟩ := admitDispatch_ok h
    · cases absurd_
    obtain ⟨-, -, -, -, admission, -, -, rfl⟩ := admitNew_ok new
    refine ⟨effect.identity, by omega, fun _ => ?_, fun _ => effect.admission, fun p given => ?_⟩
    · exact ⟨row, mem, at_out, command, kind, digest, fun settled => absurd rfl settled⟩
    · obtain ⟨valid, epoch, m, bound, owned⟩ := proved p given
      obtain ⟨m₁, m', dispatched⟩ := effect.dispatch p given
      cases bound.symm.trans dispatched.before
      exact ⟨valid, epoch, m', dispatched.after, dispatched.ownership ▸ owned, fun _ => dispatched.row⟩
  | false =>
    obtain ⟨rfl, row, mem, command, kind, digest, rfl, dispatched⟩ := admitDispatch_replayed inv h
    refine ⟨⟨command, kind⟩, inv.intents.cursor_fresh row mem, fun _ => ?_, fun _ => rfl, fun p given => ?_⟩
    · exact ⟨row, mem, rfl, command, kind, digest, fun _ => ⟨rfl, rfl⟩⟩
    · obtain ⟨valid, epoch, m, bound, owned⟩ := proved p given
      obtain ⟨d, found, rfl, operation⟩ := dispatched p given
      have ordinal := ((inv.ordinals.bound m bound).rows d found).ordinal
      exact ⟨valid, epoch, m, bound, owned, fun _ => ⟨d, found, ordinal.symm, operation, rfl⟩⟩

theorem answered_step {op : Op} (h : answered (Event.of (step c) j op) = some (call, out)) :
    ∃ execute, admitDispatch c j call = .ok ((step c j op).1, out, execute) := by
  unfold answered at h
  split at h
  case h_1 before call' out' execute after same =>
    cases h
    obtain ⟨rfl, rfl, output, rfl⟩ := Event.mk.inj same
    obtain ⟨⟨j₁, out₁, execute₁⟩, admitted, rest⟩ := of_bind (step_eq_ok output)
    cases hstep : step c j (.admission call) with
    | mk after answer =>
      rw [hstep] at rest
      cases rest
      exact ⟨_, admitted⟩
  case h_2 => cases h

/-- Every answer of a run is remembered at its end. -/
theorem answered_remembered {trace : List JournalEvent} (run : Reached c trace j) :
    ∀ e ∈ trace, ∀ call out, answered e = some (call, out) → Remembered c j call out := by
  induction run with
  | start => simp
  | @next trace j run op ih =>
    intro e mem call out answer
    have inv := reached_inv run
    rcases List.mem_append.1 mem with old | new
    · exact (ih e old call out answer).forward (Forward.step inv op)
    · obtain rfl := List.mem_singleton.1 new
      obtain ⟨execute, admitted⟩ := answered_step answer
      exact admitDispatch_remembered inv admitted

end Pagnet.SessionWorker
