import Pagnet.SessionWorker.Capacity
import Pagnet.SessionWorker.Executed

/-!
# Cancellation or admission

An ordinal of the server is admitted or cancelled, never both. Both records are
pruned when the server retires the ordinal, and from then on the dispatch floor
alone keeps it from being used again.
-/

namespace Pagnet.SessionWorker
open Json List

/-- The ordinal was dispatched: its row is here, or was retired. -/
def Journal.Accepted (j : Journal) (s : Int) : Prop :=
  ∃ m, j.dispatchMeta = some m ∧ (s ≤ m.retired ∨ ∃ d ∈ j.dispatches, d.dispatchSequence = s)

/-- The ordinal was cancelled: its record is here, or was retired. -/
def Journal.Cancelled (j : Journal) (s : Int) : Prop :=
  ∃ m, j.dispatchMeta = some m ∧ (s ≤ m.retired ∨ ∃ r ∈ j.cancellations, r.request.dispatchSequence = s)

variable {c : Context} {j j' : Journal} {s : Int}

theorem Forward.accepted (forward : Forward j j') (accepted : j.Accepted s) : j'.Accepted s := by
  obtain ⟨m, bound, fate⟩ := accepted
  obtain ⟨m', bound', ordinals⟩ := forward.ordinals m bound
  have floor := ordinals.floor
  refine ⟨m', bound', ?_⟩
  rcases fate with retired | ⟨d, mem, rfl⟩
  · left
    omega
  · by_cases retired : d.dispatchSequence ≤ m'.retired
    · exact .inl retired
    · obtain ⟨d', mem', same, -⟩ := ordinals.dispatches d mem (not_le.1 retired)
      exact .inr ⟨d', mem', same⟩

theorem Forward.cancelled (forward : Forward j j') (cancelled : j.Cancelled s) : j'.Cancelled s := by
  obtain ⟨m, bound, fate⟩ := cancelled
  obtain ⟨m', bound', ordinals⟩ := forward.ordinals m bound
  have floor := ordinals.floor
  refine ⟨m', bound', ?_⟩
  rcases fate with retired | ⟨r, mem, rfl⟩
  · left
    omega
  · by_cases retired : r.request.dispatchSequence ≤ m'.retired
    · exact .inl retired
    · obtain ⟨r', mem', same⟩ := ordinals.cancellations r mem (not_le.1 retired)
      exact .inr ⟨r', mem', same⟩

variable {r : CancellationPreparation} {p : NativeDispatchProof} {op : Op}

/-- A record in the table is a cancelled ordinal. -/
theorem OrdinalInv.cancelled (inv : OrdinalInv c j) (mem : r ∈ j.cancellations) :
    j.Cancelled r.request.dispatchSequence := by
  cases bound : j.dispatchMeta with
  | none => exact absurd mem ((inv.unbound bound).2 r)
  | some m => exact ⟨m, bound, .inr ⟨r, mem, rfl⟩⟩

/-- No record of the table names an accepted ordinal. -/
theorem OrdinalInv.not_cancelled (inv : OrdinalInv c j) (accepted : j.Accepted s)
    (mem : r ∈ j.cancellations) : r.request.dispatchSequence ≠ s := by
  obtain ⟨m, bound, fate⟩ := accepted
  have ordinals := inv.bound m bound
  rcases fate with retired | ⟨d, dispatched, rfl⟩
  · have above := ordinals.above r mem
    omega
  · exact (ordinals.apart d dispatched r mem).1.symm

/-- A cancelled ordinal is fenced or retired, so no admission finds it. -/
theorem Journal.Cancelled.ne {m : DispatchMeta} (cancelled : j.Cancelled s)
    (bound : j.dispatchMeta = some m) (above : m.retired < p.dispatchSequence) (unfenced : fenced j p = false) :
    s ≠ p.dispatchSequence := by
  obtain ⟨m', bound', retired | ⟨r, mem, rfl⟩⟩ := cancelled
  · cases bound.symm.trans bound'
    omega
  · exact (fenced_eq_false.1 unfenced r mem).1

/-- The ordinals of a run so far: what was executed and what was cancelled. -/
structure Exclusive (trace : List JournalEvent) (j : Journal) : Prop where
  accepted : ∀ e ∈ trace, ∀ s, executedOrdinal e = some s → j.Accepted s
  cancelled : ∀ e ∈ trace, ∀ r ∈ e.after.cancellations, j.Cancelled r.request.dispatchSequence
  apart : ∀ e ∈ trace, ∀ s, executedOrdinal e = some s →
    ∀ e' ∈ trace, ∀ r ∈ e'.after.cancellations, r.request.dispatchSequence ≠ s

/-- The dispatch behind an executed ordinal. -/
theorem executedOrdinal_step (inv : Inv c j) (h : executedOrdinal (Event.of (step c) j op) = some s) :
    ∃ out p m m', p.dispatchSequence = s ∧ ExecutedDispatch j (step c j op).1 out p m m' ∧
      (step c j op).1.cancellations = j.cancellations := by
  obtain ⟨⟨call, out⟩, execution, ordinal⟩ := Option.bind_eq_some_iff.1 h
  obtain ⟨p, given, rfl⟩ := Option.map_eq_some_iff.1 ordinal
  obtain ⟨rfl, admitted⟩ := executed_step execution
  have effect := admitDispatch_executed inv admitted
  obtain ⟨m, m', dispatched⟩ := effect.dispatch p given
  exact ⟨out, p, m, m', rfl, dispatched, effect.cancellations⟩

theorem Exclusive.step {trace : List JournalEvent} (before : Exclusive trace j) (inv : Inv c j) (op : Op) :
    Exclusive (trace ++ [Event.of (step c) j op]) (step c j op).1 := by
  have forward := Forward.step inv op
  have after := inv.step op
  constructor
  · intro e mem s ordinal
    rcases mem_append.1 mem with old | new
    · exact forward.accepted (before.accepted e old s ordinal)
    · obtain rfl := mem_singleton.1 new
      obtain ⟨out, p, m, m', rfl, dispatched, -⟩ := executedOrdinal_step inv ordinal
      obtain ⟨d, row, same, -⟩ := dispatched.row
      exact ⟨m', dispatched.after, .inr ⟨d, row, same⟩⟩
  · intro e mem r record
    rcases mem_append.1 mem with old | new
    · exact forward.cancelled (before.cancelled e old r record)
    · obtain rfl := mem_singleton.1 new
      exact after.ordinals.cancelled record
  · intro e mem s ordinal e' mem' r record
    rcases mem_append.1 mem with old | new
    · rcases mem_append.1 mem' with old' | new'
      · exact before.apart e old s ordinal e' old' r record
      · -- executed before: the ordinal cannot be recorded now
        obtain rfl := mem_singleton.1 new'
        exact after.ordinals.not_cancelled (forward.accepted (before.accepted e old s ordinal)) record
    · obtain rfl := mem_singleton.1 new
      obtain ⟨out, p, m, m', rfl, dispatched, same⟩ := executedOrdinal_step inv ordinal
      rcases mem_append.1 mem' with old' | new'
      · exact (before.cancelled e' old' r record).ne dispatched.before dispatched.above dispatched.unfenced
      · obtain rfl := mem_singleton.1 new'
        rw [Event.of_after, same] at record
        exact (fenced_eq_false.1 dispatched.unfenced r record).1

theorem Exclusive.reached {trace : List JournalEvent} (run : Reached c trace j) : Exclusive trace j := by
  induction run with
  | start => exact ⟨by simp, by simp, by simp⟩
  | next run op ih => exact ih.step (reached_inv run) op

/-- An accepted preparation left its record in the table, as far as JSON keeps it. -/
theorem prepared_mem (h : (step c j op).2 = .ok (.prepared r)) :
    ∃ stored ∈ (step c j op).1.cancellations, stored.request = r.request := by
  cases apply_applied (step_eq_ok h) with
  | prepareCancellation prepared =>
    obtain ⟨-, -, -, -, ⟨same, mem, -⟩ | ⟨-, rfl, -, -, rows, inserted, same⟩⟩ := prepareDispatchCancellation_ok prepared
    · rw [same]
      exact ⟨r, mem, rfl⟩
    · rw [same]
      exact ⟨_, ((Table.insert_eq_some inserted).2.1 _).2 (.inl rfl), rfl⟩

/-- What was cancelled is refused to every later admission. -/
theorem Journal.Cancelled.admission_refused (cancelled : j.Cancelled s) {call : AdmitCall}
    (given : call.dispatch = some p) (at_s : p.dispatchSequence = s) : ∃ err, admitDispatch c j call = .error err := by
  cases answer : admitDispatch c j call with
  | error err => exact ⟨err, rfl⟩
  | ok result =>
    obtain ⟨j', out, execute⟩ := result
    obtain ⟨-, -, payload, j₁, sequence, fresh, -, allocated, -⟩ := admitDispatch_ok answer
    rcases admitSequence_ok allocated with ⟨absent, -⟩ | ⟨p', given', prepared⟩
    · cases given.symm.trans absent
    · cases given.symm.trans given'
      obtain ⟨-, unfenced, m, bound, -, above, -⟩ := prepareDispatchTx_ok prepared
      exact absurd at_s.symm (cancelled.ne bound above unfenced)

/-- What was dispatched cannot be prepared for cancellation any more. -/
theorem Journal.Accepted.preparation_refused (accepted : j.Accepted s) (lease : Int) (requestID preparationID : String)
    {proposal : CancellationProposal} (at_s : proposal.proof.dispatchSequence = s) :
    ∃ err, prepareDispatchCancellation c j lease requestID preparationID proposal = .error err := by
  cases answer : prepareDispatchCancellation c j lease requestID preparationID proposal with
  | error err => exact ⟨err, rfl⟩
  | ok result =>
    obtain ⟨j', r⟩ := result
    obtain ⟨-, -, owned, unaccepted, -⟩ := prepareDispatchCancellation_ok answer
    obtain ⟨m, bound, -, -, -, -, range⟩ := checkCancellationOwnershipTx_eq_ok.1 owned
    obtain ⟨m', bound', retired | ⟨d, mem, same⟩⟩ := accepted
    · cases bound.symm.trans bound'
      have above := (range rfl).1
      omega
    · exact absurd (same.trans at_s.symm) ((checkNeverAcceptedDispatchTx_eq_ok.1 unaccepted).2.2 d mem).2

/-- What was dispatched has no record that a finalization could find. -/
theorem Journal.Accepted.finalization_refused (accepted : j.Accepted s) (inv : OrdinalInv c j) (lease : Int)
    {response : CancelledPayload} {proof : NativeDispatchProof} (given : response.proof = some proof)
    (at_s : proof.dispatchSequence = s) : ∃ err, finalizeDispatchCancellation c j lease response = .error err := by
  cases answer : finalizeDispatchCancellation c j lease response with
  | error err => exact ⟨err, rfl⟩
  | ok j' =>
    obtain ⟨-, proof', record, m, given', mem, -, valid, same, -⟩ := finalizeDispatchCancellation_ok answer
    cases given.symm.trans given'
    have recorded := (validCancellationPreparation_fields valid).1
    have proved : record.proposal.proof.dispatchSequence = proof.dispatchSequence :=
      NativeDispatchProof.same_sequence same
    exact absurd (recorded.trans (proved.trans at_s)) (inv.not_cancelled accepted mem)

/-- Whatever the run, no ordinal is executed at one point of it and recorded as
a cancellation at another; the records of a cancelled ordinal keep every later
admission out, and an executed one can no longer be prepared or finalized. -/
theorem cancellation_excludes_admission {trace : List JournalEvent} (run : Reached c trace j) :
    (∀ e ∈ trace, ∀ s, executedOrdinal e = some s →
      ∀ e' ∈ trace, ∀ r ∈ e'.after.cancellations, r.request.dispatchSequence ≠ s) ∧
    (∀ e ∈ trace, ∀ r, (e.output = .ok (.prepared r) ∨ r ∈ e.after.cancellations) → ∀ call p, call.dispatch = some p →
      p.dispatchSequence = r.request.dispatchSequence → ∃ err, admitDispatch c j call = .error err) ∧
    ∀ e ∈ trace, ∀ s, executedOrdinal e = some s →
      (∀ lease requestID preparationID proposal, proposal.proof.dispatchSequence = s →
        ∃ err, prepareDispatchCancellation c j lease requestID preparationID proposal = .error err) ∧
      ∀ lease response proof, response.proof = some proof → proof.dispatchSequence = s →
        ∃ err, finalizeDispatchCancellation c j lease response = .error err := by
  have exclusive := Exclusive.reached run
  refine ⟨exclusive.apart, fun e mem r recorded call p given at_s => ?_, fun e mem s ordinal => ?_⟩
  · obtain ⟨stored, record, same⟩ : ∃ stored ∈ e.after.cancellations, stored.request = r.request := by
      rcases recorded with output | record
      · obtain ⟨-, same⟩ := run.event mem
        rw [same] at output ⊢
        exact prepared_mem output
      · exact ⟨r, record, rfl⟩
    exact (exclusive.cancelled e mem stored record).admission_refused given (same ▸ at_s)
  · have accepted := exclusive.accepted e mem s ordinal
    refine ⟨fun lease requestID preparationID proposal at_s => ?_, fun lease response proof given at_s => ?_⟩
    · exact accepted.preparation_refused lease requestID preparationID at_s
    · exact accepted.finalization_refused (reached_inv run).ordinals lease given at_s

/-- The journal after the first stop was dispatched. -/
def sampleStopped : Journal := finalState (step sampleContext) Journal.initial (sampleStart ++ [.admission (sampleCall 1)])

/-- A run that dispatches the first stop. -/
theorem sample_executed : ∃ trace e out, Reached sampleContext trace sampleStopped ∧ e ∈ trace ∧
    executed e = some (sampleCall 1, out) ∧ out.sequence = 1 := by
  have done : (executed (Event.of (step sampleContext) (finalState (step sampleContext) Journal.initial sampleStart)
      (.admission (sampleCall 1)))).map (·.2.sequence) = some 1 := by decide +kernel
  obtain ⟨⟨call, out⟩, execution, first⟩ := Option.map_eq_some_iff.1 done
  obtain ⟨asked, -⟩ := executed_step execution
  cases asked
  exact ⟨_, _, out, Run.start.inputs (sampleStart ++ [.admission (sampleCall 1)]),
    mem_traceOf (step sampleContext) Journal.initial sampleStart _ [], execution, first⟩

/-- The dispatched stop can no longer be cancelled. -/
theorem cancellation_excludes_sample : ∃ trace j, Reached sampleContext trace j ∧
    ∃ err, prepareDispatchCancellation sampleContext j 1 (sampleID 5 1) (sampleID 6 1) (sampleProposal 1) = .error err := by
  obtain ⟨trace, e, out, run, mem, execution, -⟩ := sample_executed
  have ordinal : executedOrdinal e = some 1 := by
    rw [executedOrdinal, execution]
    rfl
  obtain ⟨-, -, uncancelled⟩ := cancellation_excludes_admission run
  exact ⟨trace, _, run, (uncancelled e mem 1 ordinal).1 1 (sampleID 5 1) (sampleID 6 1) (sampleProposal 1) rfl⟩

end Pagnet.SessionWorker
