import Pagnet.SessionWorker.Invariant

/-!
# Dispatch ordinals

Dispatches and cancellations share one range of ordinals. Between the floor and
the last ordinal every number belongs to a dispatch or to a tombstone; a
cancellation that is only prepared lies beyond the last ordinal, so the range
cannot close over it before the server has answered.
-/

namespace Pagnet.SessionWorker
open Json Table

/-- A dispatch row as admission writes it, with the intent it started. -/
structure DispatchRow.WellFormed (c : Context) (j : Journal) (m : DispatchMeta) (d : DispatchRow) : Prop where
  operation : 0 < d.operationSequence ∧ d.operationSequence < j.nextSequence
  state : d.state.ordinary
  kind : d.operationKind ≠ ""
  intent : ∀ row ∈ j.intents, row.sequence = d.operationSequence →
    row.commandID = d.commandID ∧ row.kind = d.operationKind
  ownership : d.proof.ownershipID = m.ownership.id
  generation : d.proof.ownershipGeneration = c.scope.generation
  ordinal : d.proof.dispatchSequence = d.dispatchSequence
  command : d.proof.sourceCommandID = d.commandID

variable {c : Context} {j : Journal} {m : DispatchMeta} {r : CancellationPreparation}

/-- Only the cursor, the intents and the ownership matter to a row. -/
theorem DispatchRow.WellFormed.of_same {j' : Journal} {m' : DispatchMeta} {d : DispatchRow}
    (wf : d.WellFormed c j m) (cursor : j'.nextSequence = j.nextSequence) (intents : j'.intents = j.intents)
    (ownership : m'.ownership = m.ownership) : d.WellFormed c j' m' :=
  ⟨cursor ▸ wf.operation, wf.state, wf.kind, intents ▸ wf.intent, ownership ▸ wf.ownership, wf.generation,
    wf.ordinal, wf.command⟩

/-- The ordinals of a bound journal. -/
structure Ordinals (c : Context) (j : Journal) (m : DispatchMeta) : Prop where
  scope : m.ownership.instanceID = c.scope.instanceID ∧ m.ownership.ownershipGeneration = c.scope.generation ∧
    m.ownership.state = "active"
  floor : 0 ≤ m.retired
  order : m.retired ≤ m.lastSequence
  cover : ∀ s, m.retired < s → s ≤ m.lastSequence →
    (∃ d ∈ j.dispatches, d.dispatchSequence = s) ∨ finalizedAt j.cancellations s
  range : ∀ d ∈ j.dispatches, m.retired < d.dispatchSequence ∧ d.dispatchSequence ≤ m.lastSequence
  rows : ∀ d ∈ j.dispatches, d.WellFormed c j m
  above : ∀ r ∈ j.cancellations, m.retired < r.request.dispatchSequence
  prepared : ∀ r ∈ j.cancellations, r.state = .prepared → m.lastSequence < r.request.dispatchSequence
  records : ∀ r ∈ j.cancellations, r.request.dispatchSequence = r.proposal.proof.dispatchSequence ∧
    r.request.sourceCommandID = r.proposal.proof.sourceCommandID ∧ r.proposal.proof.ownershipID = m.ownership.id
  apart : ∀ d ∈ j.dispatches, ∀ r ∈ j.cancellations,
    d.dispatchSequence ≠ r.request.dispatchSequence ∧ d.commandID ≠ r.request.sourceCommandID
  unaccepted : ∀ row ∈ j.intents, ∀ r ∈ j.cancellations, row.commandID ≠ r.request.sourceCommandID

/-- Without an ownership there are no ordinals. -/
structure OrdinalInv (c : Context) (j : Journal) : Prop where
  unbound : j.dispatchMeta = none → (∀ d, d ∉ j.dispatches) ∧ ∀ r, r ∉ j.cancellations
  bound : ∀ m, j.dispatchMeta = some m → Ordinals c j m

theorem OrdinalInv.initial (c : Context) : OrdinalInv c Journal.initial where
  unbound := fun _ => ⟨not_mem_empty, not_mem_empty⟩
  bound := by
    intro m absurd_
    cases absurd_

/-- What the columns of a valid record repeat. -/
theorem validCancellationPreparation_fields (valid : validCancellationPreparation c r) :
    r.request.dispatchSequence = r.proposal.proof.dispatchSequence ∧
      r.request.sourceCommandID = r.proposal.proof.sourceCommandID := by
  simp only [validCancellationPreparation, Bool.and_eq_true, beq_iff_eq] at valid
  exact ⟨valid.1.1.2, valid.1.2⟩

/-- The ordinals that finalized records let pass. -/
theorem advanceFinalizedDispatchesTx_spec (j : Journal) (m : DispatchMeta) :
    m.lastSequence ≤ (advanceFinalizedDispatchesTx j m).lastSequence ∧
      ∀ s, m.lastSequence < s → s ≤ (advanceFinalizedDispatchesTx j m).lastSequence →
        finalizedAt j.cancellations s :=
  ⟨le_climb _ _ _, fun _ above below => climb_passed above below⟩

/-- The loop stops only where the next ordinal has no tombstone. -/
theorem advanceFinalizedDispatchesTx_stops (j : Journal) (m : DispatchMeta) :
    finalizedAt j.cancellations ((advanceFinalizedDispatchesTx j m).lastSequence + 1) = false := by
  refine climb_table (fun s passed => ?_) m.lastSequence
  obtain ⟨r, mem, at_s, -⟩ := finalizedAt_eq_true.1 passed
  exact mem_keys.2 ⟨r, mem, at_s⟩

/-- A prepared record stops the loop. -/
theorem lt_advanceFinalizedDispatchesTx
    (mem : r ∈ j.cancellations) (prepared : r.state = .prepared) (beyond : m.lastSequence < r.request.dispatchSequence) :
    (advanceFinalizedDispatchesTx j m).lastSequence < r.request.dispatchSequence := by
  by_contra passed
  have finalized := (advanceFinalizedDispatchesTx_spec j m).2 _ beyond (not_lt.1 passed)
  obtain ⟨other, found, same, state⟩ := finalizedAt_eq_true.1 finalized
  obtain rfl := eq_of_key found mem same
  rw [prepared] at state
  cases state

/-- Every intent of the later journal was there before, or is new and not of a cancelled command. -/
def Journal.Admits (j j' : Journal) : Prop := ∀ row ∈ j'.intents,
  (∃ old ∈ j.intents, old.sequence = row.sequence ∧ old.commandID = row.commandID ∧ old.kind = row.kind) ∨
  (j.nextSequence ≤ row.sequence ∧ ∀ r ∈ j.cancellations, row.commandID ≠ r.request.sourceCommandID)

namespace Ordinals

variable {c : Context} {j j' : Journal} {m : DispatchMeta}

/-- Updates of states and outcomes, new intents without a dispatch and pruned
intents leave the ordinals alone. -/
theorem of_intents (inv : Ordinals c j m) {f : DispatchRow → DispatchRow}
    (keeps : ∀ d, (f d).dispatchSequence = d.dispatchSequence) (dispatches : j'.dispatches = j.dispatches.modify f keeps)
    (cancellations : j'.cancellations = j.cancellations) (cursor : j.nextSequence ≤ j'.nextSequence)
    (relabel : ∀ d ∈ j.dispatches, ∃ state, state.ordinary ∧ f d = { d with state })
    (intents : j.Admits j') : Ordinals c j' m where
  scope := inv.scope
  floor := inv.floor
  order := inv.order
  cover := by
    intro s above below
    rw [cancellations]
    rcases inv.cover s above below with ⟨d, mem, rfl⟩ | finalized
    · left
      rw [dispatches]
      exact ⟨f d, mem_modify.2 ⟨d, mem, rfl⟩, keeps d⟩
    · exact .inr finalized
  range := by
    rw [dispatches]
    intro d mem
    obtain ⟨old, found, rfl⟩ := mem_modify.1 mem
    rw [keeps]
    exact inv.range old found
  rows := by
    rw [dispatches]
    intro d mem
    obtain ⟨old, found, rfl⟩ := mem_modify.1 mem
    obtain ⟨state, ordinary, relabelled⟩ := relabel old found
    have wf := inv.rows old found
    rw [relabelled]
    refine ⟨⟨wf.operation.1, wf.operation.2.trans_le cursor⟩, ordinary, wf.kind, ?_, wf.ownership, wf.generation,
      wf.ordinal, wf.command⟩
    intro row mem same
    have operation : old.operationSequence < j.nextSequence := wf.operation.2
    change row.sequence = old.operationSequence at same
    rcases intents row mem with ⟨before, found, sequence_eq, command_eq, kind_eq⟩ | ⟨new, -⟩
    · rw [← command_eq, ← kind_eq]
      exact wf.intent before found (sequence_eq.trans same)
    · omega
  above := cancellations ▸ inv.above
  prepared := cancellations ▸ inv.prepared
  records := cancellations ▸ inv.records
  apart := by
    rw [dispatches, cancellations]
    intro d mem r cancelled
    obtain ⟨old, found, rfl⟩ := mem_modify.1 mem
    obtain ⟨state, -, relabelled⟩ := relabel old found
    rw [relabelled]
    exact inv.apart old found r cancelled
  unaccepted := by
    rw [cancellations]
    intro row mem r cancelled
    rcases intents row mem with ⟨old, found, -, command_eq, -⟩ | ⟨-, unfenced⟩
    · rw [← command_eq]
      exact inv.unaccepted old found r cancelled
    · exact unfenced r cancelled

variable {p : NativeDispatchProof} {preparationID : String} {r : CancellationPreparation} {call : AdmitCall}
    {rows : Table DispatchRow DispatchRow.dispatchSequence}

/-- An ordinal in use has a dispatch or a cancellation, so a new preparation lies beyond the last. -/
theorem beyond_last (inv : Ordinals c j m) (above : m.retired < p.dispatchSequence)
    (undispatched : ∀ d ∈ j.dispatches, d.dispatchSequence ≠ p.dispatchSequence) (unfenced : fenced j p = false) :
    m.lastSequence < p.dispatchSequence := by
  by_contra inside
  rcases inv.cover _ above (not_lt.1 inside) with ⟨d, mem, same⟩ | finalized
  · exact undispatched d mem same
  · obtain ⟨r, mem, same, -⟩ := finalizedAt_eq_true.1 finalized
    exact (fenced_eq_false.1 unfenced r mem).1 same

theorem prepare (inv : Ordinals c j m) (bound : j.dispatchMeta = some m) {requestID : String}
    {proposal : CancellationProposal} {rows : Table CancellationPreparation fun r => r.request.dispatchSequence}
    (owned : checkCancellationOwnershipTx c j proposal.proof true = .ok ())
    (accepted : checkNeverAcceptedDispatchTx j proposal.proof = .ok ()) (unfenced : fenced j proposal.proof = false)
    (inserted : j.cancellations.insert (newPreparation requestID preparationID proposal).stored = some rows) :
    Ordinals c { j with cancellations := rows } m := by
  obtain ⟨-, members, -⟩ := insert_eq_some inserted
  obtain ⟨m', bound', ownership, -, -, -, range⟩ := checkCancellationOwnershipTx_eq_ok.1 owned
  obtain rfl : m' = m := Option.some.inj (bound'.symm.trans bound)
  obtain ⟨commands, -, undispatched⟩ := checkNeverAcceptedDispatchTx_eq_ok.1 accepted
  have above := (range rfl).1
  have beyond := inv.beyond_last above (fun d mem => (undispatched d mem).2) unfenced
  refine ⟨inv.scope, inv.floor, inv.order, ?_, inv.range, fun d mem => (inv.rows d mem).of_same rfl rfl rfl,
    ?_, ?_, ?_, ?_, ?_⟩
  · intro s low high
    rcases inv.cover s low high with dispatched | finalized
    · exact .inl dispatched
    · obtain ⟨r, mem, same⟩ := finalizedAt_eq_true.1 finalized
      exact .inr (finalizedAt_eq_true.2 ⟨r, (members r).2 (.inr mem), same⟩)
  · intro r mem
    rcases (members r).1 mem with rfl | old
    · exact above
    · exact inv.above r old
  · intro r mem state
    rcases (members r).1 mem with rfl | old
    · exact beyond
    · exact inv.prepared r old state
  · intro r mem
    rcases (members r).1 mem with rfl | old
    · exact ⟨rfl, rfl, ownership.symm⟩
    · exact inv.records r old
  · intro d mem r cancelled
    rcases (members r).1 cancelled with rfl | old
    · exact ⟨(undispatched d mem).2, (undispatched d mem).1⟩
    · exact inv.apart d mem r old
  · intro row mem r cancelled
    rcases (members r).1 cancelled with rfl | old
    · exact commands row mem
    · exact inv.unaccepted row mem r old

/-- Finalizing touches the state column only. -/
theorem finalizeRow_request (preparationID : String) (r : CancellationPreparation) :
    (finalizeRow preparationID r).request = r.request ∧ (finalizeRow preparationID r).proposal = r.proposal := by
  unfold finalizeRow
  split <;> exact ⟨rfl, rfl⟩

theorem finalizeRow_prepared (state : (finalizeRow preparationID r).state = .prepared) : r.state = .prepared := by
  unfold finalizeRow at state
  split at state
  · cases state
  · exact state

theorem finalizeRow_finalized (state : r.state = .finalized) : (finalizeRow preparationID r).state = .finalized := by
  unfold finalizeRow
  split
  · rfl
  · exact state

theorem mem_recordFinalized :
    r ∈ (recordFinalized j preparationID m).cancellations ↔ ∃ old ∈ j.cancellations, finalizeRow preparationID old = r :=
  List.mem_map

theorem finalize (inv : Ordinals c j m) (preparationID : String) :
    ∃ m', (recordFinalized j preparationID m).dispatchMeta = some m' ∧ m'.retired = m.retired ∧
      m'.ownership = m.ownership ∧ m.lastSequence ≤ m'.lastSequence ∧
      Ordinals c (recordFinalized j preparationID m) m' := by
  have spec := advanceFinalizedDispatchesTx_spec (recordFinalized j preparationID m) m
  refine ⟨_, rfl, rfl, rfl, spec.1, inv.scope, inv.floor, inv.order.trans spec.1, ?_, ?_, ?_, ?_, ?_, ?_, ?_, ?_⟩
  · intro s low high
    by_cases old : s ≤ m.lastSequence
    · rcases inv.cover s low old with dispatched | finalized
      · exact .inl dispatched
      · obtain ⟨r, mem, same, state⟩ := finalizedAt_eq_true.1 finalized
        exact .inr (finalizedAt_eq_true.2 ⟨_, mem_recordFinalized.2 ⟨r, mem, rfl⟩,
          (finalizeRow_key preparationID r).trans same, finalizeRow_finalized state⟩)
    · exact .inr (spec.2 s (not_le.1 old) high)
  · intro d mem
    exact ⟨(inv.range d mem).1, (inv.range d mem).2.trans spec.1⟩
  · intro d mem
    exact (inv.rows d mem).of_same rfl rfl rfl
  · intro r mem
    obtain ⟨old, found, rfl⟩ := mem_recordFinalized.1 mem
    rw [finalizeRow_key]
    exact inv.above old found
  · intro r mem state
    refine lt_advanceFinalizedDispatchesTx mem state ?_
    obtain ⟨old, found, rfl⟩ := mem_recordFinalized.1 mem
    rw [finalizeRow_key]
    exact inv.prepared old found (finalizeRow_prepared state)
  · intro r mem
    obtain ⟨old, found, rfl⟩ := mem_recordFinalized.1 mem
    rw [(finalizeRow_request preparationID old).1, (finalizeRow_request preparationID old).2]
    exact inv.records old found
  · intro d mem r cancelled
    obtain ⟨old, found, rfl⟩ := mem_recordFinalized.1 cancelled
    rw [(finalizeRow_request preparationID old).1]
    exact inv.apart d mem old found
  · intro row mem r cancelled
    obtain ⟨old, found, rfl⟩ := mem_recordFinalized.1 cancelled
    rw [(finalizeRow_request preparationID old).1]
    exact inv.unaccepted row mem old found

theorem retire (inv : Ordinals c j m) {floor : Int} (low : m.retired ≤ floor) (high : floor ≤ m.lastSequence)
    (finalized : ∀ r ∈ j.cancellations, r.request.dispatchSequence ≤ floor → r.state = .finalized) :
    Ordinals c { dropDispatches j m floor with cancellations := j.cancellations.filter (retained floor) }
      { m with retired := floor } := by
  -- what is kept lies above the new floor
  have kept : ∀ r, r ∈ j.cancellations.filter (retained floor) → r ∈ j.cancellations ∧ floor < r.request.dispatchSequence := by
    intro r mem
    obtain ⟨old, keep⟩ := mem_filter.1 mem
    refine ⟨old, ?_⟩
    by_contra below
    simp [retained, not_lt.1 below, finalized r old (not_lt.1 below)] at keep
  have dispatched : ∀ d, d ∈ j.dispatches.filter (fun d => floor < d.dispatchSequence) →
      d ∈ j.dispatches ∧ floor < d.dispatchSequence := by
    intro d mem
    obtain ⟨old, keep⟩ := mem_filter.1 mem
    exact ⟨old, of_decide_eq_true keep⟩
  have floor_nonneg := inv.floor
  refine ⟨inv.scope, ?_, high, ?_, ?_, ?_, ?_, ?_, ?_, ?_, ?_⟩
  · change 0 ≤ floor
    omega
  · intro s above below
    change floor < s at above
    rcases inv.cover s (by omega) below with ⟨d, mem, rfl⟩ | tombstone
    · exact .inl ⟨d, mem_filter.2 ⟨mem, decide_eq_true above⟩, rfl⟩
    · obtain ⟨r, mem, rfl, state⟩ := finalizedAt_eq_true.1 tombstone
      refine .inr (finalizedAt_eq_true.2 ⟨r, mem_filter.2 ⟨mem, ?_⟩, rfl, state⟩)
      simp [retained, above]
  · intro d mem
    obtain ⟨old, above⟩ := dispatched d mem
    exact ⟨above, (inv.range d old).2⟩
  · intro d mem
    exact (inv.rows d (dispatched d mem).1).of_same rfl rfl rfl
  · intro r mem
    exact (kept r mem).2
  · intro r mem state
    exact inv.prepared r (kept r mem).1 state
  · intro r mem
    exact inv.records r (kept r mem).1
  · intro d mem r cancelled
    exact inv.apart d (dispatched d mem).1 r (kept r cancelled).1
  · intro row mem r cancelled
    exact inv.unaccepted row mem r (kept r cancelled).1

/-- The row of a dispatch once its intent is in the journal. -/
def admittedRow (call : AdmitCall) (sequence : Int) (p : NativeDispatchProof) : DispatchRow :=
  { newDispatchRow sequence call.commandID p with operationKind := call.kind }

/-- Writing the kind of a new operation changes its own row only. -/
theorem mem_kinded (inv : Ordinals c j m)
    (inserted : j.dispatches.insert (newDispatchRow j.nextSequence call.commandID p) = some rows) {d : DispatchRow} :
    d ∈ rows.modify (setKind j.nextSequence call.kind) (setKind_key j.nextSequence call.kind) ↔
      d = admittedRow call j.nextSequence p ∨ d ∈ j.dispatches := by
  obtain ⟨-, members, -⟩ := insert_eq_some inserted
  have new : setKind j.nextSequence call.kind (newDispatchRow j.nextSequence call.commandID p) =
      admittedRow call j.nextSequence p := by
    simp [setKind, newDispatchRow, admittedRow]
  have old : ∀ d ∈ j.dispatches, setKind j.nextSequence call.kind d = d := by
    intro d mem
    have operation := (inv.rows d mem).operation.2
    simp [setKind, ne_of_lt operation]
  rw [mem_modify]
  constructor
  · rintro ⟨before, mem, rfl⟩
    rcases (members before).1 mem with rfl | mem
    · exact .inl new
    · rw [old before mem]
      exact .inr mem
  · rintro (rfl | mem)
    · exact ⟨_, (members _).2 (.inl rfl), new⟩
    · exact ⟨d, (members d).2 (.inr mem), old d mem⟩

theorem dispatch (inv : Ordinals c j m) (intentInv : IntentInv j) {digest : String} (named : call.kind ≠ "")
    (valid : validDispatchProof c call.commandID p) (unfenced : fenced j p = false)
    (owned : m.ownership.id = p.ownershipID) (next_eq : p.dispatchSequence = m.lastSequence + 1)
    (inserted : j.dispatches.insert (newDispatchRow j.nextSequence call.commandID p) = some rows)
    (dispatches : j'.dispatches =
      rows.modify (setKind j.nextSequence call.kind) (setKind_key j.nextSequence call.kind))
    (cancellations : j'.cancellations = j.cancellations) (cursor : j'.nextSequence = j.nextSequence + 1)
    (intents : ∀ row ∈ j'.intents, row = newIntentRow call j.nextSequence digest ∨ row ∈ j.intents) :
    Ordinals c j' (advanceFinalizedDispatchesTx j { m with lastSequence := p.dispatchSequence }) := by
  have spec := advanceFinalizedDispatchesTx_spec j { m with lastSequence := p.dispatchSequence }
  have order := inv.order
  have positive : 0 < j.nextSequence := intentInv.floor.trans_lt intentInv.below
  simp only [validDispatchProof, Bool.and_eq_true, beq_iff_eq] at valid
  obtain ⟨⟨⟨⟨generation, -⟩, command⟩, -⟩, -⟩ := valid
  change p.dispatchSequence ≤ _ ∧ (∀ s, p.dispatchSequence < s → _) at spec
  refine ⟨inv.scope, inv.floor, ?_, ?_, ?_, ?_, ?_, ?_, ?_, ?_, ?_⟩
  · change m.retired ≤ _
    omega
  · intro s low high
    rw [dispatches, cancellations]
    by_cases old : s ≤ m.lastSequence
    · rcases inv.cover s low old with ⟨d, mem, at_s⟩ | finalized
      · exact .inl ⟨d, (inv.mem_kinded inserted).2 (.inr mem), at_s⟩
      · exact .inr finalized
    · by_cases new : s = p.dispatchSequence
      · exact .inl ⟨_, (inv.mem_kinded inserted).2 (.inl rfl), new.symm⟩
      · exact .inr (spec.2 s (by omega) high)
  · rw [dispatches]
    intro d mem
    rcases (inv.mem_kinded inserted).1 mem with rfl | old
    · exact ⟨by change m.retired < p.dispatchSequence; omega, spec.1⟩
    · have := inv.range d old
      exact ⟨this.1, by omega⟩
  · rw [dispatches]
    intro d mem
    rcases (inv.mem_kinded inserted).1 mem with rfl | old
    · refine ⟨⟨positive, ?_⟩, by simp [admittedRow, newDispatchRow, IntentState.ordinary], named, ?_, owned.symm,
        generation, rfl, command⟩
      · change j.nextSequence < j'.nextSequence
        omega
      · intro row mem same
        rcases intents row mem with rfl | old
        · exact ⟨rfl, rfl⟩
        · have := intentInv.cursor_fresh row old
          change row.sequence = j.nextSequence at same
          omega
    · obtain ⟨operation, state, kind, intent, ownership, generation', ordinal, command'⟩ := inv.rows d old
      refine ⟨⟨operation.1, by omega⟩, state, kind, ?_, ownership, generation', ordinal, command'⟩
      intro row mem same
      rcases intents row mem with rfl | before
      · change j.nextSequence = d.operationSequence at same
        omega
      · exact intent row before same
  · exact cancellations ▸ inv.above
  · rw [cancellations]
    intro r mem state
    have ne := (fenced_eq_false.1 unfenced r mem).1
    have beyond := inv.prepared r mem state
    exact lt_advanceFinalizedDispatchesTx mem state (by change p.dispatchSequence < _; omega)
  · exact cancellations ▸ inv.records
  · rw [dispatches, cancellations]
    intro d mem r cancelled
    rcases (inv.mem_kinded inserted).1 mem with rfl | old
    · have apart := fenced_eq_false.1 unfenced r cancelled
      exact ⟨Ne.symm apart.1, fun same => apart.2 (same.symm.trans command.symm)⟩
    · exact inv.apart d old r cancelled
  · rw [cancellations]
    intro row mem r cancelled
    rcases intents row mem with rfl | old
    · have apart := fenced_eq_false.1 unfenced r cancelled
      exact fun same => apart.2 (same.symm.trans command.symm)
    · exact inv.unaccepted row old r cancelled

end Ordinals

namespace OrdinalInv

variable {c : Context} {j j' : Journal}

section

variable (inv : OrdinalInv c j)
include inv

/-- See `Ordinals.of_intents`. -/
theorem of_intents {f : DispatchRow → DispatchRow}
    (keeps : ∀ d, (f d).dispatchSequence = d.dispatchSequence) (dispatches : j'.dispatches = j.dispatches.modify f keeps)
    (bound : j'.dispatchMeta = j.dispatchMeta) (cancellations : j'.cancellations = j.cancellations)
    (cursor : j.nextSequence ≤ j'.nextSequence)
    (relabel : ∀ d ∈ j.dispatches, ∃ state, state.ordinary ∧ f d = { d with state })
    (intents : j.Admits j') : OrdinalInv c j' where
  unbound := by
    intro absent
    rw [dispatches, cancellations]
    obtain ⟨empty, unfenced⟩ := inv.unbound (bound ▸ absent)
    refine ⟨fun d mem => ?_, unfenced⟩
    obtain ⟨old, found, -⟩ := mem_modify.1 mem
    exact empty old found
  bound := by
    intro m present
    exact (inv.bound m (bound ▸ present)).of_intents keeps dispatches cancellations cursor relabel intents

/-- Every dispatch of a journal that keeps the invariant has an ordinary state. -/
theorem rows {d : DispatchRow} (mem : d ∈ j.dispatches) : ∃ m, j.dispatchMeta = some m ∧ d.WellFormed c j m := by
  cases bound : j.dispatchMeta with
  | none => exact absurd mem ((inv.unbound bound).1 d)
  | some m => exact ⟨m, rfl, (inv.bound m bound).rows d mem⟩

/-- Operations that only touch intents, and rewrite no dispatch. -/
theorem of_same (dispatches : j'.dispatches = j.dispatches)
    (bound : j'.dispatchMeta = j.dispatchMeta) (cancellations : j'.cancellations = j.cancellations)
    (cursor : j.nextSequence ≤ j'.nextSequence) (intents : j.Admits j') : OrdinalInv c j' := by
  refine inv.of_intents (f := id) (fun _ => rfl) ?_ bound cancellations cursor ?_ intents
  · exact dispatches.trans (modify_eq_self fun _ _ => rfl).symm
  · intro d mem
    obtain ⟨m, -, wf⟩ := inv.rows mem
    exact ⟨d.state, wf.state, rfl⟩

/-- What an admission writes: nothing for a row that is there, as a retained dispatch lies below the cursor and no row
is at it; an intent at the cursor; or a dispatch with its intent. -/
theorem admitted {call : AdmitCall} {out : Outcome} {execute : Bool} (intentInv : IntentInv j)
    (h : admitDispatch c j call = .ok (j', out, execute)) : j' = j ∨ ∃ digest admission, call.kind ≠ "" ∧
      (call.dispatch = none ∧ recordIntent j call j.nextSequence digest admission = .ok j' ∨
        ∃ p m rows, call.dispatch = some p ∧ j.dispatchMeta = some m ∧ validDispatchProof c call.commandID p ∧
          fenced j p = false ∧ m.ownership.id = p.ownershipID ∧ p.dispatchSequence = m.lastSequence + 1 ∧
          j.dispatches.count + j.cancellations.count < maxCommands ∧
          j.dispatches.insert (newDispatchRow j.nextSequence call.commandID p) = some rows ∧
          recordIntent { j with
            dispatches := rows
            dispatchMeta := some (advanceFinalizedDispatchesTx j { m with lastSequence := p.dispatchSequence }) }
            call j.nextSequence digest admission = .ok j') := by
  obtain ⟨bounds, -, payload, j₁, sequence, fresh, -, allocated, -, outcome⟩ := admitDispatch_ok h
  simp only [validCall, Bool.and_eq_true, bne_iff_ne] at bounds
  obtain ⟨⟨⟨⟨-, named⟩, -⟩, -⟩, -⟩ := bounds
  rcases admitSequence_ok allocated with ⟨absent, rfl, -, -⟩ | ⟨p, given, prepared⟩
  · rcases outcome with ⟨-, rfl, -⟩ | ⟨-, new⟩
    · exact .inl rfl
    · obtain ⟨rfl, -, -, -, admission, -, recorded, -⟩ := admitNew_ok new
      exact .inr ⟨_, _, named, .inl ⟨absent, recorded⟩⟩
  · obtain ⟨valid, unfenced, m, bound, owned, -, found⟩ := prepareDispatchTx_ok prepared
    rcases found with ⟨d, found, -, -, rfl, rfl, -⟩ | ⟨next_eq, -, room, rfl, -, rows, inserted, rfl⟩
    · rcases outcome with ⟨-, rfl, -⟩ | ⟨-, new⟩
      · exact .inl rfl
      · obtain ⟨at_cursor, -⟩ := admitNew_ok new
        have operation := ((inv.bound m bound).rows d (find?_eq_some.1 found).1).operation.2
        omega
    · rcases outcome with ⟨-, -, row, found, -⟩ | ⟨-, new⟩
      · obtain ⟨mem, at_cursor⟩ := find?_eq_some.1 found
        have := intentInv.cursor_fresh row mem
        omega
      · obtain ⟨-, -, -, -, admission, -, recorded, -⟩ := admitNew_ok new
        exact .inr ⟨_, _, named, .inr ⟨p, m, rows, given, bound, valid, unfenced, owned, next_eq, room, inserted, recorded⟩⟩

theorem admitDispatch {call : AdmitCall} {out : Outcome} {execute : Bool}
    (intentInv : IntentInv j) (h : admitDispatch c j call = .ok (j', out, execute)) : OrdinalInv c j' := by
  rcases inv.admitted intentInv h with rfl | ⟨digest, admission, named, ⟨absent, recorded⟩ |
    ⟨p, m, rows, given, bound, valid, unfenced, owned, next_eq, -, inserted, recorded⟩⟩
  · exact inv
  · obtain ⟨unfenced, reservations, intents, viewCommits, admissions, -, inserted, -, rfl⟩ := recordIntent_ok recorded
    obtain ⟨-, members, -⟩ := insert_eq_some inserted
    refine inv.of_same (by simp [kindedDispatches, absent]) rfl rfl (Int.le_add_one le_rfl) fun row mem => ?_
    rcases (members row).1 mem with rfl | old
    · exact .inr ⟨le_rfl, fun r cancelled => (unfenced r cancelled).symm⟩
    · exact .inl ⟨row, old, rfl, rfl, rfl⟩
  · obtain ⟨-, reservations, intents, viewCommits, admissions, -, stored, -, rfl⟩ := recordIntent_ok recorded
    obtain ⟨-, members, -⟩ := insert_eq_some stored
    refine ⟨nofun, fun m' present => ?_⟩
    cases present
    refine (inv.bound m bound).dispatch intentInv named valid unfenced owned next_eq inserted ?_ rfl rfl
      fun row mem => (members row).1 mem
    simp [kindedDispatches, given]

end

variable {sequence lease : Int}

section

variable (inv : OrdinalInv c j)
include inv

theorem settle {state : String} {result : Text} (h : settle j sequence state result = .ok j') : OrdinalInv c j' := by
  obtain ⟨terminal, known, -, -, rfl | ⟨-, rfl⟩⟩ := settle_ok h
  · refine inv.of_intents (settleDispatch_key sequence terminal) rfl rfl rfl le_rfl ?_ ?_
    · intro d mem
      obtain ⟨m, -, wf⟩ := inv.rows mem
      unfold settleDispatch
      split
      · refine ⟨terminal, ?_, rfl⟩
        rcases terminalState_eq_some known with rfl | rfl | rfl <;> simp [IntentState.ordinary]
      · exact ⟨d.state, wf.state, rfl⟩
    · intro row mem
      obtain ⟨old, found, rfl⟩ := List.mem_map.1 mem
      left
      unfold settleRow
      split <;> exact ⟨old, found, rfl, rfl, rfl⟩
  · exact inv.of_same rfl rfl rfl le_rfl fun row mem => .inl ⟨row, mem, rfl, rfl, rfl⟩

theorem acknowledge (h : acknowledge j lease sequence = .ok j') : OrdinalInv c j' := by
  obtain ⟨-, rfl | rfl⟩ := acknowledge_ok h
  · exact inv
  · refine inv.of_same rfl rfl rfl le_rfl fun row mem => .inl ?_
    obtain ⟨kept, -⟩ := mem_filter.1 mem
    obtain ⟨old, found, rfl⟩ := List.mem_map.1 kept
    unfold acknowledgeRow
    split <;> exact ⟨old, found, rfl, rfl, rfl⟩

/-- Rows of this development carry their kind, so an open recovers none. -/
theorem recoverKind_eq_self : j.dispatches.modify (recoverKind j) (recoverKind_key j) = j.dispatches := by
  refine modify_eq_self fun d mem => ?_
  obtain ⟨m, -, wf⟩ := inv.rows mem
  unfold recoverKind
  split
  · simp [wf.kind]
  · rfl

theorem reopen (h : reopen c j = .ok j') : OrdinalInv c j' := by
  obtain rfl := reopen_ok h
  rw [inv.recoverKind_eq_self]
  refine inv.of_intents (uncertainDispatch_key j) rfl rfl rfl le_rfl ?_ ?_
  · intro d mem
    obtain ⟨m, -, wf⟩ := inv.rows mem
    unfold uncertainDispatch
    split
    · exact ⟨.uncertain, by simp [IntentState.ordinary], rfl⟩
    · exact ⟨d.state, wf.state, rfl⟩
  · intro row mem
    obtain ⟨old, found, rfl⟩ := List.mem_map.1 mem
    left
    unfold uncertainRow
    split <;> exact ⟨old, found, rfl, rfl, rfl⟩

theorem bindDispatchOwnership {o : NativeWorkerOwnership} {runtime profileFingerprint : String}
    (h : bindDispatchOwnership c j lease o runtime profileFingerprint = .ok j') : OrdinalInv c j' := by
  obtain ⟨-, rfl | ⟨absent, instance_eq, generation_eq, active, rfl⟩⟩ := bindDispatchOwnership_ok h
  · exact inv
  · obtain ⟨empty, unfenced⟩ := inv.unbound absent
    constructor
    · intro absurd_
      cases absurd_
    · intro m present
      cases present
      refine ⟨⟨instance_eq, generation_eq, active⟩, le_rfl, le_rfl, ?_, fun d mem => absurd mem (empty d),
        fun d mem => absurd mem (empty d), fun r mem => absurd mem (unfenced r), fun r mem => absurd mem (unfenced r),
        fun r mem => absurd mem (unfenced r), fun d mem => absurd mem (empty d),
        fun row _ r mem => absurd mem (unfenced r)⟩
      intro s above below
      change (0 : Int) < s at above
      change s ≤ (0 : Int) at below
      omega

theorem prepareDispatchCancellation {requestID preparationID : String} {proposal : CancellationProposal}
    {r : CancellationPreparation}
    (h : prepareDispatchCancellation c j lease requestID preparationID proposal = .ok (j', r)) : OrdinalInv c j' := by
  obtain ⟨-, -, owned, accepted, ⟨rfl, -, -⟩ | ⟨unfenced, rfl, -, -, rows, inserted, rfl⟩⟩ :=
    prepareDispatchCancellation_ok h
  · exact inv
  · obtain ⟨m, bound, -⟩ := checkCancellationOwnershipTx_eq_ok.1 owned
    constructor
    · intro absent
      cases bound.symm.trans absent
    · intro m' present
      cases bound.symm.trans present
      exact (inv.bound m bound).prepare bound owned accepted unfenced inserted

theorem finalizeDispatchCancellation {response : CancelledPayload}
    (h : finalizeDispatchCancellation c j lease response = .ok j') : OrdinalInv c j' := by
  obtain ⟨-, proof, record, m, -, -, -, -, -, -, bound, rfl⟩ := finalizeDispatchCancellation_ok h
  obtain ⟨m', advanced, -, -, -, ordinals⟩ := (inv.bound m bound).finalize response.preparationID
  constructor
  · intro absent
    cases advanced.symm.trans absent
  · intro m'' present
    cases advanced.symm.trans present
    exact ordinals

theorem retireDispatches {floor : Int} (h : retireDispatches j lease floor = .ok j') : OrdinalInv c j' := by
  obtain ⟨-, m, bound, low, high, -, finalized, rfl⟩ := retireDispatches_ok h
  constructor
  · intro absent
    cases absent
  · intro m' present
    cases present
    exact (inv.bound m bound).retire low high finalized

theorem apply {op : Op} {reply : Reply} (intentInv : IntentInv j)
    (h : apply c j op = .ok (j', reply)) : OrdinalInv c j' := by
  cases apply_applied h with
  | advanceLease advanced =>
    obtain rfl := advanceLease_ok advanced
    exact inv.of_same rfl rfl rfl le_rfl fun row mem => .inl ⟨row, mem, rfl, rfl, rfl⟩
  | bindOwnership bound =>
    exact inv.bindDispatchOwnership bound
  | admission admitted =>
    exact inv.admitDispatch intentInv admitted
  | settle settled =>
    exact inv.settle settled
  | acknowledge acknowledged =>
    exact inv.acknowledge acknowledged
  | prepareCancellation prepared =>
    exact inv.prepareDispatchCancellation prepared
  | finalizeCancellation finalized =>
    exact inv.finalizeDispatchCancellation finalized
  | retireDispatches retired =>
    exact inv.retireDispatches retired
  | reopen opened =>
    exact inv.reopen opened

end

end OrdinalInv

/-- Both invariants of a journal. -/
structure Inv (c : Context) (j : Journal) : Prop where
  intents : IntentInv j
  ordinals : OrdinalInv c j

theorem Inv.initial (c : Context) : Inv c Journal.initial := ⟨IntentInv.initial, OrdinalInv.initial c⟩

theorem Inv.step {c : Context} {j : Journal} (op : Op) (inv : Inv c j) : Inv c (step c j op).1 :=
  step_keeps inv fun _ _ accepted => ⟨inv.intents.apply accepted, inv.ordinals.apply inv.intents accepted⟩

/-- Both invariants hold in every state that a worker reaches. -/
theorem reached_inv {trace : List (Event Journal Op (Except Error Reply))} (run : Reached c trace j) : Inv c j :=
  run.invariant (Inv.initial c) fun _ op inv => inv.step op

end Pagnet.SessionWorker
