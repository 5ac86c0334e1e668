import Pagnet.SessionWorker.Ordinals

/-!
# What a step keeps

No operation forgets anything above the floors. The cursor, the last ordinal and
both floors only rise; an intent above the floor keeps its identity, its
admission and, once settled, its outcome; a dispatch or a cancellation above the
dispatch floor keeps its ordinal.
-/

namespace Pagnet.SessionWorker
open Json Table

/-- The later row of one intent: the same identity, and the outcome it was settled with. -/
structure IntentRow.Continues (row row' : IntentRow) : Prop where
  sequence : row'.sequence = row.sequence
  command : row'.commandID = row.commandID
  kind : row'.kind = row.kind
  digest : row'.digest = row.digest
  settled : row.state ≠ .admitted → row'.state = row.state ∧ row'.result = row.result

theorem IntentRow.Continues.refl (row : IntentRow) : row.Continues row := ⟨rfl, rfl, rfl, rfl, fun _ => ⟨rfl, rfl⟩⟩

/-- What the dispatch tables of a bound journal keep. -/
structure OrdinalsForward (j j' : Journal) (m m' : DispatchMeta) : Prop where
  ownership : m'.ownership = m.ownership
  floor : m.retired ≤ m'.retired
  last : m.lastSequence ≤ m'.lastSequence
  dispatches : ∀ d ∈ j.dispatches, m'.retired < d.dispatchSequence → ∃ d' ∈ j'.dispatches,
    d'.dispatchSequence = d.dispatchSequence ∧ d'.operationSequence = d.operationSequence ∧ d'.proof = d.proof
  cancellations : ∀ r ∈ j.cancellations, m'.retired < r.request.dispatchSequence → ∃ r' ∈ j'.cancellations,
    r'.request.dispatchSequence = r.request.dispatchSequence

/-- What all tables keep. -/
structure Forward (j j' : Journal) : Prop where
  cursor : j.nextSequence ≤ j'.nextSequence
  floor : j.retired ≤ j'.retired
  intents : ∀ row ∈ j.intents, j'.retired < row.sequence → ∃ row' ∈ j'.intents, row.Continues row'
  admissions : ∀ s, j'.retired < s → s < j.nextSequence → j'.admissions.find? s = j.admissions.find? s
  ordinals : ∀ m, j.dispatchMeta = some m → ∃ m', j'.dispatchMeta = some m' ∧ OrdinalsForward j j' m m'

variable {c : Context} {j j' : Journal} {m : DispatchMeta}

/-- Dispatch tables that an operation leaves alone. -/
theorem OrdinalsForward.of_same (dispatches : j'.dispatches = j.dispatches)
    (cancellations : j'.cancellations = j.cancellations) : OrdinalsForward j j' m m where
  ownership := rfl
  floor := le_rfl
  last := le_rfl
  dispatches := by
    rw [dispatches]
    exact fun d mem _ => ⟨d, mem, rfl, rfl, rfl⟩
  cancellations := by
    rw [cancellations]
    exact fun r mem _ => ⟨r, mem, rfl⟩

/-- Dispatch tables in which only states were updated. -/
theorem OrdinalsForward.of_modify {f : DispatchRow → DispatchRow}
    (keeps : ∀ d, (f d).dispatchSequence = d.dispatchSequence) (dispatches : j'.dispatches = j.dispatches.modify f keeps)
    (cancellations : j'.cancellations = j.cancellations)
    (identity : ∀ d, (f d).operationSequence = d.operationSequence ∧ (f d).proof = d.proof) :
    OrdinalsForward j j' m m where
  ownership := rfl
  floor := le_rfl
  last := le_rfl
  dispatches := by
    rw [dispatches]
    exact fun d mem _ => ⟨f d, mem_modify.2 ⟨d, mem, rfl⟩, keeps d, identity d⟩
  cancellations := by
    rw [cancellations]
    exact fun r mem _ => ⟨r, mem, rfl⟩

namespace Forward

/-- The intents were updated row by row. -/
theorem of_modify {f : IntentRow → IntentRow} (keeps : ∀ row, (f row).sequence = row.sequence)
    (cursor : j'.nextSequence = j.nextSequence) (floor : j'.retired = j.retired)
    (intents : j'.intents = j.intents.modify f keeps) (admissions : j'.admissions = j.admissions)
    (continues : ∀ row : IntentRow, row.Continues (f row))
    (ordinals : ∀ m, j.dispatchMeta = some m → ∃ m', j'.dispatchMeta = some m' ∧ OrdinalsForward j j' m m') :
    Forward j j' where
  cursor := cursor.ge
  floor := floor.ge
  intents := by
    rw [intents]
    exact fun row mem _ => ⟨f row, mem_modify.2 ⟨row, mem, rfl⟩, continues row⟩
  admissions := by
    rw [admissions]
    exact fun _ _ _ => rfl
  ordinals := ordinals

/-- The intent tables are the same. -/
theorem of_same (cursor : j'.nextSequence = j.nextSequence) (floor : j'.retired = j.retired)
    (intents : j'.intents = j.intents) (admissions : j'.admissions = j.admissions)
    (ordinals : ∀ m, j.dispatchMeta = some m → ∃ m', j'.dispatchMeta = some m' ∧ OrdinalsForward j j' m m') :
    Forward j j' :=
  of_modify (f := id) (fun _ => rfl) cursor floor (intents.trans (modify_eq_self fun _ _ => rfl).symm) admissions
    IntentRow.Continues.refl ordinals

theorem refl (j : Journal) : Forward j j :=
  of_same rfl rfl rfl rfl fun m bound => ⟨m, bound, .of_same rfl rfl⟩

variable {admission : Option Admission} {call : AdmitCall} {digest : String} {sequence lease : Int}

/-- A new intent at the cursor. -/
theorem of_insert (recorded : recordIntent j call j.nextSequence digest admission = .ok j')
    (ordinals : ∀ m, j.dispatchMeta = some m → ∃ m', j'.dispatchMeta = some m' ∧ OrdinalsForward j j' m m') :
    Forward j j' := by
  obtain ⟨-, reservations, intents, viewCommits, admissions, -, inserted, stored, rfl⟩ := recordIntent_ok recorded
  obtain ⟨-, members, -⟩ := insert_eq_some inserted
  refine ⟨?_, le_rfl, ?_, ?_, ordinals⟩
  · change j.nextSequence ≤ j.nextSequence + 1
    omega
  · exact fun row mem _ => ⟨row, (members row).2 (.inr mem), .refl row⟩
  · intro s _ below
    rcases stored with ⟨-, rfl⟩ | ⟨a, -, stored⟩
    · rfl
    · exact find?_insert_of_ne stored (ne_of_lt below)

theorem settle {state : String} {result : Text} (h : settle j sequence state result = .ok j') : Forward j j' := by
  obtain ⟨terminal, -, -, -, rfl | ⟨-, rfl⟩⟩ := settle_ok h
  · refine of_modify (settleRow_key sequence terminal result) rfl rfl rfl rfl (fun row => ?_) fun m bound =>
      ⟨m, bound, .of_modify (settleDispatch_key sequence terminal) rfl rfl fun d => ?_⟩
    · unfold settleRow
      split
      case isTrue admitted =>
        simp only [Bool.and_eq_true, beq_iff_eq] at admitted
        exact ⟨rfl, rfl, rfl, rfl, fun settled => absurd admitted.2 settled⟩
      case isFalse => exact .refl row
    · unfold settleDispatch
      split <;> exact ⟨rfl, rfl⟩
  · exact of_same rfl rfl rfl rfl fun m bound => ⟨m, bound, .of_same rfl rfl⟩

theorem acknowledge (h : acknowledge j lease sequence = .ok j') : Forward j j' := by
  obtain ⟨-, rfl | rfl⟩ := acknowledge_ok h
  · exact refl _
  · refine ⟨le_rfl, le_climb _ _ _, fun row mem above => ?_, fun s above _ => ?_, fun m bound =>
      ⟨m, bound, .of_same rfl rfl⟩⟩
    · refine ⟨acknowledgeRow sequence row, mem_filter.2 ⟨List.mem_map.2 ⟨row, mem, rfl⟩, ?_⟩, ?_⟩
      · rw [acknowledgeRow_key]
        exact decide_eq_true above
      · unfold acknowledgeRow
        split
        · exact ⟨rfl, rfl, rfl, rfl, fun _ => ⟨rfl, rfl⟩⟩
        · exact .refl row
    · refine find?_filter fun row _ at_s => ?_
      rw [at_s]
      exact decide_eq_true above

theorem reopen (inv : OrdinalInv c j) (h : reopen c j = .ok j') : Forward j j' := by
  obtain rfl := reopen_ok h
  rw [inv.recoverKind_eq_self]
  refine of_modify uncertainRow_key rfl rfl rfl rfl (fun row => ?_) fun m bound =>
    ⟨m, bound, .of_modify (uncertainDispatch_key j) rfl rfl fun d => ?_⟩
  · unfold uncertainRow
    split
    case isTrue admitted => exact ⟨rfl, rfl, rfl, rfl, fun settled => absurd (beq_iff_eq.1 admitted) settled⟩
    case isFalse => exact .refl row
  · unfold uncertainDispatch
    split <;> exact ⟨rfl, rfl⟩

/-- A new dispatch and its intent. -/
theorem dispatch (inv : Inv c j) (bound : j.dispatchMeta = some m) {p : NativeDispatchProof}
    {rows : Table DispatchRow DispatchRow.dispatchSequence}
    (given : call.dispatch = some p) (next_eq : p.dispatchSequence = m.lastSequence + 1)
    (inserted : j.dispatches.insert (newDispatchRow j.nextSequence call.commandID p) = some rows)
    (recorded : recordIntent
      { j with dispatches := rows, dispatchMeta := some (advanceFinalizedDispatchesTx j { m with lastSequence := p.dispatchSequence }) }
      call j.nextSequence digest admission = .ok j') : Forward j j' := by
  obtain ⟨-, reservations, intents, viewCommits, admissions, -, stored, kept, rfl⟩ := recordIntent_ok recorded
  obtain ⟨-, members, -⟩ := insert_eq_some stored
  have ordinals := inv.ordinals.bound m bound
  have spec := (advanceFinalizedDispatchesTx_spec j { m with lastSequence := p.dispatchSequence }).1
  change p.dispatchSequence ≤ _ at spec
  refine ⟨?_, le_rfl, fun row mem _ => ⟨row, (members row).2 (.inr mem), .refl row⟩, fun s _ below => ?_, ?_⟩
  · change j.nextSequence ≤ j.nextSequence + 1
    omega
  · rcases kept with ⟨-, rfl⟩ | ⟨a, -, kept⟩
    · rfl
    · exact find?_insert_of_ne kept (ne_of_lt below)
  · intro m' present
    cases bound.symm.trans present
    refine ⟨_, rfl, rfl, le_rfl, by omega, fun d mem _ => ⟨d, ?_, rfl, rfl, rfl⟩, fun r mem _ => ⟨r, mem, rfl⟩⟩
    simp only [kindedDispatches, given, Option.isSome_some, if_true]
    exact (ordinals.mem_kinded inserted).2 (.inr mem)

theorem admitDispatch {out : Outcome} {execute : Bool} (inv : Inv c j)
    (h : admitDispatch c j call = .ok (j', out, execute)) : Forward j j' := by
  rcases inv.ordinals.admitted inv.intents h with rfl | ⟨digest, admission, -, ⟨absent, recorded⟩ |
    ⟨p, m, rows, given, bound, -, -, -, next_eq, -, inserted, recorded⟩⟩
  · exact refl _
  · refine of_insert recorded fun m bound => ⟨m, ?_, .of_same ?_ ?_⟩ <;>
      obtain ⟨-, reservations, intents, viewCommits, admissions, -, -, -, rfl⟩ := recordIntent_ok recorded
    · exact bound
    · simp [kindedDispatches, absent]
    · rfl
  · exact dispatch inv bound given next_eq inserted recorded

theorem prepareDispatchCancellation {requestID preparationID : String} {proposal : CancellationProposal}
    {r : CancellationPreparation}
    (h : prepareDispatchCancellation c j lease requestID preparationID proposal = .ok (j', r)) : Forward j j' := by
  obtain ⟨-, -, -, -, ⟨rfl, -, -⟩ | ⟨-, rfl, -, -, rows, inserted, rfl⟩⟩ := prepareDispatchCancellation_ok h
  · exact refl _
  · obtain ⟨-, members, -⟩ := insert_eq_some inserted
    exact of_same rfl rfl rfl rfl fun m bound => ⟨m, bound, rfl, le_rfl, le_rfl, fun d mem _ => ⟨d, mem, rfl, rfl, rfl⟩,
      fun r mem _ => ⟨r, (members r).2 (.inr mem), rfl⟩⟩

theorem finalizeDispatchCancellation {response : CancelledPayload}
    (h : finalizeDispatchCancellation c j lease response = .ok j') : Forward j j' := by
  obtain ⟨-, proof, record, m, -, -, -, -, -, -, bound, rfl⟩ := finalizeDispatchCancellation_ok h
  refine of_same rfl rfl rfl rfl fun m' present => ?_
  cases bound.symm.trans present
  refine ⟨_, rfl, rfl, le_rfl, le_climb _ _ _, fun d mem _ => ⟨d, mem, rfl, rfl, rfl⟩, fun r mem _ => ?_⟩
  exact ⟨_, Ordinals.mem_recordFinalized.2 ⟨r, mem, rfl⟩, finalizeRow_key _ r⟩

theorem retireDispatches {floor : Int} (h : retireDispatches j lease floor = .ok j') : Forward j j' := by
  obtain ⟨-, m, bound, low, high, -, finalized, rfl⟩ := retireDispatches_ok h
  refine of_same rfl rfl rfl rfl fun m' present => ?_
  cases bound.symm.trans present
  refine ⟨_, rfl, rfl, low, le_rfl, fun d mem above => ?_, fun r mem above => ?_⟩
  · exact ⟨d, mem_filter.2 ⟨mem, decide_eq_true above⟩, rfl, rfl, rfl⟩
  · refine ⟨r, mem_filter.2 ⟨mem, ?_⟩, rfl⟩
    simp [retained, above]

theorem apply {op : Op} {reply : Reply} (inv : Inv c j) (h : apply c j op = .ok (j', reply)) : Forward j j' := by
  cases apply_applied h with
  | advanceLease advanced =>
    obtain rfl := advanceLease_ok advanced
    exact of_same rfl rfl rfl rfl fun m bound => ⟨m, bound, .of_same rfl rfl⟩
  | bindOwnership bound =>
    obtain ⟨-, rfl | ⟨absent, -, -, -, rfl⟩⟩ := bindDispatchOwnership_ok bound
    · exact refl _
    · refine of_same rfl rfl rfl rfl fun m present => ?_
      cases absent.symm.trans present
  | admission admitted =>
    exact admitDispatch inv admitted
  | settle settled =>
    exact settle settled
  | acknowledge acknowledged =>
    exact acknowledge acknowledged
  | prepareCancellation prepared =>
    exact prepareDispatchCancellation prepared
  | finalizeCancellation finalized =>
    exact finalizeDispatchCancellation finalized
  | retireDispatches retired =>
    exact retireDispatches retired
  | reopen opened =>
    exact reopen inv.ordinals opened

/-- A refused operation keeps everything too. -/
theorem step (inv : Inv c j) (op : Op) : Forward j (step c j op).1 :=
  step_keeps (refl j) fun _ _ accepted => apply inv accepted

end Forward

end Pagnet.SessionWorker
