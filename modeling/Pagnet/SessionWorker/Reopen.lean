import Mathlib.Algebra.Order.BigOperators.Group.List
import Pagnet.SessionWorker.Ordinals

/-!
# Reopening

The opener checks the tables it finds. A journal that keeps the invariants of
every run, and in which dispatches and cancellations together stay within the
bound, every record is valid as it is read back and would still fit when
finalized, and every dispatch is of an owned kind, passes all of them. The
writers enforce the second half only in part: a preparation counts the
cancellations but not the dispatches, validates its texts before they are
encoded, measures the prepared record but not the finalized one, and an
admission leaves the kind of a dispatch to its caller.
-/

namespace Pagnet.SessionWorker
open Json List Table

/-- The room an open journal needs beyond the invariants of every run. -/
structure Fits (c : Context) (j : Journal) : Prop where
  total : j.dispatches.count + j.cancellations.count ≤ maxCommands
  records : ∀ r ∈ j.cancellations, validCancellationPreparation c r ∧
    r.encodedSize ≤ maxPreparationBytes ∧ r.finalize.encodedSize ≤ maxPreparationBytes
  kinds : ∀ d ∈ j.dispatches, d.operationKind ∈ ownedKinds

/-- The reservations of a journal without native evidence: a second one does not fit. -/
structure ReservationInv (j : Journal) : Prop where
  rows : ∀ r ∈ j.reservations, 0 < r.sequence ∧ r = newReservation r.sequence
  single : j.reservations.count ≤ 1

/-- A new preparation finds room beside the dispatches and for its finalized
record, and its texts are valid UTF-8. -/
def Roomy (j : Journal) (requestID preparationID : String) (proposal : CancellationProposal) : Prop :=
  j.dispatches.count + j.cancellations.count < maxCommands ∧ proposal.isValid ∧
    (newPreparation requestID preparationID proposal).finalize.encodedSize ≤ maxPreparationBytes

/-- The condition on one call: a new preparation finds its room, and a dispatch
is of an owned kind, which `prepareDispatchOperation` asks of every request. -/
def Op.Admissible (j : Journal) : Op → Prop
  | .prepareCancellation _ requestID preparationID proposal =>
    fenced j proposal.proof = false → Roomy j requestID preparationID proposal
  | .admission call => call.dispatch.isSome → call.kind ∈ ownedKinds
  | _ => True

namespace ReservationInv

variable {j : Journal}

theorem initial : ReservationInv Journal.initial where
  rows := fun r mem => absurd mem (not_mem_empty r)
  single := by decide

/-- A second reservation would exceed the capture bound. -/
theorem empty_of_room (inv : ReservationInv j)
    (room : reserved j (·.captureLeft) + terminalCaptureReserveBytes ≤ maxPendingObservationBytes) :
    j.reservations.count = 0 := by
  by_contra taken
  obtain ⟨r, mem⟩ := exists_mem_of_length_pos (Nat.pos_of_ne_zero taken)
  have captured : r.captureLeft ≤ reserved j (·.captureLeft) :=
    le_sum_of_mem (mem_map.2 ⟨r, mem, rfl⟩)
  rw [(inv.rows r mem).2] at captured
  simp only [newReservation, terminalCaptureReserveBytes, maxPendingObservationBytes] at captured room
  omega

theorem apply {c : Context} {j' : Journal} {op : Op} {reply : Reply} (inv : ReservationInv j) (intentInv : IntentInv j)
    (h : apply c j op = .ok (j', reply)) : ReservationInv j' := by
  cases apply_applied h with
  | advanceLease advanced =>
    obtain rfl := advanceLease_ok advanced
    exact ⟨inv.rows, inv.single⟩
  | bindOwnership bound =>
    obtain ⟨-, rfl | ⟨-, -, -, -, rfl⟩⟩ := bindDispatchOwnership_ok bound
    · exact inv
    · exact ⟨inv.rows, inv.single⟩
  | admission admitted =>
    obtain ⟨-, -, payload, j₂, sequence, fresh, -, allocated, above, outcome⟩ := admitDispatch_ok admitted
    obtain ⟨dispatches, dispatchMeta, rfl⟩ := admitSequence_frame allocated
    rcases outcome with ⟨-, rfl, -⟩ | ⟨-, new⟩
    · exact ⟨inv.rows, inv.single⟩
    · obtain ⟨-, -, -, -, admission, -, recorded, -⟩ := admitNew_ok new
      obtain ⟨-, reservations, intents, viewCommits, admissions, reserving, -, -, rfl⟩ := recordIntent_ok recorded
      rcases reserving with rfl | ⟨room, inserted⟩
      · exact ⟨inv.rows, inv.single⟩
      · obtain ⟨-, members, count⟩ := insert_eq_some inserted
        have before : j.reservations.count = 0 := inv.empty_of_room room
        change reservations.count = j.reservations.count + 1 at count
        have floor := intentInv.floor
        refine ⟨fun r mem => ?_, by change reservations.count ≤ 1; omega⟩
        rcases (members r).1 mem with rfl | old
        · exact ⟨by change 0 < sequence; omega, rfl⟩
        · exact inv.rows r old
  | settle settled =>
    obtain ⟨terminal, -, -, -, rfl | ⟨-, rfl⟩⟩ := settle_ok settled
    · unfold settleAdmitted
      split
      · exact ⟨inv.rows, inv.single⟩
      · exact ⟨fun r mem => inv.rows r (Table.mem_filter.1 mem).1, (Table.count_filter_le _ _).trans inv.single⟩
    · exact ⟨inv.rows, inv.single⟩
  | acknowledge acknowledged =>
    obtain ⟨-, rfl | rfl⟩ := acknowledge_ok acknowledged
    · exact inv
    · exact ⟨inv.rows, inv.single⟩
  | prepareCancellation prepared =>
    obtain ⟨-, -, -, -, ⟨rfl, -, -⟩ | ⟨-, -, -, -, rows, -, rfl⟩⟩ := prepareDispatchCancellation_ok prepared
    · exact inv
    · exact ⟨inv.rows, inv.single⟩
  | finalizeCancellation finalized =>
    obtain ⟨-, proof, record, m, -, -, -, -, -, -, -, rfl⟩ := finalizeDispatchCancellation_ok finalized
    exact ⟨inv.rows, inv.single⟩
  | retireDispatches retired =>
    obtain ⟨-, m, -, -, -, -, -, rfl⟩ := retireDispatches_ok retired
    exact ⟨inv.rows, inv.single⟩
  | reopen opened =>
    obtain rfl := reopen_ok opened
    exact ⟨inv.rows, inv.single⟩

end ReservationInv

namespace Fits

variable {c : Context} {j j' : Journal}

theorem initial : Fits c Journal.initial where
  total := by decide
  records := fun r mem => absurd mem (not_mem_empty r)
  kinds := fun d mem => absurd mem (not_mem_empty d)

/-- Updates of dispatch rows that keep their kind need no room. -/
theorem of_modify (fits : Fits c j) {f : DispatchRow → DispatchRow}
    (keeps : ∀ d, (f d).dispatchSequence = d.dispatchSequence) (dispatches : j'.dispatches = j.dispatches.modify f keeps)
    (cancellations : j'.cancellations = j.cancellations) (kind : ∀ d, (f d).operationKind = d.operationKind) :
    Fits c j' where
  total := by
    rw [dispatches, cancellations, count_modify]
    exact fits.total
  records := cancellations ▸ fits.records
  kinds := by
    rw [dispatches]
    intro d mem
    obtain ⟨old, found, rfl⟩ := mem_modify.1 mem
    rw [kind]
    exact fits.kinds old found

theorem admitDispatch {call : AdmitCall} {out : Outcome} {execute : Bool} (fits : Fits c j) (inv : Inv c j)
    (owned : call.dispatch.isSome → call.kind ∈ ownedKinds)
    (h : admitDispatch c j call = .ok (j', out, execute)) : Fits c j' := by
  rcases inv.ordinals.admitted inv.intents h with rfl | ⟨digest, admission, -, ⟨absent, recorded⟩ |
    ⟨p, m, rows, given, bound, -, -, -, -, room, inserted, recorded⟩⟩
  · exact fits
  · obtain ⟨-, reservations, intents, viewCommits, admissions, -, -, -, rfl⟩ := recordIntent_ok recorded
    have same : kindedDispatches j call j.nextSequence = j.dispatches := by simp [kindedDispatches, absent]
    rw [same]
    exact ⟨fits.total, fits.records, fits.kinds⟩
  · obtain ⟨-, reservations, intents, viewCommits, admissions, -, -, -, rfl⟩ := recordIntent_ok recorded
    obtain ⟨-, -, count⟩ := insert_eq_some inserted
    simp only [kindedDispatches, given, Option.isSome_some, if_true]
    refine ⟨?_, fits.records, fun d mem => ?_⟩
    · change (rows.modify _ (setKind_key j.nextSequence call.kind)).count + j.cancellations.count ≤ maxCommands
      rw [count_modify]
      omega
    · rcases ((inv.ordinals.bound m bound).mem_kinded inserted).1 mem with rfl | old
      · exact owned (by rw [given]; rfl)
      · exact fits.kinds d old

theorem prepareDispatchCancellation {lease : Int} {requestID preparationID : String} {proposal : CancellationProposal}
    {r : CancellationPreparation} (fits : Fits c j)
    (roomy : fenced j proposal.proof = false → Roomy j requestID preparationID proposal)
    (h : prepareDispatchCancellation c j lease requestID preparationID proposal = .ok (j', r)) : Fits c j' := by
  obtain ⟨valid, -, -, -, ⟨rfl, -, -⟩ | ⟨unfenced, rfl, -, size, rows, inserted, rfl⟩⟩ :=
    prepareDispatchCancellation_ok h
  · exact fits
  · obtain ⟨room, texts, finalSize⟩ := roomy unfenced
    rw [CancellationPreparation.stored_of_valid texts] at inserted
    obtain ⟨-, members, count⟩ := insert_eq_some inserted
    refine ⟨?_, fun r mem => ?_, fits.kinds⟩
    · change j.dispatches.count + rows.count ≤ maxCommands
      omega
    · rcases (members r).1 mem with rfl | old
      · exact ⟨valid, size, finalSize⟩
      · exact fits.records r old

theorem finalize (fits : Fits c j) (preparationID : String) (m : DispatchMeta) :
    Fits c (recordFinalized j preparationID m) := by
  refine ⟨?_, fun r mem => ?_, fits.kinds⟩
  · change j.dispatches.count + (j.cancellations.modify _ (finalizeRow_key preparationID)).count ≤ maxCommands
    rw [count_modify]
    exact fits.total
  · obtain ⟨old, found, rfl⟩ := Ordinals.mem_recordFinalized.1 mem
    obtain ⟨valid, size, finalSize⟩ := fits.records old found
    unfold finalizeRow
    split
    · exact ⟨valid, finalSize, finalSize⟩
    · exact ⟨valid, size, finalSize⟩

theorem retireDispatches {lease floor : Int} (fits : Fits c j) (h : retireDispatches j lease floor = .ok j') :
    Fits c j' := by
  obtain ⟨-, m, -, -, -, -, -, rfl⟩ := retireDispatches_ok h
  refine ⟨?_, fun r mem => fits.records r (Table.mem_filter.1 mem).1, fun d mem => fits.kinds d (Table.mem_filter.1 mem).1⟩
  have total := fits.total
  have dispatches := count_filter_le j.dispatches fun d => floor < d.dispatchSequence
  have cancellations := count_filter_le j.cancellations (retained floor)
  change (j.dispatches.filter _).count + (j.cancellations.filter _).count ≤ maxCommands
  omega

theorem apply {op : Op} {reply : Reply} (fits : Fits c j) (inv : Inv c j) (admissible : op.Admissible j)
    (h : apply c j op = .ok (j', reply)) : Fits c j' := by
  cases apply_applied h with
  | advanceLease advanced =>
    obtain rfl := advanceLease_ok advanced
    exact ⟨fits.total, fits.records, fits.kinds⟩
  | bindOwnership bound =>
    obtain ⟨-, rfl | ⟨-, -, -, -, rfl⟩⟩ := bindDispatchOwnership_ok bound
    · exact fits
    · exact ⟨fits.total, fits.records, fits.kinds⟩
  | admission admitted =>
    exact fits.admitDispatch inv admissible admitted
  | settle settled =>
    obtain ⟨terminal, -, -, -, rfl | ⟨-, rfl⟩⟩ := settle_ok settled
    · refine fits.of_modify (settleDispatch_key _ terminal) rfl rfl fun d => ?_
      unfold settleDispatch
      split <;> rfl
    · exact ⟨fits.total, fits.records, fits.kinds⟩
  | acknowledge acknowledged =>
    obtain ⟨-, rfl | rfl⟩ := acknowledge_ok acknowledged
    · exact fits
    · exact ⟨fits.total, fits.records, fits.kinds⟩
  | prepareCancellation prepared =>
    exact fits.prepareDispatchCancellation admissible prepared
  | finalizeCancellation finalized =>
    obtain ⟨-, proof, record, m, -, -, -, -, -, -, -, rfl⟩ := finalizeDispatchCancellation_ok finalized
    exact fits.finalize _ m
  | retireDispatches retired =>
    exact fits.retireDispatches retired
  | reopen opened =>
    obtain rfl := reopen_ok opened
    rw [inv.ordinals.recoverKind_eq_self]
    refine fits.of_modify (uncertainDispatch_key j) rfl rfl fun d => ?_
    unfold uncertainDispatch
    split <;> rfl

end Fits

section Accepts

variable {c : Context} {j : Journal} {m : DispatchMeta}

/-- Dispatches and tombstones share out the ordinals between floor and last. -/
theorem count_ordinals (ordinals : Ordinals c j m) :
    (j.dispatches.count + (tombstones j m).count : Int) = m.lastSequence - m.retired := by
  have tombstone : ∀ s, s ∈ (tombstones j m).keys ↔
      m.retired < s ∧ s ≤ m.lastSequence ∧ finalizedAt j.cancellations s := by
    intro s
    rw [Table.mem_keys, finalizedAt_eq_true]
    constructor
    · rintro ⟨r, mem, rfl⟩
      obtain ⟨found, passed⟩ := Table.mem_filter.1 mem
      simp only [Bool.and_eq_true, beq_iff_eq, decide_eq_true_eq] at passed
      exact ⟨passed.1.2, passed.2, r, found, rfl, passed.1.1⟩
    · rintro ⟨above, below, r, found, rfl, state⟩
      exact ⟨r, Table.mem_filter.2 ⟨found, by simp [state, above, below]⟩, rfl⟩
  refine count_of_partition ordinals.order (fun s => ?_) fun s dispatched cancelled => ?_
  · rw [tombstone, Table.mem_keys]
    constructor
    · rintro (⟨d, mem, rfl⟩ | ⟨above, below, -⟩)
      · exact ordinals.range d mem
      · exact ⟨above, below⟩
    · rintro ⟨above, below⟩
      rcases ordinals.cover s above below with dispatched | finalized
      · exact .inl dispatched
      · exact .inr ⟨above, below, finalized⟩
  · obtain ⟨d, mem, rfl⟩ := Table.mem_keys.1 dispatched
    obtain ⟨-, -, finalized⟩ := (tombstone _).1 cancelled
    obtain ⟨r, found, same, -⟩ := finalizedAt_eq_true.1 finalized
    exact (ordinals.apart d mem r found).1 same.symm

end Accepts

/-- A journal that the opener accepts, with what keeps it so. -/
structure Reopenable (c : Context) (j : Journal) : Prop where
  inv : Inv c j
  reservations : ReservationInv j
  fits : Fits c j

theorem Reopenable.initial (c : Context) : Reopenable c Journal.initial :=
  ⟨Inv.initial c, ReservationInv.initial, Fits.initial⟩

theorem Reopenable.step {c : Context} {j : Journal} {op : Op} (before : Reopenable c j) (allowed : op.Admissible j) :
    Reopenable c (step c j op).1 := by
  refine step_keeps before fun j' reply accepted => ?_
  have inv := before.inv
  exact ⟨⟨inv.intents.apply accepted, inv.ordinals.apply inv.intents accepted⟩,
    before.reservations.apply inv.intents accepted, before.fits.apply inv allowed accepted⟩

end Pagnet.SessionWorker
