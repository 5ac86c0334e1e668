import Pagnet.SessionWorker.Run

/-!
# What every journal keeps

Two invariants of the tables, each with a lemma for every operation. The intent
table has exactly one row for each sequence between the floor and the cursor.
The dispatch ordinals between the dispatch floor and the last one are shared out
between dispatches and tombstones, and no cancellation names a command or an
ordinal that was dispatched.
-/

namespace Pagnet.SessionWorker
open Json Table

/-- The states that no settlement evidence has to prove. -/
def IntentState.ordinary (state : IntentState) : Prop := state ≠ .resourceInterrupted ∧ state ≠ .ownerStopped

/-- A row as the operations of this development write it. -/
structure IntentRow.WellFormed (row : IntentRow) : Prop where
  command : row.commandID ≠ "" ∧ row.commandID.utf8ByteSize ≤ 256
  kind : row.kind ≠ "" ∧ row.kind.utf8ByteSize ≤ 64
  digest : validDigest row.digest
  state : row.state.ordinary
  result : size row.result ≤ maxOutcomeBytes ∧ (row.result.isEmpty ∨ valid row.result)
  admitted : row.state = .admitted → row.acknowledged = false ∧ row.result.isEmpty

/-- The intent table of a journal without native evidence. -/
structure IntentInv (j : Journal) : Prop where
  lease : 0 ≤ j.lease
  floor : 0 ≤ j.retired
  below : j.retired < j.nextSequence
  cover : ∀ s, (∃ row ∈ j.intents, row.sequence = s) ↔ j.retired < s ∧ s < j.nextSequence
  room : j.intents.count ≤ maxCommands
  rows : ∀ row ∈ j.intents, row.WellFormed
  admissions : ∀ row ∈ j.admissions, row.sequence < j.nextSequence
  evidence : j.evidence = Evidence.empty
  owned : j.ownershipRetired = false

namespace IntentInv

theorem initial : IntentInv Journal.initial where
  lease := by decide
  floor := by decide
  below := by decide
  cover := by
    intro s
    constructor
    · rintro ⟨row, mem, -⟩
      exact absurd mem (not_mem_empty row)
    · rintro ⟨above, below⟩
      change 0 < s at above
      change s < 1 at below
      omega
  room := by decide
  rows := fun row mem => absurd mem (not_mem_empty row)
  admissions := fun row mem => absurd mem (not_mem_empty row)
  evidence := rfl
  owned := rfl

variable {j j' : Journal}

section

variable (inv : IntentInv j)
include inv

/-- Operations that leave the intent table alone keep its invariant. -/
theorem of_same (lease : 0 ≤ j'.lease) (cursor : j'.nextSequence = j.nextSequence)
    (floor : j'.retired = j.retired) (intents : j'.intents = j.intents) (admissions : j'.admissions = j.admissions)
    (evidence : j'.evidence = j.evidence) (owned : j'.ownershipRetired = j.ownershipRetired := by rfl) : IntentInv j' where
  lease := lease
  floor := floor ▸ inv.floor
  below := by rw [floor, cursor]; exact inv.below
  cover := by rw [floor, cursor, intents]; exact inv.cover
  room := intents ▸ inv.room
  rows := intents ▸ inv.rows
  admissions := by rw [admissions, cursor]; exact inv.admissions
  evidence := evidence ▸ inv.evidence
  owned := owned ▸ inv.owned

/-- Updates of rows that keep them well formed keep the invariant. -/
theorem of_modify {f : IntentRow → IntentRow}
    (keeps : ∀ row, (f row).sequence = row.sequence) (lease : j'.lease = j.lease)
    (cursor : j'.nextSequence = j.nextSequence) (floor : j'.retired = j.retired)
    (intents : j'.intents = j.intents.modify f keeps) (admissions : j'.admissions = j.admissions)
    (evidence : j'.evidence = j.evidence) (rows : ∀ row, row.WellFormed → (f row).WellFormed)
    (owned : j'.ownershipRetired = j.ownershipRetired := by rfl) : IntentInv j' where
  lease := lease ▸ inv.lease
  floor := floor ▸ inv.floor
  below := by rw [floor, cursor]; exact inv.below
  cover := by
    intro s
    rw [floor, cursor, intents, ← inv.cover]
    constructor
    · rintro ⟨row, mem, rfl⟩
      obtain ⟨old, found, rfl⟩ := mem_modify.1 mem
      exact ⟨old, found, (keeps old).symm⟩
    · rintro ⟨row, mem, rfl⟩
      exact ⟨f row, mem_modify.2 ⟨row, mem, rfl⟩, keeps row⟩
  room := by rw [intents, count_modify]; exact inv.room
  rows := by
    rw [intents]
    intro row mem
    obtain ⟨old, found, rfl⟩ := mem_modify.1 mem
    exact rows old (inv.rows old found)
  admissions := by rw [admissions, cursor]; exact inv.admissions
  evidence := evidence ▸ inv.evidence
  owned := owned ▸ inv.owned

/-- The next sequence is not in the table. -/
theorem cursor_fresh : ∀ row ∈ j.intents, row.sequence < j.nextSequence :=
  fun row mem => ((inv.cover row.sequence).1 ⟨row, mem, rfl⟩).2

/-- As many rows as sequences between floor and cursor. -/
theorem count_eq : (j.intents.count : Int) = j.nextSequence - 1 - j.retired := by
  have below := inv.below
  refine count_of_cover (by omega) fun s => ?_
  rw [inv.cover]
  constructor <;> rintro ⟨above, under⟩ <;> exact ⟨above, by omega⟩

end

end IntentInv

theorem validDigest_hexEncode (bytes : Fin 32 → UInt8) : validDigest (hexEncode bytes) := by
  simp only [validDigest, Bool.and_eq_true, beq_iff_eq, List.all_eq_true]
  exact ⟨length_hexEncode bytes, fun ch mem => isHex_of_lower (lower_hexEncode bytes ch mem)⟩

variable {c : Context} {call : AdmitCall}

theorem newIntentRow_wellFormed (bounds : validCall call) (sequence : Int)
    (payload : Value) : (newIntentRow call sequence (intentDigest c call.kind payload)).WellFormed := by
  simp only [validCall, Bool.and_eq_true, bne_iff_ne, decide_eq_true_eq] at bounds
  obtain ⟨⟨⟨⟨⟨⟨-, command⟩, commandSize⟩, kind⟩, kindSize⟩, -⟩, -⟩ := bounds
  exact ⟨⟨command, commandSize⟩, ⟨kind, kindSize⟩, validDigest_hexEncode _, by simp [newIntentRow, IntentState.ordinary],
    by simp [newIntentRow], by simp [newIntentRow]⟩

/-- An allocation changes the dispatch tables only. -/
theorem admitSequence_frame {j j₁ : Journal} {sequence : Int} {fresh : Bool}
    (h : admitSequence c j call = .ok (j₁, sequence, fresh)) :
    ∃ dispatches dispatchMeta, j₁ = { j with dispatches, dispatchMeta } := by
  rcases admitSequence_ok h with ⟨-, rfl, -, -⟩ | ⟨p, -, allocated⟩
  · exact ⟨_, _, rfl⟩
  · obtain ⟨-, -, m, -, -, -, ⟨d, -, -, -, rfl, -, -⟩ | ⟨-, -, -, -, -, rows, -, rfl⟩⟩ := prepareDispatchTx_ok allocated
    · exact ⟨_, _, rfl⟩
    · exact ⟨_, _, rfl⟩

namespace IntentInv

variable {j j' : Journal} {c : Context} {sequence lease : Int}

section

variable (inv : IntentInv j)
include inv

/-- An insert at the cursor extends the covered range by one. -/
theorem cover_insert {row : IntentRow} {intents : Table IntentRow IntentRow.sequence}
    (inserted : j.intents.insert row = some intents) (at_cursor : row.sequence = j.nextSequence) (s : Int) :
    (∃ row ∈ intents, row.sequence = s) ↔ j.retired < s ∧ s < j.nextSequence + 1 := by
  obtain ⟨-, members, -⟩ := insert_eq_some inserted
  have below := inv.below
  constructor
  · rintro ⟨other, mem, rfl⟩
    rcases (members other).1 mem with rfl | old
    · omega
    · have := (inv.cover other.sequence).1 ⟨other, old, rfl⟩
      omega
  · rintro ⟨above, under⟩
    by_cases last : s = j.nextSequence
    · exact ⟨row, (members row).2 (.inl rfl), at_cursor.trans last.symm⟩
    · obtain ⟨other, mem, at_s⟩ := (inv.cover s).2 ⟨above, by omega⟩
      exact ⟨other, (members other).2 (.inr mem), at_s⟩

theorem admitDispatch {call : AdmitCall} {out : Outcome} {execute : Bool}
    (h : admitDispatch c j call = .ok (j', out, execute)) : IntentInv j' := by
  obtain ⟨bounds, -, payload, j₁, sequence, fresh, -, allocated, -, outcome⟩ := admitDispatch_ok h
  obtain ⟨dispatches, dispatchMeta, rfl⟩ := admitSequence_frame allocated
  rcases outcome with ⟨-, rfl, -⟩ | ⟨-, new⟩
  · exact inv.of_same inv.lease rfl rfl rfl rfl rfl
  · obtain ⟨at_cursor, -, room, -, admission, -, recorded, -⟩ := admitNew_ok new
    obtain ⟨-, reservations, intents, viewCommits, admissions, -, inserted, stored, rfl⟩ := recordIntent_ok recorded
    obtain ⟨-, members, count⟩ := insert_eq_some inserted
    have below := inv.below
    subst at_cursor
    refine ⟨inv.lease, inv.floor, ?_, inv.cover_insert inserted rfl, ?_, ?_, ?_, inv.evidence, inv.owned⟩
    · change j.retired < j.nextSequence + 1
      omega
    · change intents.count ≤ maxCommands
      change j.intents.count < maxCommands at room
      change intents.count = j.intents.count + 1 at count
      omega
    · intro row mem
      rcases (members row).1 mem with rfl | old
      · exact newIntentRow_wellFormed bounds _ payload
      · exact inv.rows row old
    · intro row mem
      change row.sequence < j.nextSequence + 1
      have before := inv.admissions row
      rcases stored with ⟨-, rfl⟩ | ⟨a, -, stored⟩
      · have := before mem
        omega
      · rcases ((insert_eq_some stored).2.1 row).1 mem with rfl | old
        · change j.nextSequence < j.nextSequence + 1
          omega
        · have := before old
          omega

theorem settle {state : String} {result : Text} (h : settle j sequence state result = .ok j') : IntentInv j' := by
  obtain ⟨terminal, known, bound, valid, rfl | ⟨evidence, -⟩⟩ := settle_ok h
  · refine inv.of_modify (settleRow_key sequence terminal result) rfl rfl rfl rfl rfl rfl fun row wf => ?_
    unfold settleRow
    split
    · refine ⟨wf.command, wf.kind, wf.digest, ?_, ⟨bound, valid⟩, ?_⟩ <;>
        rcases terminalState_eq_some known with rfl | rfl | rfl <;> simp [IntentState.ordinary]
    · exact wf
  · -- without settlement evidence nothing is proven
    rw [proven, exists?_eq_true] at evidence
    simp [inv.evidence, Evidence.empty] at evidence

/-- The receipt alone: a settled row may be acknowledged. -/
theorem markAcknowledged (sequence : Int) : IntentInv (markAcknowledged j sequence) := by
  refine inv.of_modify (acknowledgeRow_key sequence) rfl rfl rfl rfl rfl rfl fun row wf => ?_
  unfold acknowledgeRow
  split
  case isTrue settled =>
    simp only [Bool.and_eq_true, bne_iff_ne] at settled
    exact ⟨wf.command, wf.kind, wf.digest, wf.state, wf.result, fun admitted => absurd admitted settled.2⟩
  case isFalse => exact wf

/-- The floor rises over rows of the table only, so it stays below the cursor. -/
theorem raisedFloor_lt : raisedFloor j < j.nextSequence := by
  by_cases moved : j.retired < raisedFloor j
  · have passed := climb_passed moved (le_refl _)
    rw [acknowledgedAt, exists?_eq_true] at passed
    obtain ⟨row, mem, is⟩ := passed
    have at_floor := eq_of_beq (Bool.and_eq_true_iff.1 is).1
    have := inv.cursor_fresh row mem
    omega
  · have := inv.below
    omega

theorem prune : IntentInv (prune j) := by
  have risen : j.retired ≤ raisedFloor j := le_climb _ _ _
  have floor := inv.floor
  refine ⟨inv.lease, ?_, inv.raisedFloor_lt, ?_, ?_, ?_, ?_, inv.evidence, inv.owned⟩
  · change 0 ≤ raisedFloor j
    omega
  · intro s
    change (∃ row ∈ j.intents.filter fun row => raisedFloor j < row.sequence, row.sequence = s) ↔
      raisedFloor j < s ∧ s < j.nextSequence
    constructor
    · rintro ⟨row, mem, rfl⟩
      obtain ⟨old, above⟩ := mem_filter.1 mem
      exact ⟨of_decide_eq_true above, inv.cursor_fresh row old⟩
    · rintro ⟨above, below⟩
      obtain ⟨row, mem, rfl⟩ := (inv.cover s).2 ⟨by omega, below⟩
      exact ⟨row, mem_filter.2 ⟨mem, decide_eq_true above⟩, rfl⟩
  · exact (count_filter_le _ _).trans inv.room
  · intro row mem
    exact inv.rows row (mem_filter.1 mem).1
  · intro row mem
    exact inv.admissions row (mem_filter.1 mem).1

theorem acknowledge (h : acknowledge j lease sequence = .ok j') : IntentInv j' := by
  obtain ⟨-, rfl | rfl⟩ := acknowledge_ok h
  · exact inv
  · exact (inv.markAcknowledged sequence).prune

theorem retireDispatches {floor : Int} (h : retireDispatches j lease floor = .ok j') : IntentInv j' := by
  obtain ⟨-, m, -, -, -, -, -, rfl⟩ := retireDispatches_ok h
  refine inv.of_same inv.lease rfl rfl rfl rfl ?_
  -- there is no settlement evidence to delete
  simp only [dropDispatches, inv.evidence]
  rfl

theorem markUncertain : IntentInv (markUncertain j) := by
  refine inv.of_modify uncertainRow_key rfl rfl rfl rfl rfl rfl fun row wf => ?_
  unfold uncertainRow
  split
  · exact ⟨wf.command, wf.kind, wf.digest, by simp [IntentState.ordinary], wf.result, by simp⟩
  · exact wf

theorem reopen (h : reopen c j = .ok j') : IntentInv j' := by
  obtain rfl := reopen_ok h
  apply markUncertain
  exact inv.of_same inv.lease rfl rfl rfl rfl rfl

theorem apply {op : Op} {reply : Reply} (h : apply c j op = .ok (j', reply)) : IntentInv j' := by
  cases apply_applied h with
  | advanceLease advanced =>
    obtain rfl := advanceLease_ok advanced
    have := inv.lease
    exact inv.of_same (by change 0 ≤ j.lease + 1; omega) rfl rfl rfl rfl rfl
  | bindOwnership bound =>
    obtain ⟨-, rfl | ⟨-, -, -, -, rfl⟩⟩ := bindDispatchOwnership_ok bound
    · exact inv
    · exact inv.of_same inv.lease rfl rfl rfl rfl rfl
  | admission admitted =>
    exact inv.admitDispatch admitted
  | settle settled =>
    exact inv.settle settled
  | acknowledge acknowledged =>
    exact inv.acknowledge acknowledged
  | prepareCancellation prepared =>
    obtain ⟨-, -, -, -, ⟨rfl, -, -⟩ | ⟨-, -, -, -, rows, -, rfl⟩⟩ := prepareDispatchCancellation_ok prepared
    · exact inv
    · exact inv.of_same inv.lease rfl rfl rfl rfl rfl
  | finalizeCancellation finalized =>
    obtain ⟨-, proof, record, m, -, -, -, -, -, -, -, rfl⟩ := finalizeDispatchCancellation_ok finalized
    exact inv.of_same inv.lease rfl rfl rfl rfl rfl
  | retireDispatches retired =>
    exact inv.retireDispatches retired
  | reopen opened =>
    exact inv.reopen opened

end

end IntentInv

end Pagnet.SessionWorker
