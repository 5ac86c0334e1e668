import Pagnet.SessionWorker.Reopen

/-!
# Reopening

A run that stays within the condition of `Op.Admissible` never leaves a journal
that the next open refuses. Without it the writers accept what the opener
refuses: the journal is filled with dispatches up to its bound, and the
cancellation of one more ordinal, which counts the cancellations only, puts it
beyond the bound for good.
-/

namespace Pagnet.SessionWorker
open Json

/-! ## A sample -/

/-- The canonical form of an identity, which `uuid.Parse` accepts. -/
def canonicalID (s : String) : Bool :=
  s.toList.length == 36 &&
    s.toList.zipIdx.all fun (ch, i) => if i ∈ [8, 13, 18, 23] then ch == '-' else isHex ch

/-- Identity number `n` of a group. -/
def sampleID (group n : Nat) : String :=
  String.ofList ['0', '0', '0', '0', '0', '0', '0', Nat.digitChar (group % 10), '-', '0', '0', '0', '0', '-',
    '4', '0', '0', '0', '-', '8', '0', '0', '0', '-', '0', '0', '0', '0', '0', '0', '0', '0', '0',
    Nat.digitChar (n / 100 % 10), Nat.digitChar (n / 10 % 10), Nat.digitChar (n % 10)]

def sampleScope : Scope := ⟨"https://pagnet.test", "tenant", "account", "host", "instance", "generation"⟩

/-- The digests of the run are never compared, so any hash will do. -/
def sampleContext : Context := ⟨sampleScope, canonicalID, fun _ _ => 0⟩

def sampleFingerprint : String := "0123456789abcdef0123456789abcdef0123456789abcdef0123456789abcdef"

def sampleOwnership : NativeWorkerOwnership :=
  { deletionProof := none, id := sampleID 1 0, instanceID := "instance", ownershipGeneration := "generation",
    runtime := "runtime", profile := "profile", originalAdmissionID := sampleID 3 0, state := "active",
    lastDispatchSequence := 0, retiredFloor := 0, profileFingerprint := sampleFingerprint }

def sampleProof (n : Nat) : NativeDispatchProof :=
  { invocationSource := none, taskSource := none, sourceBootID := "boot", ownershipID := sampleID 1 0,
    ownershipGeneration := "generation", dispatchSequence := n, sourceCommandID := sampleID 2 n,
    sourceAdmissionID := sampleID 3 n, sourceRunnerID := sampleID 4 0, sourceRunnerEpoch := ⟨1, 0⟩ }

def sampleAdmission : Admission := ⟨"", sampleScope, "tenant", "network", "runner", "", ⟨1, 0⟩, ""⟩

/-- The `n`-th dispatched stop. -/
def sampleCall (n : Nat) : AdmitCall :=
  { lease := 1, sequence := 0, commandID := sampleID 2 n, kind := "stop", payload := ['{', '}'],
    authorizeNew := some (.ok (some sampleAdmission)), dispatch := some (sampleProof n) }

def sampleProposal (n : Nat) : CancellationProposal :=
  ⟨"instance", .ofString "stop", .ofString "expired", sampleProof n⟩

/-- Bind the ownership under the first lease. -/
def sampleStart : List Op :=
  [.advanceLease, .bindOwnership 1 sampleOwnership "runtime" sampleFingerprint]

/-! ## The opener accepts what a run within its room leaves -/

/-- A reason of invalid bytes is accepted, and is too long once it is read back. -/
example : validCancellationPreparation sampleContext (newPreparation (sampleID 5 1) (sampleID 6 1)
      { sampleProposal 1 with reason := List.replicate 43 (.inr 255) }) = true ∧
    validCancellationPreparation sampleContext (newPreparation (sampleID 5 1) (sampleID 6 1)
      { sampleProposal 1 with reason := List.replicate 43 (.inr 255) }).stored = false := by
  decide +kernel

/-! ## A full journal -/

theorem digitChar_facts : ∀ d < 10, isHex (Nat.digitChar d) ∧ (Nat.digitChar d).utf8Size = 1 ∧
    ∀ e < 10, Nat.digitChar d = Nat.digitChar e → d = e := by
  decide

theorem canonicalID_sampleID (group n : Nat) : canonicalID (sampleID group n) := by
  have hex : ∀ d, isHex (Nat.digitChar (d % 10)) := fun d => (digitChar_facts _ (Nat.mod_lt d (by decide))).1
  have zero : isHex '0' ∧ isHex '4' ∧ isHex '8' := by decide
  simp [canonicalID, sampleID, List.zipIdx, hex, zero]

theorem sampleID_inj {group a b : Nat} (small : a < 1000) (small' : b < 1000) (same : sampleID group a = sampleID group b) :
    a = b := by
  have digits : ∀ {d e : Nat}, Nat.digitChar (d % 10) = Nat.digitChar (e % 10) → d % 10 = e % 10 := fun {d e} same =>
    (digitChar_facts _ (Nat.mod_lt d (by decide))).2.2 _ (Nat.mod_lt e (by decide)) same
  have chars := congrArg String.toList same
  simp only [sampleID, String.toList_ofList, List.cons.injEq, true_and, and_true] at chars
  have hundreds := digits chars.1
  have tens := digits chars.2.1
  have ones := digits chars.2.2
  omega

theorem validCall_sampleCall (n : Nat) : validCall (sampleCall n) := by
  have one : ∀ d, (Nat.digitChar (d % 10)).utf8Size = 1 := fun d => (digitChar_facts _ (Nat.mod_lt d (by decide))).2.1
  have plain : '0'.utf8Size = 1 ∧ '4'.utf8Size = 1 ∧ '8'.utf8Size = 1 ∧ '-'.utf8Size = 1 := by decide
  have bytes : (sampleID 2 n).utf8ByteSize = 36 := by
    rw [utf8ByteSize_eq_size, sampleID, String.toList_ofList]
    simp only [size_cons, size_nil, one, plain]
  have named : sampleID 2 n ≠ "" := by
    intro empty
    rw [empty] at bytes
    cases bytes
  have rest : ("stop" != "" && decide ("stop".utf8ByteSize ≤ 64) && decide (size ['{', '}'] ≤ 1048576) &&
      valid ['{', '}']) := by decide
  simp only [validCall, sampleCall, bytes, Option.isSome_some, Bool.or_true, bne_iff_ne.2 named, Bool.true_and,
    show decide (36 ≤ 256) = true from rfl, Bool.and_assoc] at rest ⊢
  exact rest

theorem sampleEpoch_encodable : Timestamp.encodable ⟨1, 0⟩ := by decide

theorem sampleProof_valid {n : Nat} (small : n < 999) :
    validDispatchProof sampleContext (sampleID 2 (n + 1)) (sampleProof (n + 1)) := by
  have boot : validBoot (sampleProof (n + 1)) := by
    change (!Timestamp.isZero ⟨1, 0⟩ && "boot" != "" && decide ("boot".utf8ByteSize ≤ 256))
    decide
  have ordinal : validOrdinal (sampleProof (n + 1)).dispatchSequence := by
    refine Bool.and_eq_true_iff.2 ⟨decide_eq_true (Int.natCast_pos.2 n.succ_pos), bne_iff_ne.2 ?_⟩
    change ((n + 1 : Nat) : Int) ≠ 9223372036854775807
    omega
  simp only [validDispatchProof, boot, ordinal]
  simp [sampleProof, sampleContext, sampleScope, canonicalID_sampleID]

/-- The journal after `n` dispatched stops, none of them settled. -/
structure Stopped (n : Nat) (j : Journal) : Prop where
  inv : Inv sampleContext j
  lease : j.lease = 1
  cursor : j.nextSequence = n + 1
  floor : j.retired = 0
  owned : j.ownershipRetired = false
  bound : j.dispatchMeta = some ⟨sampleOwnership, n, 0⟩
  uncancelled : j.cancellations = .empty
  intents : ∀ row ∈ j.intents, ∃ k ≤ n, row.commandID = sampleID 2 k
  dispatches : ∀ d ∈ j.dispatches, ∃ k ≤ n, d.commandID = sampleID 2 k

namespace Stopped

variable {n : Nat} {j : Journal} (stopped : Stopped n j)
include stopped

theorem ordinals : Ordinals sampleContext j ⟨sampleOwnership, n, 0⟩ := stopped.inv.ordinals.bound _ stopped.bound

theorem count_dispatches : j.dispatches.count = n := by
  have counted := count_ordinals stopped.ordinals
  have none : (tombstones j ⟨sampleOwnership, n, 0⟩).count = 0 := by
    rw [tombstones, stopped.uncancelled]
    rfl
  rw [none] at counted
  change (j.dispatches.count + 0 : Int) = (n : Int) - 0 at counted
  omega

theorem count_intents : j.intents.count = n := by
  have counted := stopped.inv.intents.count_eq
  rw [stopped.cursor, stopped.floor] at counted
  omega

/-- The next command was never seen. -/
theorem fresh (small : n < 999) : (∀ row ∈ j.intents, row.commandID ≠ sampleID 2 (n + 1)) ∧
    ∀ d ∈ j.dispatches, d.commandID ≠ sampleID 2 (n + 1) := by
  constructor
  · intro row mem
    obtain ⟨k, le, same⟩ := stopped.intents row mem
    rw [same]
    intro clash
    have := sampleID_inj (by omega) (by omega) clash
    omega
  · intro d mem
    obtain ⟨k, le, same⟩ := stopped.dispatches d mem
    rw [same]
    intro clash
    have := sampleID_inj (by omega) (by omega) clash
    omega

theorem unfenced (p : NativeDispatchProof) : fenced j p = false := by
  rw [fenced, stopped.uncancelled]
  rfl

/-- The next stop gets the next ordinal. -/
theorem allocates (room : n < maxCommands) : ∃ rows,
    j.dispatches.insert (newDispatchRow j.nextSequence (sampleID 2 (n + 1)) (sampleProof (n + 1))) = some rows ∧
    prepareDispatchTx sampleContext j j.nextSequence 0 (sampleID 2 (n + 1)) (sampleProof (n + 1)) =
      .ok ({ j with dispatches := rows, dispatchMeta := some ⟨sampleOwnership, (n + 1 : Nat), 0⟩ }, j.nextSequence, true) := by
  have small : n < 128 := room
  have below : ∀ d ∈ j.dispatches, d.dispatchSequence ≠ ((n + 1 : Nat) : Int) := by
    intro d mem
    have := (stopped.ordinals.range d mem).2
    change d.dispatchSequence ≤ (n : Int) at this
    omega
  obtain ⟨rows, inserted⟩ := Table.insert_of_fresh
    (newDispatchRow j.nextSequence (sampleID 2 (n + 1)) (sampleProof (n + 1))) below
  have unclaimed : j.dispatches.exists? (fun old => old.operationSequence == j.nextSequence ||
      old.commandID == sampleID 2 (n + 1)) = false := by
    refine Table.exists?_eq_false.2 fun d mem => ?_
    simp [ne_of_lt (stopped.ordinals.rows d mem).operation.2, (stopped.fresh (by omega)).2 d mem]
  refine ⟨rows, inserted, refuse_bind_eq_ok.2 ⟨congrArg not (sampleProof_valid (by omega)),
    refuse_bind_eq_ok.2 ⟨stopped.unfenced _, ?_⟩⟩⟩
  have vacant : j.dispatches.find? (sampleProof (n + 1)).dispatchSequence = none := Table.find?_eq_none.2 below
  simp only [stopped.bound, vacant, insertDispatch, inserted, advanceFinalizedDispatchesTx,
    stopped.uncancelled]
  refine refuse_bind_eq_ok.2 ⟨bne_self_eq_false _, refuse_bind_eq_ok.2 ⟨decide_eq_false ?_, refuse_bind_eq_ok.2
    ⟨congrArg not sampleEpoch_encodable, refuse_bind_eq_ok.2 ⟨decide_eq_false (lt_irrefl _), refuse_bind_eq_ok.2
    ⟨Bool.or_eq_false_iff.2 ⟨bne_self_eq_false _, rfl⟩, refuse_bind_eq_ok.2 ⟨decide_eq_false ?_, bind_eq_ok.2
    ⟨_, refuse_bind_eq_ok.2 ⟨unclaimed, rfl⟩, rfl⟩⟩⟩⟩⟩⟩⟩
  · change ¬ ((n + 1 : Nat) : Int) ≤ 0
    omega
  · rw [stopped.count_dispatches]
    exact not_le.2 room

theorem records (room : n < maxCommands) (dispatches : Table DispatchRow DispatchRow.dispatchSequence)
    (m : DispatchMeta) (digest : String) : ∃ j',
    recordIntent { j with dispatches, dispatchMeta := some m } (sampleCall (n + 1)) j.nextSequence digest
      (some (originalAdmission (sampleProof (n + 1)) sampleAdmission)) = .ok j' := by
  have command : j.intents.exists? (·.commandID == sampleID 2 (n + 1)) = false :=
    Table.exists?_eq_false.2 fun row mem => by simp [(stopped.fresh (room.trans (by decide))).1 row mem]
  obtain ⟨intents, row⟩ := Table.insert_of_fresh (newIntentRow (sampleCall (n + 1)) j.nextSequence digest)
    fun row mem => ne_of_lt (stopped.inv.intents.cursor_fresh row mem)
  obtain ⟨admissions, stored⟩ := Table.insert_of_fresh
    ⟨j.nextSequence, originalAdmission (sampleProof (n + 1)) sampleAdmission⟩
    fun row mem => ne_of_lt (stopped.inv.intents.admissions row mem)
  have inserting : insertIntent { j with dispatches, dispatchMeta := some m }
      (newIntentRow (sampleCall (n + 1)) j.nextSequence digest) = .ok { j with dispatches, dispatchMeta := some m, intents } := by
    simp only [insertIntent, row, stopped.uncancelled]
    exact refuse_bind_eq_ok.2 ⟨command, rfl⟩
  -- a stop reserves nothing and waits for no view
  simp only [recordIntent, show recordReservation _ (sampleCall (n + 1)) j.nextSequence (some _) = .ok _ from rfl, ok_bind,
    inserting, show ∀ before, recordView before (sampleCall (n + 1)) j.nextSequence = .ok before from fun _ => rfl,
    recordAdmission, insertAdmission, stored]
  exact ⟨_, bind_eq_ok.2 ⟨_, refuse_bind_eq_ok.2 ⟨congrArg not sampleEpoch_encodable, rfl⟩, rfl⟩⟩

/-- The next stop is accepted too, until the intents are full. -/
theorem next (room : n < maxCommands) : ∃ j' out,
    admitDispatch sampleContext j (sampleCall (n + 1)) = .ok (j', out, true) ∧ Stopped (n + 1) j' := by
  obtain ⟨rows, inserted, allocated⟩ := stopped.allocates room
  obtain ⟨j', recorded⟩ := stopped.records room rows ⟨sampleOwnership, (n + 1 : Nat), 0⟩
    (intentDigest sampleContext "stop" (.object .nil))
  have cursor : (j.nextSequence != j.nextSequence || j.nextSequence == maxInt64) = false := by
    have small : n < 128 := room
    rw [stopped.cursor]
    refine Bool.or_eq_false_iff.2 ⟨bne_self_eq_false _, beq_eq_false_iff_ne.2 ?_⟩
    change (n : Int) + 1 ≠ 9223372036854775807
    omega
  have missing : j.intents.find? j.nextSequence = none :=
    Table.find?_eq_none.2 fun row mem => ne_of_lt (stopped.inv.intents.cursor_fresh row mem)
  have authorized : authorize sampleContext (sampleCall (n + 1)) true =
      .ok (some (originalAdmission (sampleProof (n + 1)) sampleAdmission)) := by
    simp [authorize, callback, sampleCall, sampleContext, sampleAdmission]
  have accepted : ∃ out, admitDispatch sampleContext j (sampleCall (n + 1)) = .ok (j', out, true) := by
    refine ⟨⟨some (originalAdmission (sampleProof (n + 1)) sampleAdmission), j.nextSequence, sampleID 2 (n + 1), "stop",
      .admitted, []⟩, refuse_bind_eq_ok.2 ⟨congrArg not (validCall_sampleCall _), bind_eq_ok.2 ⟨.object .nil, rfl, bind_eq_ok.2
      ⟨_, checkLease_eq_ok.2 ⟨Int.one_pos, stopped.lease, rfl⟩, refuse_bind_eq_ok.2 ⟨stopped.owned, bind_eq_ok.2
      ⟨_, allocated, refuse_bind_eq_ok.2 ⟨decide_eq_false (not_le.2 stopped.inv.intents.below), ?_⟩⟩⟩⟩⟩⟩⟩
    simp only [missing]
    -- a stop is no turn, so it does not wait for one
    exact refuse_bind_eq_ok.2 ⟨cursor, refuse_bind_eq_ok.2 ⟨rfl, bind_eq_ok.2 ⟨_, authorized, refuse_bind_eq_ok.2
      ⟨decide_eq_false (by rw [stopped.count_intents]; exact not_le.2 room), bind_eq_ok.2 ⟨_, recorded, rfl⟩⟩⟩⟩⟩
  obtain ⟨out, accepted⟩ := accepted
  have applied : apply sampleContext j (.admission (sampleCall (n + 1))) = .ok (j', .admission out true) :=
    bind_eq_ok.2 ⟨_, accepted, rfl⟩
  have inv : Inv sampleContext j' := ⟨stopped.inv.intents.apply applied, stopped.inv.ordinals.apply stopped.inv.intents applied⟩
  obtain ⟨-, reservations, intents, viewCommits, admissions, -, stored, -, rfl⟩ := recordIntent_ok recorded
  refine ⟨_, out, accepted, inv, stopped.lease, ?_, stopped.floor, stopped.owned, rfl, stopped.uncancelled, fun row mem => ?_,
    fun d mem => ?_⟩
  · change j.nextSequence + 1 = ((n + 1 : Nat) : Int) + 1
    rw [stopped.cursor]
    rfl
  · rcases ((Table.insert_eq_some stored).2.1 row).1 mem with rfl | old
    · exact ⟨n + 1, le_rfl, rfl⟩
    · obtain ⟨k, le, same⟩ := stopped.intents row old
      exact ⟨k, by omega, same⟩
  · rcases (stopped.ordinals.mem_kinded inserted).1 mem with rfl | old
    · exact ⟨n + 1, le_rfl, rfl⟩
    · obtain ⟨k, le, same⟩ := stopped.dispatches d old
      exact ⟨k, by omega, same⟩

end Stopped

/-- After `n` operations, each of them accepted. -/
def AcceptedRun (c : Context) (n : Nat) (j : Journal) : Prop :=
  ∃ trace, Reached c trace j ∧ trace.length = n ∧ ∀ e ∈ trace, e.output.isOk

theorem AcceptedRun.next {c : Context} {n : Nat} {j j' : Journal} {reply : Reply} (before : AcceptedRun c n j) (op : Op)
    (answer : apply c j op = .ok (j', reply)) : AcceptedRun c (n + 1) j' := by
  obtain ⟨trace, run, length, accepted⟩ := before
  have stepped : step c j op = (j', .ok reply) := by simp [step, answer]
  have run := run.next op
  rw [stepped] at run
  refine ⟨_, run, by simp [length], fun e mem => ?_⟩
  rcases List.mem_append.1 mem with old | new
  · exact accepted e old
  · rw [List.mem_singleton.1 new, Event.of_output, stepped]
    rfl

/-- The cancellation of an ordinal beyond the last stop. -/
def sampleRecord : CancellationPreparation := newPreparation (sampleID 5 129) (sampleID 6 129) (sampleProposal 129)

def sampleRecords : Table CancellationPreparation fun r => r.request.dispatchSequence :=
  ⟨[sampleRecord], List.pairwise_singleton _ _⟩

def sampleResponse : CancelledPayload :=
  ⟨sampleID 5 129, sampleID 6 129, "instance", some (sampleProof 129), "cancelled", "", false⟩

theorem sampleRecord_valid : validCancellationPreparation sampleContext sampleRecord ∧ sampleRecord.encodable ∧
    sampleRecord.encodedSize ≤ maxPreparationBytes := by
  decide +kernel

namespace Stopped

variable {j : Journal} (stopped : Stopped 128 j)
include stopped

theorem owns {j' : Journal} (bound : j'.dispatchMeta = j.dispatchMeta) {new : Bool} :
    checkCancellationOwnershipTx sampleContext j' (sampleProof 129) new = .ok () :=
  checkCancellationOwnershipTx_eq_ok.2
    ⟨_, bound.trans stopped.bound, rfl, rfl, rfl, rfl, fun _ => ⟨by decide, by decide⟩⟩

theorem unaccepted {j' : Journal} (intents : j'.intents = j.intents) (dispatches : j'.dispatches = j.dispatches)
    (evidence : j'.evidence = j.evidence) : checkNeverAcceptedDispatchTx j' (sampleProof 129) = .ok () := by
  obtain ⟨commands, dispatched⟩ := stopped.fresh (by decide)
  refine checkNeverAcceptedDispatchTx_eq_ok.2 ⟨intents ▸ commands, ?_, dispatches ▸ fun d mem => ⟨dispatched d mem, ?_⟩⟩
  · rw [evidence, stopped.inv.intents.evidence]
    exact List.forall_mem_nil _
  · have last := (stopped.ordinals.range d mem).2
    change d.dispatchSequence ≤ 128 at last
    change d.dispatchSequence ≠ 129
    omega

/-- The next ordinal may be cancelled although no dispatch fits any more, since
only the cancellations are counted; and once it is finalized, it is in use. -/
theorem cancelled : ∃ j₁ j₂ m,
    prepareDispatchCancellation sampleContext j 1 (sampleID 5 129) (sampleID 6 129) (sampleProposal 129) = .ok (j₁, sampleRecord) ∧
    finalizeDispatchCancellation sampleContext j₁ 1 sampleResponse = .ok j₂ ∧ j₂.dispatchMeta = some m ∧
    m.lastSequence - m.retired = 129 := by
  obtain ⟨valid, encodable, size⟩ := sampleRecord_valid
  have leased : checkLease j 1 = .ok (j.nextSequence, j.retired) := checkLease_eq_ok.2 ⟨by decide, stopped.lease, rfl⟩
  have prepared : prepareDispatchCancellation sampleContext j 1 (sampleID 5 129) (sampleID 6 129) (sampleProposal 129) =
      .ok ({ j with cancellations := sampleRecords }, sampleRecord) := by
    refine refuse_bind_eq_ok.2 ⟨congrArg not valid, bind_eq_ok.2 ⟨_, leased, bind_eq_ok.2 ⟨_, stopped.owns rfl,
      bind_eq_ok.2 ⟨_, stopped.unaccepted rfl rfl rfl, ?_⟩⟩⟩⟩
    simp only [stopped.uncancelled, insertCancellation]
    exact refuse_bind_eq_ok.2 ⟨rfl, refuse_bind_eq_ok.2
      ⟨Bool.or_eq_false_iff.2 ⟨congrArg not encodable, decide_eq_false (not_lt.2 size)⟩, rfl⟩⟩
  have found : sampleRecords.rows.find? (·.request.preparationID == sampleResponse.preparationID) = some sampleRecord := by
    simp [sampleRecords, sampleRecord, newPreparation, sampleResponse]
  have matching : (!true || sampleRecord.request.requestID != sampleResponse.requestID ||
      sampleRecord.request.instanceID != sampleResponse.instanceID || !(sampleProof 129).same (sampleProof 129)) = false := by
    simp [NativeDispatchProof.same, sampleRecord, newPreparation, sampleProposal, sampleResponse]
  rw [← valid] at matching
  have finalized : finalizeDispatchCancellation sampleContext { j with cancellations := sampleRecords } 1 sampleResponse =
      .ok (recordFinalized { j with cancellations := sampleRecords } sampleResponse.preparationID ⟨sampleOwnership, 128, 0⟩) := by
    refine refuse_bind_eq_ok.2 ⟨rfl, bind_eq_ok.2 ⟨_, leased, ?_⟩⟩
    simp only [found, stopped.bound]
    exact refuse_bind_eq_ok.2 ⟨matching, bind_eq_ok.2 ⟨_, stopped.owns stopped.bound.symm,
      bind_eq_ok.2 ⟨_, stopped.unaccepted rfl rfl rfl, refuse_bind_eq_ok.2 ⟨congrArg not encodable, rfl⟩⟩⟩⟩
  refine ⟨_, _, _, prepared, finalized, rfl, ?_⟩
  have passed : finalizedAt (sampleRecords.modify (finalizeRow sampleResponse.preparationID) (finalizeRow_key _)) (128 + 1) =
      true :=
    finalizedAt_eq_true.2 ⟨sampleRecord.finalize, Table.mem_modify.2
      ⟨sampleRecord, List.mem_singleton_self _, if_pos (beq_self_eq_true _)⟩, rfl, rfl⟩
  simp only [advanceFinalizedDispatchesTx, Table.count_modify]
  change climb _ 1 128 - 0 = (129 : Int)
  rw [climb, if_pos passed]
  rfl

end Stopped

end Pagnet.SessionWorker
