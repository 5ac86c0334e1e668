import Pagnet.Data.Run
import Pagnet.Textbridge.Faithful

/-!
# Runs of the text bridge ledger

Any number of handles work on one database, and each statement or immediate
transaction is one step. `CompareAndSwap` and `Revoke` are two: between the job that
they read and the update that they make other calls may step in, so a system holds
the updates that are still to be made. A handle has no state of its own, and a ledger
is opened with the limits it was made with: opening is the checks that `Open` makes.
-/

namespace Pagnet.Textbridge
open Json

structure System where
  store : Store
  updates : List Update

inductive Op where
  | insert (projectID askID : GoString) (d : Data)
  | compareAndSwap (expected : Job) (next : Phase) (d : Data)
  | revoke (expected : Job)
  /-- A call that has read its job makes its update. -/
  | update (i : Nat)
  | claimProvider (expected : Job) (now : Timestamp) (random : Option (Fin 32 → UInt8))
  | finishProvider (k : JobKey) (token : GoString) (output : List UInt8) (succeeded : Bool)
  | abandonProviderClaim (k : JobKey) (expectedRevision : Int)
  | setEnabled (enabled : Bool)
  | get (k : JobKey)
  | reopen

structure Call where
  op : Op
  commit : Commit

inductive Answer where
  | job (j : Job)
  | claim (j : Job) (token : GoString)
  | prepared
  | jobs (js : List Job)
  | done

/-- A call that works on the database. -/
def System.transact {α : Type} (p : System) (commit : Commit) (result : Except Error (Change Store α)) (answer : α → Answer) :
    System × Except Error Answer :=
  let r := commit.conclude .database p.store result
  ({ p with store := r.1 }, r.2.map answer)

/-- A call that has an update to make. -/
def System.hold (p : System) : Except Error Update → System × Except Error Answer
  | .ok u => ({ p with updates := p.updates ++ [u] }, .ok .prepared)
  | .error e => (p, .error e)

/-- The checks of `Open`. -/
def reopen (c : Config) (s : Store) : Except Error (List Job) := do
  discard (readBudget c s)
  list c s

/-- A step of the system. -/
def step (c : Config) (p : System) (call : Call) : System × Except Error Answer :=
  match call.op with
  | .insert projectID askID d => p.transact call.commit (insert c p.store projectID askID d) .job
  | .compareAndSwap expected next d => p.hold (prepareSwap c p.store expected next d)
  | .revoke expected => p.hold (prepareRevoke c p.store expected)
  | .update i =>
    match p.updates[i]? with
    | none => (p, .error .invalid)
    | some u => { p with updates := p.updates.eraseIdx i }.transact call.commit (u.apply p.store) .job
  | .claimProvider expected now random =>
    p.transact call.commit (claimProvider c random p.store expected now) fun a => .claim a.1 a.2
  | .finishProvider k token output succeeded =>
    p.transact call.commit (finishProvider c p.store k token output succeeded) .job
  | .abandonProviderClaim k expectedRevision =>
    p.transact call.commit (abandonProviderClaim c p.store k expectedRevision) .job
  | .setEnabled enabled => p.transact call.commit (setEnabled c p.store enabled) fun _ => .done
  | .get k => (p, (get c p.store k).map .job)
  | .reopen => (p, (reopen c p.store).map .jobs)

abbrev CallEvent := Event System Call (Except Error Answer)

/-- The runs of a new ledger. -/
abbrev Reached (c : Config) : List CallEvent → System → Prop := Run (step c) ⟨.initial c, []⟩

/-- The call's write was made: it succeeded, or its error hid a commit. -/
def committed (e : CallEvent) : Bool :=
  match e.output with
  | .ok _ => true
  | .error err => err == .database && e.input.commit == .ambiguous

/-- The operations of the budget. -/
def Op.ofBudget : Op → Bool
  | .claimProvider .. | .finishProvider .. | .abandonProviderClaim .. | .setEnabled .. => true
  | _ => false

/-! ## What a step writes -/

/-- `writeProviderJob` follows a job that was read. -/
structure Follows (c : Config) (s : Store) (k : JobKey) (row : JobRow) (read j : Job) (sealed : Sealed) : Prop where
  found : s.jobs.find? k = some row
  scanned : scan c row = .ok read
  written : encode c j = .ok sealed
  key : j.key = read.key
  revoked : j.revoked = read.revoked

/-- The writes of a step. -/
inductive Wrote (c : Config) (p : System) : Op → Store → Prop where
  | inserted {projectID askID : GoString} {d : Data} {j : Job} {sealed : Sealed}
      {jobs : Relation JobRow JobKey JobRow.key} (is_new : j = ⟨projectID, askID, 1, .queued, false, d⟩)
      (written : encode c j = .ok sealed) (added : p.store.jobs.insert (j.row sealed) = some jobs) :
      Wrote c p (.insert projectID askID d) { p.store with jobs }
  | updated {i : Nat} {u : Update} {row : JobRow} (held : p.updates[i]? = some u)
      (found : p.store.jobs.find? u.job.key = some row) (phase : row.phase = u.expected.phase)
      (revoked : row.revoked = u.expected.revoked) : Wrote c p (.update i) (updateJob p.store u.job u.sealed)
  | claimed {expected : Job} {now : Timestamp} {raw : Fin 32 → UInt8} {row : JobRow} {read j : Job} {sealed : Sealed}
      {active : Relation Active GoString Active.token} (enabled : p.store.budget.enabled)
      (follows : Follows c p.store expected.key row read j sealed) (queued : read.phase = .queued)
      (free : read.revoked = false) (started : j.phase = .providerStarted) (data : j.data = read.data)
      (parses : validDay (utcDay now)) (later : ∀ old, p.store.budget.day = some old → old ≤ utcDay now)
      (calls : (rollDay p.store.budget (utcDay now)).calls < p.store.budget.limits.callsPerDay)
      (room : p.store.budget.active.rows.length < p.store.budget.limits.maxConcurrent)
      (added : p.store.budget.active.insert ⟨.ofString (hexEncode raw), read.projectID, read.askID⟩ = some active) :
      Wrote c p (.claimProvider expected now (some raw))
        (writeBudget (updateJob p.store j sealed)
          { rollDay p.store.budget (utcDay now) with active, calls := (rollDay p.store.budget (utcDay now)).calls + 1 })
  | finished {k : JobKey} {token : GoString} {output : List UInt8} {row : JobRow} {read j : Job} {sealed : Sealed} {a : Active}
      (follows : Follows c p.store k row read j sealed) (found : p.store.budget.active.find? token = some a)
      (claim : a.claim = k) (was : read.phase = .providerStarted) (ready : j.phase = .outputReady)
      (data : j.data = { read.data with output }) :
      Wrote c p (.finishProvider k token output true)
        (writeBudget (updateJob p.store j sealed) (release p.store.budget token))
  | failed {k : JobKey} {token : GoString} {output : List UInt8} {row : JobRow} {read j : Job} {sealed : Sealed}
      (follows : Follows c p.store k row read j sealed) (was : read.phase = .providerStarted) (unknown : j.phase = .unknown)
      (data : j.data = read.data) :
      Wrote c p (.finishProvider k token output false) (writeBudget (updateJob p.store j sealed) p.store.budget)
  | abandoned {k : JobKey} {expectedRevision : Int} {row : JobRow} {read j : Job} {sealed : Sealed} {a : Active}
      (follows : Follows c p.store k row read j sealed) (found : claimOf p.store.budget k = some a)
      (was : read.phase = .providerStarted) (unknown : j.phase = .unknown) (data : j.data = read.data) :
      Wrote c p (.abandonProviderClaim k expectedRevision)
        (writeBudget (updateJob p.store j sealed) (release p.store.budget a.token))
  | released {k : JobKey} {expectedRevision : Int} {row : JobRow} {read : Job} {a : Active}
      (found : p.store.jobs.find? k = some row) (scanned : scan c row = .ok read)
      (claim : claimOf p.store.budget k = some a) (unknown : read.phase = .unknown) :
      Wrote c p (.abandonProviderClaim k expectedRevision) (writeBudget p.store (release p.store.budget a.token))
  | switched {enabled : Bool} :
      Wrote c p (.setEnabled enabled) (writeBudget p.store { p.store.budget with enabled })

variable {c : Config} {p : System}

variable {s : Store} {k : JobKey} {change : Change Store Job}

theorem readBudget_eq {b : Budget} (h : readBudget c s = .ok b) : b = s.budget := by
  have h := past_refuse h
  obtain ⟨-, -, h⟩ := of_bind h
  have h := past_refuse h
  cases h
  rfl

theorem get_ok {read : Job} (h : get c s k = .ok read) :
    ∃ row, s.jobs.find? k = some row ∧ scan c row = .ok read := by
  unfold get at h
  split at h
  case h_1 => cases h
  case h_2 row found => exact ⟨row, found, h⟩

theorem writeProviderJob_ok {s' : Store} {j : Job} (h : writeProviderJob c s j = .ok s') :
    ∃ sealed, encode c j = .ok sealed ∧ s' = updateJob s j sealed := by
  obtain ⟨sealed, written, h⟩ := of_bind h
  cases h
  exact ⟨sealed, written, rfl⟩

theorem claimProvider_wrote {random : Option (Fin 32 → UInt8)} {expected : Job} {now : Timestamp}
    {change : Change Store (Job × GoString)} (h : claimProvider c random p.store expected now = .ok change) :
    ∃ s' a, change = .commit s' a ∧ Wrote c p (.claimProvider expected now random) s' := by
  obtain ⟨b, read_budget, h⟩ := of_bind h
  obtain rfl := readBudget_eq read_budget
  obtain ⟨enabled, h⟩ := of_refuse h
  obtain ⟨read, got, h⟩ := of_bind h
  obtain ⟨row, found, scanned⟩ := get_ok got
  have h := past_refuse h
  obtain ⟨fresh, h⟩ := of_refuse h
  obtain ⟨parses, h⟩ := of_refuse h
  obtain ⟨later, h⟩ := of_refuse h
  obtain ⟨calls, h⟩ := of_refuse h
  obtain ⟨room, h⟩ := of_refuse h
  simp only [Bool.or_eq_false_iff, bne_eq_false_iff_eq] at fresh
  have same_limits : (rollDay p.store.budget (utcDay now)).limits = p.store.budget.limits := by
    unfold rollDay
    split <;> rfl
  have same_active : (rollDay p.store.budget (utcDay now)).active = p.store.budget.active := by
    unfold rollDay
    split <;> rfl
  cases random with
  | none => cases h
  | some raw =>
    dsimp only at h
    split at h
    case h_1 => cases h
    case h_2 active added =>
      obtain ⟨s₁, provided, h⟩ := of_bind h
      obtain ⟨sealed, written, rfl⟩ := writeProviderJob_ok provided
      cases h
      rw [same_limits, decide_eq_false_iff_not, not_le] at calls room
      rw [same_active] at room added
      refine ⟨_, _, rfl, .claimed (not_eq_false_iff.1 enabled) ⟨found, scanned, written, rfl, rfl⟩ fresh.1 fresh.2 rfl rfl
        (not_eq_false_iff.1 parses) ?_ calls room added⟩
      intro old known
      simpa [known] using later

theorem finishProvider_wrote {token : GoString} {output : List UInt8} {succeeded : Bool}
    (h : finishProvider c p.store k token output succeeded = .ok change) :
    ∃ s' a, change = .commit s' a ∧ Wrote c p (.finishProvider k token output succeeded) s' := by
  obtain ⟨b, read_budget, h⟩ := of_bind h
  obtain rfl := readBudget_eq read_budget
  obtain ⟨claimed, h⟩ := of_refuse h
  obtain ⟨read, got, h⟩ := of_bind h
  obtain ⟨row, found, scanned⟩ := get_ok got
  obtain ⟨was, h⟩ := of_refuse h
  rw [bne_eq_false_iff_eq] at was
  cases succeeded with
  | true =>
    have h := past_refuse h
    obtain ⟨s₁, provided, h⟩ := of_bind h
    obtain ⟨sealed, written, rfl⟩ := writeProviderJob_ok provided
    cases h
    obtain ⟨a, held, claim⟩ := (Option.any_eq_true _ _).1 (not_eq_false_iff.1 claimed)
    exact ⟨_, _, rfl, .finished ⟨found, scanned, written, rfl, rfl⟩ held (of_decide_eq_true claim) was rfl rfl⟩
  | false =>
    obtain ⟨s₁, provided, h⟩ := of_bind h
    obtain ⟨sealed, written, rfl⟩ := writeProviderJob_ok provided
    cases h
    exact ⟨_, _, rfl, .failed ⟨found, scanned, written, rfl, rfl⟩ was rfl rfl⟩

theorem abandonProviderClaim_wrote {expectedRevision : Int}
    (h : abandonProviderClaim c p.store k expectedRevision = .ok change) :
    ∃ s' a, change = .commit s' a ∧ Wrote c p (.abandonProviderClaim k expectedRevision) s' := by
  obtain ⟨b, read_budget, h⟩ := of_bind h
  obtain rfl := readBudget_eq read_budget
  have h := past_refuse h
  obtain ⟨read, got, h⟩ := of_bind h
  obtain ⟨row, found, scanned⟩ := get_ok got
  have h := past_refuse h
  obtain ⟨phase, h⟩ := of_refuse h
  split at h
  case h_1 => cases h
  case h_2 a claim =>
    split at h
    case isTrue was =>
      obtain ⟨s₁, provided, h⟩ := of_bind h
      obtain ⟨sealed, written, rfl⟩ := writeProviderJob_ok provided
      cases h
      exact ⟨_, _, rfl, .abandoned ⟨found, scanned, written, rfl, rfl⟩ claim was rfl rfl⟩
    case isFalse other =>
      cases h
      simp only [Bool.and_eq_false_iff, bne_eq_false_iff_eq] at phase
      exact ⟨_, _, rfl, .released found scanned claim (phase.resolve_right other)⟩

/-! ## Only a commit fails with the database's error -/

theorem encode_avoids (j : Job) : Avoids .database (encode c j) := by
  refine .refuse_bind ?_
  cases marshal j.data with
  | none => exact .error
  | some plain => exact .ok _

theorem scan_avoids (row : JobRow) : Avoids .database (scan c row) := by
  refine .refuse_bind ?_
  cases unmarshal row.sealed.plain with
  | none => exact .error
  | some d => exact .refuse_bind (.ok _)

theorem get_avoids (s : Store) (k : JobKey) : Avoids .database (get c s k) := by
  cases found : s.jobs.find? k with
  | none =>
    rw [get, found]
    exact .error
  | some row =>
    rw [get_eq found]
    exact scan_avoids row

theorem readBudget_avoids (s : Store) : Avoids .database (readBudget c s) := by
  refine .refuse_bind (Avoids.bind ?_ fun _ => .refuse_bind (.ok _))
  rw [checkDay]
  cases s.budget.day with
  | none | some => exact .refuse

theorem writeProviderJob_avoids (s : Store) (j : Job) : Avoids .database (writeProviderJob c s j) :=
  (encode_avoids j).bind fun _ => .ok _

theorem claimProvider_avoids (random : Option (Fin 32 → UInt8)) (s : Store) (expected : Job) (now : Timestamp) :
    Avoids .database (claimProvider c random s expected now) := by
  refine (readBudget_avoids s).bind fun b => .refuse_bind <| (get_avoids s _).bind fun j =>
    .refuse_bind <| .refuse_bind <| .refuse_bind <| .refuse_bind <| .refuse_bind <| .refuse_bind ?_
  cases random with
  | none => exact .error
  | some raw =>
    dsimp only
    cases (rollDay b (utcDay now)).active.insert ⟨.ofString (hexEncode raw), j.projectID, j.askID⟩ with
    | none => exact .error
    | some active => exact (writeProviderJob_avoids s _).bind fun _ => .ok _

theorem finishProvider_avoids (s : Store) (k : JobKey) (token : GoString) (output : List UInt8) (succeeded : Bool) :
    Avoids .database (finishProvider c s k token output succeeded) := by
  refine (readBudget_avoids s).bind fun b => .refuse_bind <| (get_avoids s _).bind fun j => .refuse_bind ?_
  cases succeeded with
  | true => exact .refuse_bind <| (writeProviderJob_avoids s _).bind fun _ => .ok _
  | false => exact (writeProviderJob_avoids s _).bind fun _ => .ok _

theorem abandonProviderClaim_avoids (s : Store) (k : JobKey) (expectedRevision : Int) :
    Avoids .database (abandonProviderClaim c s k expectedRevision) := by
  refine (readBudget_avoids s).bind fun b => .refuse_bind <| (get_avoids s _).bind fun j =>
    .refuse_bind <| .refuse_bind ?_
  cases claimOf b k with
  | none => exact .error
  | some a =>
    by_cases was : j.phase = .providerStarted
    · simp only [if_pos was]
      exact (writeProviderJob_avoids s _).bind fun _ => .ok _
    · simp only [if_neg was]
      exact .ok _

theorem setEnabled_avoids (s : Store) (enabled : Bool) : Avoids .database (setEnabled c s enabled) :=
  (readBudget_avoids s).bind fun _ => .ok _

/-! ## Steps -/

/-- A call on the database leaves it alone or writes; a call on the budget that commits has written. -/
theorem transact_wrote {α : Type} {q : System} {call : Call} {result : Except Error (Change Store α)} {answer : α → Answer}
    (steps : step c p call = q.transact call.commit result answer) (same : q.store = p.store)
    (writes : ∀ s' a, result = .ok (.commit s' a) → Wrote c p call.op s')
    (always : call.op.ofBudget → ∀ change, result = .ok change → ∃ s' a, change = .commit s' a)
    (honest : call.op.ofBudget → Avoids .database result) :
    ((step c p call).1.store = p.store ∧ (call.op.ofBudget → committed (Event.of (step c) p call) = false)) ∨
      Wrote c p call.op (step c p call).1.store ∧ committed (Event.of (step c) p call) := by
  unfold committed
  rw [Event.of_output, Event.of_input, steps]
  unfold System.transact
  rw [same]
  match result with
  | .error e =>
    refine .inl ⟨rfl, fun budget => ?_⟩
    change (e == Error.database && _) = false
    rw [beq_eq_false_iff_ne.2 fun lost => honest budget (congrArg _ lost), Bool.false_and]
  | .ok (.answer a) =>
    refine .inl ⟨rfl, fun budget => ?_⟩
    obtain ⟨s', b, impossible⟩ := always budget _ rfl
    cases impossible
  | .ok (.commit s' a) =>
    have wrote := writes s' a rfl
    cases called : call.commit with
    | made => exact .inr ⟨wrote, rfl⟩
    | failed => exact .inl ⟨rfl, fun _ => rfl⟩
    | ambiguous => exact .inr ⟨wrote, rfl⟩

/-- A step leaves the database alone or writes. A call on the budget has committed exactly when it has written. -/
theorem step_wrote (c : Config) (p : System) (call : Call) :
    ((step c p call).1.store = p.store ∧ (call.op.ofBudget → committed (Event.of (step c) p call) = false)) ∨
      Wrote c p call.op (step c p call).1.store ∧ committed (Event.of (step c) p call) := by
  obtain ⟨op, commit⟩ := call
  cases op with
  | insert projectID askID d =>
    refine transact_wrote (q := p) rfl rfl (fun s' a h => ?_) nofun nofun
    obtain ⟨is_new, sealed, written, added, same⟩ := insert_commit h
    rw [same]
    exact .inserted is_new written added
  | compareAndSwap | revoke =>
    refine .inl ⟨?_, nofun⟩
    change (p.hold _).1.store = p.store
    unfold System.hold
    split <;> rfl
  | update i =>
    cases held : p.updates[i]? with
    | none =>
      have steps : step c p ⟨.update i, commit⟩ = (p, .error .invalid) := by
        unfold step
        dsimp only
        rw [held]
      refine .inl ⟨by rw [steps], nofun⟩
    | some u =>
      have steps : step c p ⟨.update i, commit⟩ =
          System.transact { p with updates := p.updates.eraseIdx i } commit (u.apply p.store) .job := by
        unfold step
        dsimp only
        rw [held]
      refine transact_wrote steps rfl (fun s' a h => ?_) nofun nofun
      obtain ⟨row, found, -, phase, revoked, -, rfl⟩ := Update.apply_ok h
      exact .updated held found phase revoked
  | claimProvider expected now random =>
    refine transact_wrote (q := p) rfl rfl (fun s' a h => ?_) (fun _ change h => ?_) fun _ => claimProvider_avoids _ _ _ _
    · obtain ⟨s'', a', same, wrote⟩ := claimProvider_wrote h
      cases same
      exact wrote
    · obtain ⟨s'', a', same, -⟩ := claimProvider_wrote h
      exact ⟨s'', a', same⟩
  | finishProvider k token output succeeded =>
    refine transact_wrote (q := p) rfl rfl (fun s' a h => ?_) (fun _ change h => ?_) fun _ => finishProvider_avoids _ _ _ _ _
    · obtain ⟨s'', a', same, wrote⟩ := finishProvider_wrote h
      cases same
      exact wrote
    · obtain ⟨s'', a', same, -⟩ := finishProvider_wrote h
      exact ⟨s'', a', same⟩
  | abandonProviderClaim k expectedRevision =>
    refine transact_wrote (q := p) rfl rfl (fun s' a h => ?_) (fun _ change h => ?_) fun _ => abandonProviderClaim_avoids _ _ _
    · obtain ⟨s'', a', same, wrote⟩ := abandonProviderClaim_wrote h
      cases same
      exact wrote
    · obtain ⟨s'', a', same, -⟩ := abandonProviderClaim_wrote h
      exact ⟨s'', a', same⟩
  | setEnabled enabled =>
    refine transact_wrote (q := p) rfl rfl (fun s' a h => ?_) (fun _ change h => ?_) fun _ => setEnabled_avoids _ _
    · obtain ⟨b, read_budget, h⟩ := of_bind h
      obtain rfl := readBudget_eq read_budget
      cases h
      exact .switched
    · obtain ⟨b, read_budget, h⟩ := of_bind h
      cases h
      exact ⟨_, _, rfl⟩
  | get | reopen => exact .inl ⟨rfl, nofun⟩

/-- The updates that are still to be made after a step were so before it, or the step prepared them. -/
theorem step_updates (c : Config) (p : System) (call : Call) {u : Update} (mem : u ∈ (step c p call).1.updates) :
    u ∈ p.updates ∨ (∃ expected next d, call.op = .compareAndSwap expected next d ∧
      prepareSwap c p.store expected next d = .ok u) ∨
    ∃ expected, call.op = .revoke expected ∧ prepareRevoke c p.store expected = .ok u := by
  obtain ⟨op, commit⟩ := call
  have holds : ∀ {result : Except Error Update}, u ∈ (p.hold result).1.updates → u ∈ p.updates ∨ result = .ok u := by
    intro result mem
    cases result with
    | error e => exact .inl mem
    | ok v =>
      rcases List.mem_append.1 mem with old | new
      · exact .inl old
      · exact .inr (congrArg _ (List.mem_singleton.1 new).symm)
  cases op with
  | compareAndSwap expected next d =>
    rcases holds mem with old | prepared
    · exact .inl old
    · exact .inr (.inl ⟨expected, next, d, rfl, prepared⟩)
  | revoke expected =>
    rcases holds mem with old | prepared
    · exact .inl old
    · exact .inr (.inr ⟨expected, rfl, prepared⟩)
  | update i =>
    refine .inl ?_
    unfold step at mem
    dsimp only at mem
    split at mem
    · exact mem
    · exact List.mem_of_mem_eraseIdx mem
  | insert | claimProvider | finishProvider | abandonProviderClaim | setEnabled | get | reopen => exact .inl mem

end Pagnet.Textbridge
