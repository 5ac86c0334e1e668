import Pagnet.Textbridge.Sound

/-!
# What a step does to a sound ledger

Every admissible step keeps a ledger sound. A job is never removed, stays revoked
once it is, and never returns to the queue.
-/

namespace Pagnet.Textbridge
open Json List Pagnet.Relation

variable {c : Config} {p : System} {s' : Store}

/-! ## The updates that wait -/

variable {next : Phase} {expected j read : Job} {s : Store} {u : Update} {k : JobKey} {row : JobRow}
    {sealed : Sealed} {b : Budget}

theorem Store.Sound.prepared (sound : s.Sound c)
    (prepared : prepare c s expected j = .ok u) (key : j.key = expected.key) : u.job.Sound c u.sealed := by
  obtain ⟨stored, got, -, -, -, -, job, written⟩ := prepare_ok prepared
  obtain ⟨row, found, scanned⟩ := get_ok got
  have same : stored.key = expected.key := (scan_ok scanned).1.trans (find?_eq_some.1 found).2
  refine sound.follow found scanned written ?_
  rw [job]
  split <;> exact key.trans same.symm

theorem Update.Sound.swap {d : Data} (sound : p.store.Sound c)
    (prepared : prepareSwap c p.store expected next d = .ok u) : u.Sound c := by
  obtain ⟨starts, was, permitted, prepared⟩ := prepareSwap_ok prepared
  obtain ⟨fresh, open_⟩ : next ≠ .queued ∧ expected.phase ≠ .unknown := by
    revert permitted
    cases expected.phase <;> cases next <;> simp_all [allowed]
  have job := sound.prepared prepared rfl
  obtain ⟨stored, -, -, -, -, same, is_job, -⟩ := prepare_ok prepared
  have phase : u.job.phase = next := by rw [is_job]; split <;> rfl
  have revoked : u.job.revoked = expected.revoked := by rw [is_job]; split <;> rfl
  constructor
  case job => exact job
  case revoked => rw [same, revoked]; exact id
  case queued => rw [phase]; exact fun is_queued => absurd is_queued fresh
  case started => rw [same, phase]; exact iff_of_false starts was
  case unknown => rw [same]; exact fun is_unknown => absurd is_unknown open_

theorem Update.Sound.revoke (sound : p.store.Sound c)
    (prepared : prepareRevoke c p.store expected = .ok u) : u.Sound c := by
  obtain ⟨free, prepared⟩ := of_refuse prepared
  have job := sound.prepared prepared rfl
  obtain ⟨stored, -, -, -, -, same, is_job, -⟩ := prepare_ok prepared
  have phase : u.job.phase = expected.phase := by rw [is_job]; split <;> rfl
  have revoked : u.job.revoked := by rw [is_job]; split <;> rfl
  constructor
  case job => exact job
  case revoked => exact fun _ => revoked
  case queued => rw [same, phase]; exact id
  case started => rw [same, phase]
  case unknown => rw [same, phase]; exact id

/-! ## Soundness -/

/-- What is read and followed, and where it stands. -/
theorem Follows.at (follows : Follows c s k row read j sealed) :
    j.key = k ∧ row.key = k ∧ read.phase = row.phase ∧ read.revoked = row.revoked ∧ s.jobs.find? j.key = some row := by
  obtain ⟨mem, at_key⟩ := find?_eq_some.1 follows.found
  obtain ⟨key, -, phase, revoked, -⟩ := scan_ok follows.scanned
  have same : j.key = k := follows.key.trans (key.trans at_key)
  exact ⟨same, at_key, phase, revoked, same ▸ follows.found⟩

/-- A job and the budget are written together. -/
theorem Store.Sound.provider (sound : s.Sound c) (low : s.revision < maxInt64)
    (follows : Follows c s k row read j sealed) (budget : b.Sound c)
    (claims : ∀ a ∈ b.active, a ∈ s.budget.active ∨ a.claim = k)
    (others : ∀ a, a.claim ≠ k → (a ∈ b.active ↔ a ∈ s.budget.active)) (held : ∀ a ∈ b.active, a.claim = k → j.phase.held)
    (started : j.phase = .providerStarted → ∃ a ∈ b.active, a.claim = k) :
    (writeBudget (updateJob s j sealed) b).Sound c := by
  obtain ⟨key, -, -, -, found⟩ := follows.at
  have job := sound.follow follows.found follows.scanned follows.written follows.key
  have plain : ∀ a ∈ b.active, a.coerce = a := by
    intro a mem
    rcases claims a mem with old | claim
    · exact (sound.named old).2.2
    · have project : a.projectID = j.projectID := congrArg Prod.fst (claim.trans key.symm)
      have ask : a.askID = j.askID := congrArg Prod.snd (claim.trans key.symm)
      unfold Active.coerce
      rw [project, ask, GoString.coerce_of_valid job.project, GoString.coerce_of_valid job.ask, ← project, ← ask]
  have positive := sound.revision
  constructor
  case rows => exact sound.rows_update found job
  case revision =>
    change 1 ≤ increment s.revision
    rw [increment_eq positive low]
    omega
  case budget =>
    rw [writeBudget_budget _ plain]
    exact budget
  case linked =>
    rw [writeBudget_budget _ plain]
    refine sound.linked.move k (j.row sealed) key ?_ others held started
    intro b
    rw [← key]
    exact mem_updateJob found b

/-- The budget is written alone. -/
theorem Store.Sound.budgetOnly (sound : s.Sound c) (low : s.revision < maxInt64)
    (budget : b.Sound c) (claims : ∀ a ∈ b.active, a ∈ s.budget.active) (linked : Linked s.jobs b.active) :
    (writeBudget s b).Sound c := by
  have plain : ∀ a ∈ b.active, a.coerce = a := fun a mem => (sound.named (claims a mem)).2.2
  have positive := sound.revision
  constructor
  case rows => exact sound.rows
  case revision =>
    change 1 ≤ increment s.revision
    rw [increment_eq positive low]
    omega
  case budget =>
    rw [writeBudget_budget _ plain]
    exact budget
  case linked =>
    rw [writeBudget_budget _ plain]
    exact linked

theorem claimOf_eq_some {a : Active} (h : claimOf b k = some a) : a ∈ b.active ∧ a.claim = k :=
  ⟨mem_of_find?_eq_some h, by simpa using find?_some h⟩

/-- A new job is queued, and nothing is claimed for it. -/
theorem Store.Sound.inserted {jobs : Relation JobRow JobKey JobRow.key} (sound : s.Sound c) (job : j.Sound c sealed)
    (queued : j.phase = .queued) (added : s.jobs.insert (j.row sealed) = some jobs) : { s with jobs }.Sound c := by
  have fresh := (insert_eq_some added).1
  refine ⟨fun row mem => ?_, sound.revision, sound.budget, ?_⟩
  · rcases (mem_insert added).1 mem with old | rfl
    · exact sound.rows row old
    · exact ⟨j, job, rfl⟩
  · refine sound.linked.move j.key (j.row sealed) rfl (fun b => ?_) (fun _ _ => Iff.rfl) ?_ ?_
    · rw [mem_insert added, or_comm]
      exact or_congr_right ⟨fun old => ⟨old, fresh b old⟩, And.left⟩
    · intro a mem claim
      obtain ⟨row, inside, same, -⟩ := sound.linked.held a mem
      exact absurd (same.trans claim) (fresh row inside)
    · intro started
      cases queued.symm.trans started

/-- An update that was prepared before is made on the phase that it was prepared for. -/
theorem Store.Sound.updated (sound : s.Sound c) (update : u.Sound c) (found : s.jobs.find? u.job.key = some row)
    (phase : row.phase = u.expected.phase) : (updateJob s u.job u.sealed).Sound c := by
  refine ⟨sound.rows_update found update.job, sound.revision, sound.budget, ?_⟩
  refine sound.linked.move u.job.key (u.job.row u.sealed) rfl (mem_updateJob found) (fun _ _ => Iff.rfl) ?_ ?_
  · intro a mem claim
    rcases sound.linked.phase mem (claim ▸ found) with started | unknown
    · exact .inl (update.started.2 (phase ▸ started))
    · exact .inr (update.unknown (phase ▸ unknown))
  · intro started
    obtain ⟨mem, key⟩ := find?_eq_some.1 found
    obtain ⟨a, inside, claim⟩ := sound.linked.started row mem (phase.trans (update.started.1 started))
    exact ⟨a, inside, claim.trans key⟩

/-- No one has claimed a job that is queued. -/
theorem Store.Sound.unclaimed (sound : s.Sound c) (found : s.jobs.find? k = some row) (queued : row.phase = .queued) :
    ∀ a ∈ s.budget.active, a.claim ≠ k := by
  intro a mem claim
  have phase := sound.linked.phase mem (claim ▸ found)
  rw [queued] at phase
  rcases phase with bad | bad <;> cases bad

/-- The claim on a job is given up, and the job leaves the provider. -/
theorem Store.Sound.settled {a : Active} (sound : s.Sound c) (low : s.revision < maxInt64)
    (follows : Follows c s k row read j sealed) (mem : a ∈ s.budget.active) (claim : a.claim = k)
    (ends : j.phase ≠ .providerStarted) :
    (writeBudget (updateJob s j sealed) (release s.budget a.token)).Sound c := by
  refine sound.provider low follows (sound.budget.release mem) ?_ ?_ ?_ fun started => absurd started ends
  · exact fun x inside => .inl (mem_release.1 inside).1
  · intro x other
    rw [sound.budget.mem_released mem, claim]
    exact and_iff_left other
  · intro x inside same
    exact absurd (same.trans claim.symm) ((sound.budget.mem_released mem).1 inside).2

/-- The claim on a job of unknown outcome is given up, and the job is left alone. -/
theorem Store.Sound.released {a : Active} (sound : s.Sound c) (low : s.revision < maxInt64)
    (found : s.jobs.find? k = some row) (unknown : row.phase = .unknown) (mem : a ∈ s.budget.active)
    (claim : a.claim = k) : (writeBudget s (release s.budget a.token)).Sound c := by
  obtain ⟨inside, key⟩ := find?_eq_some.1 found
  refine sound.budgetOnly low (sound.budget.release mem) (fun x inside => (mem_release.1 inside).1) ?_
  refine sound.linked.move k row key (fun b => ?_) ?_ (fun _ _ _ => .inr unknown) ?_
  · constructor
    · intro there
      by_cases same : b.key = k
      · exact .inl (eq_of_key there inside (same.trans key.symm))
      · exact .inr ⟨there, same⟩
    · rintro (rfl | ⟨there, -⟩)
      · exact inside
      · exact there
  · intro x other
    rw [sound.budget.mem_released mem, claim]
    exact and_iff_left other
  · intro started
    cases unknown.symm.trans started

theorem Store.Sound.wrote {op : Op} {commit : Commit} (sound : p.Sound c) (admissible : Admissible p ⟨op, commit⟩)
    (wrote : Wrote c p op s') : s'.Sound c := by
  obtain ⟨sound, updates⟩ := sound
  cases wrote with
  | @inserted projectID askID d j sealed jobs is_new written added =>
    have job : j.Sound c sealed := ⟨written, by rw [is_new]; exact admissible.1, by rw [is_new]; exact admissible.2⟩
    exact sound.inserted job (by rw [is_new]) added
  | updated held found phase revoked => exact sound.updated (updates _ (mem_of_getElem? held)) found phase
  | @claimed expected now raw row read j sealed active enabled follows queued free started data parses later calls room added =>
    obtain ⟨key, -, same_phase, -, -⟩ := follows.at
    have read_key : (read.projectID, read.askID) = expected.key := follows.key.symm.trans key
    have unclaimed := sound.unclaimed follows.found (same_phase.symm.trans queued)
    have added' : p.store.budget.active.insert ⟨.ofString (hexEncode raw), expected.key.1, expected.key.2⟩ = some active := by
      rw [← read_key]
      exact added
    refine sound.provider admissible follows (sound.budget.claim parses later calls room unclaimed added') ?_ ?_ ?_ ?_
    · intro a mem
      rcases (mem_insert added).1 mem with old | rfl
      · exact .inl old
      · exact .inr read_key
    · intro a other
      rw [mem_insert added]
      exact ⟨fun mem => mem.resolve_right fun same => other (same ▸ read_key), .inl⟩
    · exact fun _ _ _ => .inl started
    · exact fun _ => ⟨_, (mem_insert added).2 (.inr rfl), read_key⟩
  | finished follows found claim was ready data =>
    obtain ⟨mem, rfl⟩ := find?_eq_some.1 found
    exact sound.settled admissible follows mem claim (by rw [ready]; decide)
  | failed follows was unknown data =>
    exact sound.provider admissible follows sound.budget (fun _ mem => .inl mem) (fun _ _ => Iff.rfl)
      (fun _ _ _ => .inr unknown) fun started => by cases unknown.symm.trans started
  | abandoned follows found was unknown data =>
    obtain ⟨mem, claim⟩ := claimOf_eq_some found
    exact sound.settled admissible follows mem claim (by rw [unknown]; decide)
  | released found scanned claim unknown =>
    obtain ⟨mem, claim⟩ := claimOf_eq_some claim
    exact sound.released admissible found ((scan_ok scanned).2.2.1.symm.trans unknown) mem claim
  | switched => exact sound.budgetOnly admissible ⟨sound.budget.limits, sound.budget.calls, sound.budget.room,
      sound.budget.unused, sound.budget.day, sound.budget.tokens, sound.budget.claims⟩ (fun _ mem => mem) sound.linked

theorem step_sound {call : Call} (sound : p.Sound c) (admissible : Admissible p call) : (step c p call).1.Sound c := by
  constructor
  · rcases step_wrote c p call with ⟨same, -⟩ | ⟨wrote, -⟩
    · rw [same]
      exact sound.store
    · obtain ⟨op, commit⟩ := call
      exact .wrote sound admissible wrote
  · intro u mem
    rcases step_updates c p call mem with old | ⟨expected, next, d, -, prepared⟩ | ⟨expected, -, prepared⟩
    · exact sound.updates u old
    · exact .swap sound.store prepared
    · exact .revoke sound.store prepared

theorem sound_initial (c : Config) : System.Sound c ⟨.initial c, []⟩ := by
  have valid := c.valid
  unfold Limits.valid at valid
  rw [Bool.and_eq_true, decide_eq_true_eq, decide_eq_true_eq] at valid
  obtain ⟨calls, concurrent⟩ := valid
  have budget : Budget.Sound c (Store.initial c).budget := by
    constructor
    case limits => rfl
    case calls => exact ⟨Int.le_refl 0, calls.le⟩
    case room => exact concurrent.le
    case unused => exact fun _ => ⟨rfl, rfl⟩
    case day =>
      intro day known
      cases known
    case tokens => exact fun a mem => absurd mem (not_mem_empty a)
    case claims => exact nodup_nil
  have linked : Linked (Store.initial c).jobs (Store.initial c).budget.active :=
    ⟨fun a mem => absurd mem (not_mem_empty a), fun row mem => absurd mem (not_mem_empty row)⟩
  exact ⟨⟨fun row mem => absurd mem (not_mem_empty row), Int.le_refl 1, budget, linked⟩,
    fun u mem => absurd mem not_mem_nil⟩

end Pagnet.Textbridge
