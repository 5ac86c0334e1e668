import Pagnet.Textbridge.Run

/-!
# Sound ledgers

What `readBudget` and `List` check holds of every ledger that is reached by calls
that name jobs in valid UTF-8 and do not exhaust the numbers of the budget's revisions. The
budget and the jobs agree: a job that was started is claimed, and what is claimed was
started and has not been finished.
-/

namespace Pagnet.Textbridge
open Json List

/-- A job whose row is read back. -/
structure Job.Sound (c : Config) (j : Job) (sealed : Sealed) : Prop where
  written : encode c j = .ok sealed
  project : j.projectID.isValid
  ask : j.askID.isValid

/-- An update that moves a job along. -/
structure Update.Sound (c : Config) (u : Update) : Prop where
  job : u.job.Sound c u.sealed
  revoked : u.expected.revoked → u.job.revoked
  queued : u.job.phase = .queued → u.expected.phase = .queued
  started : u.job.phase = .providerStarted ↔ u.expected.phase = .providerStarted
  unknown : u.expected.phase = .unknown → u.job.phase = .unknown

/-- The phases of a job that holds a claim. -/
def Phase.held (phase : Phase) : Prop := phase = .providerStarted ∨ phase = .unknown

/-- What is claimed was started and has not been finished, and what was started is claimed. -/
structure Linked (jobs : Relation JobRow JobKey JobRow.key) (active : Relation Active GoString Active.token) : Prop where
  held : ∀ a ∈ active, ∃ row ∈ jobs, row.key = a.claim ∧ row.phase.held
  started : ∀ row ∈ jobs, row.phase = .providerStarted → ∃ a ∈ active, a.claim = row.key

/-- A budget within its limits. -/
structure Budget.Sound (c : Config) (b : Budget) : Prop where
  limits : b.limits = c.limits
  calls : 0 ≤ b.calls ∧ b.calls ≤ c.limits.callsPerDay
  room : (b.active.rows.length : Int) ≤ c.limits.maxConcurrent
  unused : b.day = none → b.calls = 0 ∧ b.active.rows = []
  day : ∀ day, b.day = some day → validDay day
  tokens : ∀ a ∈ b.active, validDigest a.token
  claims : (b.active.rows.map Active.claim).Nodup

structure Store.Sound (c : Config) (s : Store) : Prop where
  rows : ∀ row ∈ s.jobs, ∃ j : Job, j.Sound c row.sealed ∧ row = j.row row.sealed
  revision : 1 ≤ s.revision
  budget : s.budget.Sound c
  linked : Linked s.jobs s.budget.active

structure System.Sound (c : Config) (p : System) : Prop where
  store : p.store.Sound c
  updates : ∀ u ∈ p.updates, u.Sound c

/-- A call that keeps a ledger readable. -/
def Admissible (p : System) (call : Call) : Prop :=
  match call.op with
  | .insert projectID askID _ => projectID.isValid ∧ askID.isValid
  | .claimProvider .. | .finishProvider .. | .abandonProviderClaim .. | .setEnabled .. => p.store.revision < maxInt64
  | _ => True

instance (p : System) (call : Call) : Decidable (Admissible p call) :=
  match call with
  | ⟨.insert projectID askID _, _⟩ => inferInstanceAs (Decidable (projectID.isValid = true ∧ askID.isValid = true))
  | ⟨.claimProvider .., _⟩ | ⟨.finishProvider .., _⟩ | ⟨.abandonProviderClaim .., _⟩ | ⟨.setEnabled .., _⟩ =>
    inferInstanceAs (Decidable (p.store.revision < maxInt64))
  | ⟨.compareAndSwap .., _⟩ | ⟨.revoke .., _⟩ | ⟨.update .., _⟩ | ⟨.get .., _⟩ | ⟨.reopen, _⟩ => inferInstanceAs (Decidable True)

variable {c : Config} {s : Store}

/-! ## Reading -/

variable {v : Value} {j : Job} {sealed : Sealed} {row : JobRow} {k : JobKey} {a : Active} {b : Budget}
    {active : Relation Active GoString Active.token} {jobs : Relation JobRow JobKey JobRow.key}
    {token : GoString}

/-- What is read of a row of a sound ledger. -/
theorem Store.Sound.read (sound : s.Sound c) (mem : row ∈ s.jobs) :
    ∃ read : Job, Textbridge.scan c row = .ok read ∧ read.projectID.isValid ∧ read.askID.isValid := by
  obtain ⟨j, job, same⟩ := sound.rows row mem
  obtain ⟨header, receipt, -, -, scanned⟩ := scan_row job.written
  exact ⟨_, (congrArg _ same).trans scanned, job.project, job.ask⟩

/-- A job that follows one that was read is sound. -/
theorem Store.Sound.follow (sound : s.Sound c) {read : Job}
    (found : s.jobs.find? k = some row) (scanned : Textbridge.scan c row = .ok read) (written : encode c j = .ok sealed)
    (key : j.key = read.key) : j.Sound c sealed := by
  obtain ⟨read', scanned', project, ask⟩ := sound.read (Relation.find?_eq_some.1 found).1
  rw [scanned] at scanned'
  cases scanned'
  have same_project : j.projectID = read.projectID := congrArg Prod.fst key
  have same_ask : j.askID = read.askID := congrArg Prod.snd key
  exact ⟨written, same_project ▸ project, same_ask ▸ ask⟩

theorem duplicates_eq_false {as : List Active} : duplicates as = false ↔ (as.map Active.claim).Nodup := by
  induction as with
  | nil => simp [duplicates]
  | cons a as ih =>
    rw [duplicates, Bool.or_eq_false_iff, ih, map_cons, nodup_cons]
    simp

theorem Store.Sound.named (sound : s.Sound c) (mem : a ∈ s.budget.active) :
    a.projectID ≠ [] ∧ a.askID ≠ [] ∧ a.coerce = a := by
  obtain ⟨row, inside, key, -⟩ := sound.linked.held a mem
  obtain ⟨j, job, same⟩ := sound.rows row inside
  obtain ⟨project, ask, -⟩ := encode_ok job.written
  rw [same] at key
  have same_project : j.projectID = a.projectID := congrArg Prod.fst key
  have same_ask : j.askID = a.askID := congrArg Prod.snd key
  have valid_project := job.project
  have valid_ask := job.ask
  rw [same_project] at project valid_project
  rw [same_ask] at ask valid_ask
  refine ⟨project, ask, ?_⟩
  unfold Active.coerce
  rw [GoString.coerce_of_valid valid_project, GoString.coerce_of_valid valid_ask]

/-- A sound ledger is opened. -/
theorem Store.Sound.readBudget (sound : s.Sound c) : Textbridge.readBudget c s = .ok s.budget := by
  have revision := sound.revision
  obtain ⟨nonneg, within⟩ := sound.budget.calls
  have room := sound.budget.room
  have first : (decide (s.revision < 1) || s.budget.limits != c.limits || !s.budget.limits.valid ||
      decide (s.budget.calls < 0) || decide (s.budget.limits.callsPerDay < s.budget.calls) ||
      decide (s.budget.limits.maxConcurrent < s.budget.active.rows.length)) = false := by
    rw [sound.budget.limits]
    simp [c.valid, revision, nonneg, within, room]
  have second : checkDay s.budget = .ok () := by
    unfold checkDay
    split
    case h_1 none_day => simp [sound.budget.unused none_day]
    case h_2 day some_day => simp [sound.budget.day day some_day]
  have third : (s.budget.active.rows.any (fun a => !validDigest a.token || a.projectID == [] || a.askID == []) ||
      duplicates s.budget.active.rows) = false := by
    rw [Bool.or_eq_false_iff, duplicates_eq_false, any_eq_false]
    refine ⟨fun a mem => ?_, sound.budget.claims⟩
    obtain ⟨project, ask, -⟩ := sound.named mem
    rw [sound.budget.tokens a mem, beq_eq_false_iff_ne.2 project, beq_eq_false_iff_ne.2 ask]
    decide
  unfold Textbridge.readBudget
  dsimp only
  rw [first, third, second]
  rfl

theorem Store.Sound.list (sound : s.Sound c) : ∃ jobs, Textbridge.list c s = .ok jobs := by
  refine mapM_succeeds fun row mem => ?_
  obtain ⟨j, scanned, -⟩ := sound.read mem
  exact ⟨j, scanned⟩

/-! ## Writes -/

/-- The claims of a sound budget go through JSON unchanged. -/
theorem writeBudget_budget (s : Store) (plain : ∀ a ∈ b.active, a.coerce = a) : (writeBudget s b).budget = b := by
  have same : b.active.modify (fun _ => true) Active.coerce token_coerce = b.active := by
    apply Relation.ext
    refine (map_congr_left fun a mem => ?_).trans (map_id _)
    simpa using plain a mem
  unfold writeBudget
  rw [same]

theorem increment_eq {n : Int} (low : 1 ≤ n) (high : n < maxInt64) : increment n = n + 1 := by
  unfold increment maxInt64 at *
  rw [Int.bmod_def]
  omega

theorem mem_updateJob (found : s.jobs.find? j.key = some row) (b : JobRow) :
    b ∈ (updateJob s j sealed).jobs ↔ b = j.row sealed ∨ b ∈ s.jobs ∧ b.key ≠ j.key := by
  obtain ⟨mem, key⟩ := Relation.find?_eq_some.1 found
  have same : overwrite j sealed row = j.row sealed := by
    have project : row.projectID = j.projectID := congrArg Prod.fst key
    have ask : row.askID = j.askID := congrArg Prod.snd key
    simp [overwrite, Job.row, project, ask]
  unfold updateJob
  rw [Relation.mem_modify_one mem (decide_eq_true key) fun x _ also => (of_decide_eq_true also).trans key.symm, same, key]

theorem Store.Sound.rows_update (sound : s.Sound c) (found : s.jobs.find? j.key = some row) (job : j.Sound c sealed) :
    ∀ b ∈ (updateJob s j sealed).jobs, ∃ j : Job, j.Sound c b.sealed ∧ b = j.row b.sealed := by
  intro b mem
  rcases (mem_updateJob found b).1 mem with rfl | ⟨old, -⟩
  · exact ⟨j, job, rfl⟩
  · exact sound.rows b old

/-- One job moves, and only its claims change. -/
theorem Linked.move {jobs' : Relation JobRow JobKey JobRow.key} {active' : Relation Active GoString Active.token}
    (linked : Linked jobs active) (k : JobKey) (row : JobRow) (key : row.key = k)
    (moved : ∀ b, b ∈ jobs' ↔ b = row ∨ b ∈ jobs ∧ b.key ≠ k) (others : ∀ a, a.claim ≠ k → (a ∈ active' ↔ a ∈ active))
    (held : ∀ a ∈ active', a.claim = k → row.phase.held)
    (started : row.phase = .providerStarted → ∃ a ∈ active', a.claim = k) : Linked jobs' active' := by
  constructor
  · intro a mem
    by_cases claim : a.claim = k
    · exact ⟨row, (moved row).2 (.inl rfl), key.trans claim.symm, held a mem claim⟩
    · obtain ⟨b, inside, same, phase⟩ := linked.held a ((others a claim).1 mem)
      exact ⟨b, (moved b).2 (.inr ⟨inside, same ▸ claim⟩), same, phase⟩
  · intro b inside phase
    rcases (moved b).1 inside with rfl | ⟨old, other⟩
    · rw [key]
      exact started phase
    · obtain ⟨a, mem, claim⟩ := linked.started b old phase
      exact ⟨a, (others a (claim ▸ other)).2 mem, claim⟩

/-- The claims of a job hold it in its phase. -/
theorem Linked.phase (linked : Linked jobs active) (mem : a ∈ active) (found : jobs.find? a.claim = some row) :
    row.phase.held := by
  obtain ⟨b, inside, same, phase⟩ := linked.held a mem
  rw [Relation.find?_eq_some.2 ⟨inside, same⟩] at found
  cases found
  exact phase

/-- A job has one claim at most. -/
theorem Budget.Sound.unique (sound : b.Sound c) {a' : Active} (mem : a ∈ b.active) (mem' : a' ∈ b.active)
    (same : a.claim = a'.claim) : a = a' := inj_on_of_nodup_map sound.claims mem mem' same

theorem mem_release : a ∈ (release b token).active ↔ a ∈ b.active ∧ a.token ≠ token := by
  unfold release
  rw [Relation.mem_filter]
  simp

/-- What is released is the claim of its job, and nothing else. -/
theorem Budget.Sound.mem_released (sound : b.Sound c) {x : Active} (mem : a ∈ b.active) :
    x ∈ (release b a.token).active ↔ x ∈ b.active ∧ x.claim ≠ a.claim := by
  rw [mem_release]
  refine and_congr_right fun inside => not_congr ⟨fun same => ?_, fun same => ?_⟩
  · rw [Relation.eq_of_key inside mem same]
  · rw [sound.unique inside mem same]

theorem Budget.Sound.release (sound : b.Sound c) (mem : a ∈ b.active) : (Textbridge.release b token).Sound c := by
  have shorter : (Textbridge.release b token).active.rows.length ≤ b.active.rows.length := length_filter_le _ _
  have room := sound.room
  constructor
  case limits => exact sound.limits
  case calls => exact sound.calls
  case room => omega
  case unused =>
    intro none_day
    have empty := (sound.unused none_day).2
    change a ∈ b.active.rows at mem
    rw [empty] at mem
    cases mem
  case day => exact sound.day
  case tokens => exact fun x inside => sound.tokens x (mem_release.1 inside).1
  case claims => exact sound.claims.sublist (filter_sublist.map _)

theorem validDigest_token (raw : Fin 32 → UInt8) : validDigest (.ofString (hexEncode raw)) := by
  unfold validDigest GoString.ofString
  rw [length_map, length_hexEncode, all_map]
  rw [Bool.and_eq_true, all_eq_true]
  exact ⟨rfl, fun ch mem => isHex_of_lower (lower_hexEncode raw ch mem)⟩

/-- The day of a claim begins, or goes on with the calls it has. -/
theorem rollDay_cases (b : Budget) (day : Int) :
    (b.day = some day ∨ (∃ old, b.day = some old ∧ day < old)) ∧ rollDay b day = b ∨
      (∀ old, b.day = some old → old < day) ∧ rollDay b day = { b with day := some day, calls := 0 } := by
  unfold rollDay
  cases known : b.day with
  | none => exact .inr ⟨nofun, rfl⟩
  | some old =>
    by_cases earlier : old < day
    · refine .inr ⟨fun x same => ?_, by simp [earlier]⟩
      cases same
      exact earlier
    · refine .inl ⟨?_, by simp [earlier]⟩
      rcases Int.lt_or_eq_of_le (not_lt.1 earlier) with later | same
      · exact .inr ⟨old, rfl, later⟩
      · exact .inl (congrArg some same.symm)

/-- A claim that is within the limits. -/
theorem Budget.Sound.claim (sound : b.Sound c) {now : Timestamp} {raw : Fin 32 → UInt8}
    (parses : validDay (utcDay now))
    (later : ∀ old, b.day = some old → old ≤ utcDay now) (calls : (rollDay b (utcDay now)).calls < b.limits.callsPerDay)
    (room : (b.active.rows.length : Int) < b.limits.maxConcurrent) (fresh : ∀ a ∈ b.active, a.claim ≠ k)
    (added : b.active.insert ⟨.ofString (hexEncode raw), k.1, k.2⟩ = some active) :
    Budget.Sound c { rollDay b (utcDay now) with active, calls := (rollDay b (utcDay now)).calls + 1 } := by
  obtain ⟨-, rows⟩ := Relation.insert_eq_some added
  obtain ⟨nonneg, -⟩ := sound.calls
  have length : active.rows.length = b.active.rows.length + 1 := by simp [rows]
  rw [sound.limits] at calls room
  have rolled : (rollDay b (utcDay now)).limits = b.limits ∧ (rollDay b (utcDay now)).day = some (utcDay now) ∧
      0 ≤ (rollDay b (utcDay now)).calls := by
    rcases rollDay_cases b (utcDay now) with ⟨today | ⟨old, known, before⟩, same⟩ | ⟨-, same⟩
    · rw [same]
      exact ⟨rfl, today, nonneg⟩
    · have := later old known
      omega
    · rw [same]
      exact ⟨rfl, rfl, Int.le_refl 0⟩
  obtain ⟨limits, day, counted⟩ := rolled
  constructor
  case limits => exact limits.trans sound.limits
  case calls =>
    change 0 ≤ (rollDay b (utcDay now)).calls + 1 ∧ (rollDay b (utcDay now)).calls + 1 ≤ _
    omega
  case room =>
    change (active.rows.length : Int) ≤ _
    omega
  case unused =>
    intro none_day
    rw [day] at none_day
    cases none_day
  case day =>
    intro x known
    rw [day] at known
    cases known
    exact parses
  case tokens =>
    intro a mem
    rcases (Relation.mem_insert added).1 mem with old | rfl
    · exact sound.tokens a old
    · exact validDigest_token raw
  case claims =>
    rw [rows, map_append, nodup_append]
    refine ⟨sound.claims, nodup_singleton _, ?_⟩
    rintro x listed y new rfl
    obtain ⟨a, mem, claim⟩ := mem_map.1 listed
    rw [mem_singleton.1 new] at claim
    exact fresh a mem claim

end Pagnet.Textbridge
