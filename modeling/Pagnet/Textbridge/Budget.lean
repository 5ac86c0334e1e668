import Pagnet.Textbridge.Moves

/-!
# One provider call for a job, within the budget

A claim that was committed is counted whether or not its caller was told so. A run
of admissible calls claims no job twice, keeps within the calls of a day and the
concurrent calls, starts no revoked job and claims nothing while dispatch is
disabled; its ledger can be opened at any time.
-/

namespace Pagnet.Textbridge
open Json List Pagnet.Relation

/-- The event claims this job. -/
def claims (k : JobKey) (e : CallEvent) : Bool :=
  committed e && match e.input.op with
    | .claimProvider expected _ _ => expected.key = k
    | _ => false

/-- The event claims a job on this day. -/
def claimsOn (day : Int) (e : CallEvent) : Bool :=
  committed e && match e.input.op with
    | .claimProvider _ now _ => utcDay now = day
    | _ => false

/-- The event gives up the claim of this job. -/
def releases (k : JobKey) (e : CallEvent) : Bool :=
  committed e && match e.input.op with
    | .finishProvider k' _ _ succeeded => k' = k && succeeded
    | .abandonProviderClaim k' _ => k' = k
    | _ => false

/-- The event enables dispatch, or disables it. -/
def switches (enabled : Bool) (e : CallEvent) : Bool :=
  committed e && match e.input.op with
    | .setEnabled value => value == enabled
    | _ => false

/-- The job was claimed, and its claim was not given up since. -/
def Unreleased (trace : List CallEvent) (k : JobKey) : Prop :=
  ∃ front e back, trace = front ++ e :: back ∧ claims k e ∧ ∀ f ∈ back, releases k f = false

/-- What the ledger guarantees of a run. -/
structure Governed (c : Config) (trace : List CallEvent) (p : System) : Prop where
  once : ∀ k, trace.countP (claims k) ≤ 1
  daily : ∀ day, (trace.countP (claimsOn day) : Int) ≤ c.limits.callsPerDay
  concurrent : ∀ keys : List JobKey, keys.Nodup → (∀ k ∈ keys, Unreleased trace k) →
    (keys.length : Int) ≤ c.limits.maxConcurrent
  started : ∀ row ∈ p.store.jobs, row.phase = .providerStarted →
    ∃! a, a ∈ p.store.budget.active ∧ a.claim = row.key
  held : ∀ a ∈ p.store.budget.active, ∃ row ∈ p.store.jobs, row.key = a.claim ∧
    (row.phase = .providerStarted ∨ row.phase = .unknown)
  disabled : ∀ front e middle e' back k, trace = front ++ e :: (middle ++ e' :: back) → switches false e →
    claims k e' → ∃ f ∈ middle, switches true f
  revoked : ∀ front e back k row, trace = front ++ e :: back → e.before.store.jobs.find? k = some row →
    row.revoked → ∀ f ∈ e :: back, claims k f = false
  budget : ∃ b, readBudget c p.store = .ok b
  listed : ∃ jobs, list c p.store = .ok jobs

variable {c : Config} {p : System} {s' : Store} {k : JobKey}

/-! ## Jobs -/

/-- A job after it was moved. -/
structure Later (row row' : JobRow) : Prop where
  revoked : row.revoked → row'.revoked
  queued : row.phase ≠ .queued → row'.phase ≠ .queued

theorem Later.refl (row : JobRow) : Later row row := ⟨id, id⟩

variable {j : Job} {row : JobRow} {s : Store} {sealed : Sealed} {a : Active} {back : List CallEvent}
    {m : System}

theorem find?_updateJob_later (found : s.jobs.find? j.key = some row)
    (later : Later row (j.row sealed)) {x : JobRow} (known : s.jobs.find? k = some x) :
    ∃ x', (updateJob s j sealed).jobs.find? k = some x' ∧ Later x x' := by
  rcases eq_or_ne k j.key with rfl | same
  · rw [found] at known
    cases known
    exact ⟨_, find?_updateJob found, later⟩
  · refine ⟨x, ?_, .refl x⟩
    unfold updateJob
    have other : x.key ≠ j.key := fun also => same ((find?_eq_some.1 known).2.symm.trans also)
    rw [find?_modify, known, Option.map_some, if_neg (by simpa using other)]

theorem Follows.later {read : Job} (follows : Follows c s k row read j sealed)
    (moved : j.phase ≠ .queued) : Later row (j.row sealed) := by
  obtain ⟨-, -, -, revoked, -⟩ := follows.at
  refine ⟨fun was => ?_, fun _ => moved⟩
  exact follows.revoked.trans (revoked.trans was)

/-- No write removes a job, takes back its revocation or queues it again. -/
theorem Wrote.later {op : Op} (updates : ∀ u ∈ p.updates, u.Sound c) (wrote : Wrote c p op s')
    (known : p.store.jobs.find? k = some row) : ∃ row', s'.jobs.find? k = some row' ∧ Later row row' := by
  have moves : ∀ {k' : JobKey} {x : JobRow} {read j : Job} {sealed : Sealed}, Follows c p.store k' x read j sealed →
      j.phase ≠ .queued → ∃ row', (updateJob p.store j sealed).jobs.find? k = some row' ∧ Later row row' := by
    intro k' x read j sealed follows moved
    obtain ⟨-, -, -, -, found⟩ := follows.at
    exact find?_updateJob_later found (follows.later moved) known
  cases wrote with
  | @inserted projectID askID d j sealed jobs is_new written added =>
    refine ⟨row, ?_, .refl row⟩
    have other : k ≠ j.key := by
      rintro rfl
      obtain ⟨mem, key⟩ := find?_eq_some.1 known
      exact (insert_eq_some added).1 row mem key
    exact (Relation.find?_insert_of_ne added other).trans known
  | @updated i u row' held found phase revoked =>
    have update := updates u (mem_of_getElem? held)
    refine find?_updateJob_later found ⟨fun was => ?_, fun moved is_queued => ?_⟩ known
    · exact update.revoked (revoked.symm.trans was)
    · exact moved (phase.trans (update.queued is_queued))
  | claimed enabled follows queued free started => exact moves follows (by rw [started]; decide)
  | finished follows found claim was ready => exact moves follows (by rw [ready]; decide)
  | failed follows _ unknown | abandoned follows _ _ unknown => exact moves follows (by rw [unknown]; decide)
  | released | switched => exact ⟨row, known, .refl row⟩

theorem step_later (call : Call) (updates : ∀ u ∈ p.updates, u.Sound c)
    (known : p.store.jobs.find? k = some row) : ∃ row', (step c p call).1.store.jobs.find? k = some row' ∧ Later row row' := by
  rcases step_wrote c p call with ⟨same, -⟩ | ⟨wrote, -⟩
  · exact ⟨row, same ▸ known, .refl row⟩
  · exact wrote.later updates known

/-! ## Events -/

/-- A claim that was committed was written. -/
theorem claims_wrote {call : Call} (claimed : claims k (Event.of (step c) p call)) :
    ∃ expected now raw commit, call = ⟨.claimProvider expected now (some raw), commit⟩ ∧ expected.key = k ∧
      Wrote c p (.claimProvider expected now (some raw)) (step c p call).1.store := by
  obtain ⟨op, commit⟩ := call
  unfold claims at claimed
  rw [Bool.and_eq_true] at claimed
  obtain ⟨made, named⟩ := claimed
  cases op with
  | claimProvider expected now random =>
    rcases step_wrote c p ⟨.claimProvider expected now random, commit⟩ with ⟨-, lost⟩ | ⟨wrote, -⟩
    · rw [lost rfl] at made
      cases made
    · cases random with
      | none => cases wrote
      | some raw => exact ⟨expected, now, raw, commit, rfl, of_decide_eq_true named, wrote⟩
  | _ => cases named

/-- A claim finds its job queued and not revoked, dispatch enabled, and leaves it started. -/
theorem claims_moves {call : Call} (claimed : claims k (Event.of (step c) p call)) :
    p.store.budget.enabled ∧
    (∃ row, p.store.jobs.find? k = some row ∧ row.phase = .queued ∧ row.revoked = false) ∧
    ∃ row, (step c p call).1.store.jobs.find? k = some row ∧ row.phase = .providerStarted := by
  obtain ⟨expected, now, raw, commit, rfl, rfl, wrote⟩ := claims_wrote claimed
  generalize after : (step c p ⟨.claimProvider expected now (some raw), commit⟩).1.store = s at wrote
  cases wrote with
  | @claimed _ _ _ row read j sealed active enabled follows queued free started =>
    obtain ⟨key, -, phase, revoked, found⟩ := follows.at
    refine ⟨enabled, ⟨row, follows.found, phase ▸ queued, revoked ▸ free⟩, j.row sealed, ?_, started⟩
    rw [← key]
    exact find?_updateJob found

theorem mem_writeBudget {b : Budget} (mem : a ∈ b.active) (plain : a.coerce = a) :
    a ∈ (writeBudget s b).budget.active := by
  unfold writeBudget
  rw [mem_modify]
  exact ⟨a, mem, (if_pos rfl).trans plain⟩

/-- A claim stays until it is given up. -/
theorem step_active {call : Call} (sound : p.store.Sound c) (mem : a ∈ p.store.budget.active)
    (kept : releases a.claim (Event.of (step c) p call) = false) : a ∈ (step c p call).1.store.budget.active := by
  rcases step_wrote c p call with ⟨same, -⟩ | ⟨wrote, made⟩
  · exact same ▸ mem
  · obtain ⟨op, commit⟩ := call
    unfold releases at kept
    rw [made, Bool.true_and, Event.of_input] at kept
    have plain := (sound.named mem).2.2
    generalize (step c p ⟨op, commit⟩).1.store = s at wrote ⊢
    cases wrote with
    | inserted | updated => exact mem
    | claimed enabled follows queued free started data parses later calls room added =>
      exact mem_writeBudget ((mem_insert added).2 (.inl mem)) plain
    | finished follows found claim =>
      obtain ⟨inside, rfl⟩ := find?_eq_some.1 found
      refine mem_writeBudget ((sound.budget.mem_released inside).2 ⟨mem, fun same => ?_⟩) plain
      simp [same, claim] at kept
    | failed | switched => exact mem_writeBudget mem plain
    | abandoned _ found | released _ _ found =>
      obtain ⟨inside, claim⟩ := claimOf_eq_some found
      refine mem_writeBudget ((sound.budget.mem_released inside).2 ⟨mem, fun same => ?_⟩) plain
      simp [same, claim] at kept

/-- A step leaves the day and its calls alone, or it is a claim of this day. -/
theorem step_calls (c : Config) (p : System) (call : Call) :
    ((step c p call).1.store.budget.day = p.store.budget.day ∧ (step c p call).1.store.budget.calls = p.store.budget.calls ∧
      ∀ day, claimsOn day (Event.of (step c) p call) = false) ∨
    ∃ today, (∀ day, claimsOn day (Event.of (step c) p call) = decide (today = day)) ∧
      (∀ old, p.store.budget.day = some old → old ≤ today) ∧
      (step c p call).1.store.budget.day = (rollDay p.store.budget today).day ∧
      (step c p call).1.store.budget.calls = (rollDay p.store.budget today).calls + 1 := by
  rcases step_wrote c p call with ⟨same, lost⟩ | ⟨wrote, made⟩
  · refine .inl ⟨by rw [same], by rw [same], fun day => ?_⟩
    obtain ⟨op, commit⟩ := call
    unfold claimsOn
    cases op with
    | claimProvider expected now random =>
      rw [lost rfl]
      rfl
    | _ => exact Bool.and_false _
  · obtain ⟨op, commit⟩ := call
    unfold claimsOn
    rw [made, Event.of_input]
    generalize (step c p ⟨op, commit⟩).1.store = s at wrote ⊢
    cases wrote with
    | inserted | updated | finished | failed | abandoned | released | switched => exact .inl ⟨rfl, rfl, fun _ => rfl⟩
    | @claimed expected now raw row read j sealed active enabled follows queued free started data parses later =>
      exact .inr ⟨utcDay now, fun _ => rfl, later, rfl, rfl⟩

theorem rollDay_enabled (b : Budget) (day : Int) : (rollDay b day).enabled = b.enabled := by
  unfold rollDay
  split <;> rfl

/-- Dispatch stays disabled until it is enabled. -/
theorem step_disabled {call : Call} (off : p.store.budget.enabled = false)
    (kept : switches true (Event.of (step c) p call) = false) : (step c p call).1.store.budget.enabled = false := by
  rcases step_wrote c p call with ⟨same, -⟩ | ⟨wrote, made⟩
  · exact same ▸ off
  · obtain ⟨op, commit⟩ := call
    unfold switches at kept
    rw [made, Bool.true_and, Event.of_input] at kept
    generalize (step c p ⟨op, commit⟩).1.store = s at wrote ⊢
    cases wrote with
    | inserted | updated => exact off
    | claimed => exact (rollDay_enabled _ _).trans off
    | finished | failed | abandoned | released => exact off
    | @switched enabled =>
      cases enabled with
      | true => cases kept
      | false => rfl

theorem switches_wrote {call : Call} {enabled : Bool} (switched : switches enabled (Event.of (step c) p call)) :
    (step c p call).1.store.budget.enabled = enabled := by
  obtain ⟨op, commit⟩ := call
  unfold switches at switched
  rw [Bool.and_eq_true, Event.of_input] at switched
  obtain ⟨made, named⟩ := switched
  cases op with
  | setEnabled value =>
    rcases step_wrote c p ⟨.setEnabled value, commit⟩ with ⟨-, lost⟩ | ⟨wrote, -⟩
    · rw [lost rfl] at made
      cases made
    · generalize (step c p ⟨.setEnabled value, commit⟩).1.store = s at wrote ⊢
      cases wrote with
      | switched => exact eq_of_beq named
  | _ => cases named

/-! ## Runs -/

/-- What the events of a run so far say about the ledger. -/
structure History (c : Config) (trace : List CallEvent) (p : System) : Prop where
  sound : p.Sound c
  once : ∀ k, trace.countP (claims k) ≤ 1
  moved : ∀ k, 0 < trace.countP (claims k) → ∃ row, p.store.jobs.find? k = some row ∧ row.phase ≠ .queued
  daily : ∀ day, (trace.countP (claimsOn day) : Int) ≤ c.limits.callsPerDay
  charged : ∀ day, p.store.budget.day = some day → (trace.countP (claimsOn day) : Int) ≤ p.store.budget.calls
  ahead : ∀ day, (∀ old, p.store.budget.day = some old → old < day) → trace.countP (claimsOn day) = 0
  kept : ∀ k, Unreleased trace k → ∃ a ∈ p.store.budget.active, a.claim = k

variable {trace : List CallEvent} {call : Call}

theorem countP_snoc (f : CallEvent → Bool) (trace : List CallEvent) (e : CallEvent) :
    (trace ++ [e]).countP f = trace.countP f + if f e then 1 else 0 := by
  rw [countP_append, countP_singleton]

theorem Unreleased.of_snoc {e : CallEvent} (held : Unreleased (trace ++ [e]) k) :
    claims k e ∨ Unreleased trace k ∧ releases k e = false := by
  obtain ⟨front, first, back, split, claimed, kept⟩ := held
  rcases eq_nil_or_concat back with rfl | ⟨rest, last, rfl⟩
  · obtain ⟨-, same⟩ := append_inj' split rfl
    cases same
    exact .inl claimed
  · rw [concat_eq_append, ← cons_append, ← append_assoc] at split
    obtain ⟨same, is_last⟩ := append_inj' split rfl
    cases is_last
    rw [concat_eq_append] at kept
    exact .inr ⟨⟨front, first, rest, same, claimed, fun f mem => kept f (mem_append_left _ mem)⟩,
      kept _ (by simp)⟩

theorem History.step (h : History c trace p) (admissible : Admissible p call) :
    History c (trace ++ [Event.of (step c) p call]) (Textbridge.step c p call).1 := by
  have sound := step_sound h.sound admissible
  have jobs : ∀ k, (∃ row, p.store.jobs.find? k = some row ∧ row.phase ≠ .queued) →
      ∃ row, (Textbridge.step c p call).1.store.jobs.find? k = some row ∧ row.phase ≠ .queued := by
    rintro k ⟨row, known, moved⟩
    obtain ⟨row', after, later⟩ := step_later call h.sound.updates known
    exact ⟨row', after, later.queued moved⟩
  -- The calls of a day and the day that the budget is at, before and after the step.
  have days : ∀ day, (trace.countP (claimsOn day) : Int) + (if claimsOn day (Event.of (Textbridge.step c) p call) then 1 else 0)
        ≤ c.limits.callsPerDay ∧
      ((Textbridge.step c p call).1.store.budget.day = some day →
        (trace.countP (claimsOn day) : Int) + (if claimsOn day (Event.of (Textbridge.step c) p call) then 1 else 0)
          ≤ (Textbridge.step c p call).1.store.budget.calls) ∧
      ((∀ old, (Textbridge.step c p call).1.store.budget.day = some old → old < day) →
        (trace.countP (claimsOn day) : Int) + (if claimsOn day (Event.of (Textbridge.step c) p call) then 1 else 0) = 0) := by
    intro day
    have bound := sound.store.budget.calls.2
    rcases step_calls c p call with ⟨same_day, same_calls, none_claims⟩ | ⟨today, which, later, at_day, counted⟩
    · rw [none_claims day, same_day, same_calls]
      have none_ahead := h.ahead day
      refine ⟨by simpa using h.daily day, by simpa using h.charged day, fun ahead => by simpa using none_ahead ahead⟩
    · rw [which day]
      rcases rollDay_cases p.store.budget today with ⟨known | ⟨old, known, before⟩, same⟩ | ⟨fresh, same⟩
      · rw [same] at at_day counted
        rw [at_day, counted, known]
        have charged := h.charged today known
        rcases eq_or_ne today day with rfl | is_today
        · refine ⟨by omega, fun _ => by omega, fun ahead => ?_⟩
          have := ahead today rfl
          omega
        · simp only [is_today, decide_false, Bool.false_eq_true, if_false, add_zero]
          refine ⟨h.daily day, fun now => absurd (Option.some.inj now) is_today, fun ahead => ?_⟩
          have none_ahead := h.ahead day (by rw [known]; exact ahead)
          omega
      · have := later old known
        omega
      · rw [same] at at_day counted
        dsimp only at at_day counted
        rw [at_day, counted]
        rcases eq_or_ne today day with rfl | is_today
        · have none_yet := h.ahead today fresh
          refine ⟨by omega, fun _ => by omega, fun ahead => ?_⟩
          have := ahead today rfl
          omega
        · simp only [is_today, decide_false, Bool.false_eq_true, if_false, add_zero]
          refine ⟨h.daily day, fun now => absurd (Option.some.inj now) is_today, fun ahead => ?_⟩
          have beyond := ahead today rfl
          have none_ahead := h.ahead day fun old known => lt_trans (fresh old known) beyond
          omega
  constructor
  case sound => exact sound
  case once =>
    intro k
    rw [countP_snoc]
    by_cases claimed : claims k (Event.of (Textbridge.step c) p call)
    · obtain ⟨-, ⟨row, known, queued, -⟩, -⟩ := claims_moves claimed
      have none_yet : trace.countP (claims k) = 0 := by
        by_contra some_yet
        obtain ⟨row', known', moved⟩ := h.moved k (by omega)
        rw [known] at known'
        cases known'
        exact moved queued
      rw [none_yet, if_pos claimed]
    · rw [if_neg claimed]
      exact h.once k
  case moved =>
    intro k counted
    rw [countP_snoc] at counted
    by_cases claimed : claims k (Event.of (Textbridge.step c) p call)
    · obtain ⟨-, -, row, after, started⟩ := claims_moves claimed
      exact ⟨row, after, by rw [started]; decide⟩
    · rw [if_neg claimed] at counted
      exact jobs k (h.moved k counted)
  case daily =>
    intro day
    rw [countP_snoc]
    exact_mod_cast (days day).1
  case charged =>
    intro day known
    rw [countP_snoc]
    exact_mod_cast (days day).2.1 known
  case ahead =>
    intro day ahead
    rw [countP_snoc]
    exact_mod_cast (days day).2.2 ahead
  case kept =>
    intro k held
    rcases held.of_snoc with claimed | ⟨earlier, kept⟩
    · obtain ⟨-, -, row, after, started⟩ := claims_moves claimed
      obtain ⟨mem, key⟩ := find?_eq_some.1 after
      obtain ⟨a, inside, claim⟩ := sound.store.linked.started row mem started
      exact ⟨a, inside, claim.trans key⟩
    · obtain ⟨a, mem, rfl⟩ := h.kept k earlier
      exact ⟨a, step_active h.sound.store mem kept, rfl⟩

theorem history_initial (c : Config) : History c [] ⟨.initial c, []⟩ := by
  have sound := sound_initial c
  obtain ⟨nonneg, within⟩ := sound.store.budget.calls
  constructor
  case sound => exact sound
  case once => exact fun _ => Nat.zero_le _
  case moved => exact fun _ counted => absurd counted (Nat.lt_irrefl 0)
  case daily => exact fun _ => le_trans nonneg within
  case charged => exact fun _ _ => nonneg
  case ahead => exact fun _ _ => rfl
  case kept =>
    rintro k ⟨front, e, back, split, -⟩
    cases front <;> cases split

theorem reached_history (run : Reached c trace p) (admissible : ∀ e ∈ trace, Admissible e.before e.input) :
    History c trace p := by
  induction run with
  | start => exact history_initial c
  | @next trace p run call ih =>
    refine (ih fun e mem => admissible e (mem_append_left _ mem)).step ?_
    exact admissible (Event.of (step c) p call) (by simp)

/-- Dispatch that is disabled claims nothing. -/
theorem disabled_claims {middle : List CallEvent} {e' : CallEvent} (off : m.store.budget.enabled = false)
    (run : Run (step c) m (middle ++ e' :: back) p) (kept : ∀ f ∈ middle, switches true f = false) :
    claims k e' = false := by
  obtain ⟨first, is_step, -⟩ := run.place
  have still : e'.before.store.budget.enabled = false := by
    refine first.guarded (P := fun q : System => q.store.budget.enabled = false)
      (G := fun q call => switches true (Event.of (step c) q call) = false) off (fun q call => step_disabled) ?_
    intro f mem
    obtain ⟨-, is_event⟩ := first.event mem
    rw [← is_event]
    exact kept f mem
  by_contra claimed
  rw [Bool.not_eq_false, is_step] at claimed
  obtain ⟨enabled, -⟩ := claims_moves claimed
  rw [still] at enabled
  cases enabled

/-- A job that is revoked is never claimed. -/
theorem revoked_claims (sound : m.Sound c)
    (known : m.store.jobs.find? k = some row) (revoked : row.revoked) (run : Run (step c) m back p)
    (admissible : ∀ e ∈ back, Admissible e.before e.input) {f : CallEvent} (mem : f ∈ back) : claims k f = false := by
  obtain ⟨front, rest, rfl, first, is_step, -⟩ := run.split mem
  obtain ⟨-, row', still, also⟩ : f.before.Sound c ∧
      ∃ row, f.before.store.jobs.find? k = some row ∧ row.revoked := by
    refine first.guarded (P := fun q : System => q.Sound c ∧ ∃ row, q.store.jobs.find? k = some row ∧ row.revoked)
      (G := Admissible) ⟨sound, row, known, revoked⟩ ?_ fun e inside => admissible e (mem_append_left _ inside)
    rintro q call ⟨sound, row, known, revoked⟩ allowed
    obtain ⟨row', after, later⟩ := step_later call sound.updates known
    exact ⟨step_sound sound allowed, row', after, later.revoked revoked⟩
  by_contra claimed
  rw [Bool.not_eq_false, is_step] at claimed
  obtain ⟨-, ⟨x, found, -, free⟩, -⟩ := claims_moves claimed
  rw [still] at found
  cases found
  rw [also] at free
  cases free

/-- Every run of admissible calls on a ledger is governed by its budget: no job is claimed twice, the claims of a day and the
claims that are held keep within the limits, what is started is claimed once and what is claimed was started, a disabled
dispatch and a revoked job are not claimed, and the ledger can be read. -/
theorem provider_calls_governed (c : Config) (trace : List CallEvent) (p : System) (run : Reached c trace p)
    (admissible : ∀ e ∈ trace, Admissible e.before e.input) : Governed c trace p := by
  have history := reached_history run admissible
  have sound := history.sound.store
  constructor
  case once => exact history.once
  case daily => exact history.daily
  case concurrent =>
    intro keys distinct held
    have inside : keys ⊆ p.store.budget.active.rows.map Active.claim := by
      intro k mem
      obtain ⟨a, active, claim⟩ := history.kept k (held k mem)
      exact mem_map.2 ⟨a, active, claim⟩
    have shorter := (subperm_of_subset distinct inside).length_le
    rw [length_map] at shorter
    have room := sound.budget.room
    omega
  case started =>
    intro row mem started
    obtain ⟨a, inside, claim⟩ := sound.linked.started row mem started
    exact ⟨a, ⟨inside, claim⟩, fun x other => sound.budget.unique other.1 inside (other.2.trans claim.symm)⟩
  case held => exact sound.linked.held
  case disabled =>
    rintro front e middle e' back k rfl switched claimed
    obtain ⟨-, is_step, rest⟩ := run.place
    rw [is_step] at switched rest
    by_contra never
    have off := switches_wrote switched
    have none_claimed := disabled_claims (k := k) off rest fun f mem => by
      by_contra enabled
      exact never ⟨f, mem, Bool.not_eq_false _ ▸ enabled⟩
    rw [none_claimed] at claimed
    cases claimed
  case revoked =>
    rintro front e back k row rfl known revoked f mem
    obtain ⟨first, is_step, rest⟩ := run.place
    have before := reached_history first fun x inside => admissible x (mem_append_left _ inside)
    have here : Run (step c) e.before (e :: back) p := by
      rw [is_step] at rest ⊢
      exact (Run.start.next e.input).append rest
    exact revoked_claims before.sound known revoked here
      (fun x inside => admissible x (mem_append_right _ inside)) mem
  case budget => exact ⟨_, sound.readBudget⟩
  case listed => exact sound.list

/-! ## Samples -/

/-- A new job is inserted and claimed; `token` is what the random source gives. -/
def sampleClaim (ask : GoString) (token : UInt8) : List Call :=
  [⟨.insert (.ofString "project") ask (sampleData "[1]" none), .made⟩,
    ⟨.claimProvider ⟨.ofString "project", ask, 1, .queued, false, sampleData "[1]" none⟩ ⟨63900000000000000000, 0⟩
      (some fun _ => token), .made⟩]

/-- A job is claimed, and its call succeeds. -/
def sampleCalls : List Call :=
  sampleClaim (.ofString "ask") 1 ++
    [⟨.finishProvider (.ofString "project", .ofString "ask") (.ofString (hexEncode fun _ => 1)) [7] true, .made⟩, ⟨.reopen, .made⟩]

theorem provider_calls_governed_sample :
    Governed sampleConfig (traceOf (step sampleConfig) ⟨.initial sampleConfig, []⟩ sampleCalls)
      (finalState (step sampleConfig) ⟨.initial sampleConfig, []⟩ sampleCalls) ∧
    (traceOf (step sampleConfig) ⟨.initial sampleConfig, []⟩ sampleCalls).countP
      (claims (.ofString "project", .ofString "ask")) = 1 ∧
    (traceOf (step sampleConfig) ⟨.initial sampleConfig, []⟩ sampleCalls).countP
      (releases (.ofString "project", .ofString "ask")) = 1 := by
  have run : Reached sampleConfig _ _ := Run.start.inputs sampleCalls
  have checked : (∀ e ∈ traceOf (step sampleConfig) ⟨.initial sampleConfig, []⟩ sampleCalls, Admissible e.before e.input) ∧
      (traceOf (step sampleConfig) ⟨.initial sampleConfig, []⟩ sampleCalls).countP
        (claims (.ofString "project", .ofString "ask")) = 1 ∧
      (traceOf (step sampleConfig) ⟨.initial sampleConfig, []⟩ sampleCalls).countP
        (releases (.ofString "project", .ofString "ask")) = 1 := by
    decide +kernel
  exact ⟨provider_calls_governed _ _ _ run checked.1, checked.2⟩

/-- Two jobs whose names differ in a byte that is not UTF-8 are claimed. Both claims are stored under one name, and the
budget is never read again: it can neither be used nor opened. -/
theorem invalid_names_collide : ∃ trace p, Reached sampleConfig trace p ∧ trace.countP committed = 4 ∧
    (readBudget sampleConfig p.store).isOk = false ∧ (reopen sampleConfig p.store).isOk = false :=
  ⟨_, _, Run.start.inputs (sampleClaim [.inr 0xff] 1 ++ sampleClaim [.inr 0xfe] 2), by decide +kernel⟩

end Pagnet.Textbridge
