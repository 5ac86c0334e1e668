import Pagnet.Sdk.Results

/-!
# One handler run, one outcome

While a completion finds its own registration, every result message of a run carries
the one outcome that was retained for it, handlers are not started again while their
invocation is remembered, and a pending result is dropped by its own acknowledgement
only.
-/

namespace Pagnet.Sdk.Invocation
open List

/-- The invocation is in flight, or in one of the two memories of completed ones. -/
def Client.Remembers (c : Client) (id : String) : Prop :=
  c.inflight id ≠ none ∨ c.completedInvocations.find? id ≠ none ∨ id ∈ c.seenInvocations.order

/-- A handler starts for an invocation that is neither completed nor seen; and between two starts for one invocation
there is a moment in which no map knows it. -/
def NotRestarted (trace : List (Event Client Action Output)) : Prop :=
  (∀ f ∈ trace, ∀ r, f.output = .started r →
    f.before.completedInvocations.find? (f.before.dispatches r).invocationID = none ∧
      (f.before.dispatches r).invocationID ∉ f.before.seenInvocations.order) ∧
  ∀ front e middle f back, trace = front ++ e :: middle ++ f :: back → ∀ r r',
    e.output = .started r → f.output = .started r' →
      (e.before.dispatches r).invocationID = (f.before.dispatches r').invocationID →
      ∃ g ∈ middle, ¬ g.before.Remembers (e.before.dispatches r).invocationID

/-- Every result message of one run carries the same outcome, and the dispatch id that the run accepted. -/
def OneOutcome (trace : List (Event Client Action Output)) (c : Client) : Prop :=
  ∀ e ∈ trace, ∀ comp, e.output = .result comp →
    comp.result.dispatchID = (c.dispatches comp.origin).dispatchID ∧
    ∀ f ∈ trace, ∀ comp', f.output = .result comp' → comp'.origin = comp.origin → SameResult comp'.result comp.result

/-- The pending results are results of in-flight invocations, and there are not too many. -/
def PendingInflight (c : Client) : Prop :=
  (∀ p ∈ c.pendingResults, c.inflight p.id ≠ none) ∧ c.pendingResults.rows.length ≤ maxActiveInvocations

/-- The acknowledgement of exactly this pending result. -/
def AckOf (p : Pending) (action : Action) : Prop :=
  ∃ n ack, action = .acknowledge n ack ∧ ack.invocationID = p.id ∧ ack.dispatchID = p.comp.result.dispatchID ∧
    (ack.recorded ∨ ack.publicResultCode = "dispatch_rejected")

/-- A pending result stays, with the same outcome, until its own acknowledgement. -/
def DroppedByAck (trace : List (Event Client Action Output)) : Prop :=
  ∀ e ∈ trace, ∀ p ∈ e.before.pendingResults,
    (∃ q ∈ e.after.pendingResults, q.id = p.id ∧ SameResult q.comp.result p.comp.result) ∨ AckOf p e.input

variable {c : Client} {action : Action}

variable {id : String} {r i : Nat} {s : Client} {trace : List (Event Client Action Output)}

/-- A registration is new only to an invocation that nothing remembers. -/
theorem inflight_step (entry : (c.step action).1.inflight id = some r) :
    c.inflight id = some r ∨ ¬ c.Remembers id := by
  generalize is : c.step action = result at entry
  cases is ▸ step_effect c action with
  | registers i arrived uncached unseen absent room =>
    rw [inflight_admitted] at entry
    split at entry
    next same =>
      subst same
      refine .inr ?_
      rintro (present | cached | seen)
      · exact present absent
      · exact cached uncached
      · exact unseen seen
    · exact .inl entry
  | withdraw i refused =>
    change (c.dropInflight (c.dispatches i).invocationID).inflight id = some r at entry
    rw [inflight_dropped] at entry
    split at entry
    · cases entry
    · exact .inl entry
  | mark n p marking =>
    change (c.dropInflight p.id).inflight id = some r at entry
    rw [inflight_dropped] at entry
    split at entry
    · cases entry
    · exact .inl entry
  | _ => exact .inl entry

/-- A run does not go back before the start of its handler. -/
theorem late_step (late : (c.dispatches i).stage.late) :
    ((c.step action).1.dispatches i).stage.late := by
  have other : ∀ {k : Nat} {d : Dispatch}, (k = i → d.stage.late) → ((c.putDispatch k d).dispatches i).stage.late := by
    intro k d own
    rcases eq_or_ne i k with rfl | is
    · rw [dispatches_self]
      exact own rfl
    · rwa [dispatches_of_ne is]
  have not_late : ∀ {k : Nat} {stage : Stage}, (c.dispatches k).stage = stage → stage.late = false → k ≠ i := by
    rintro k stage at_stage early rfl
    rw [at_stage, early] at late
    cases late
  generalize is : c.step action = result
  cases is ▸ step_effect c action with
  | arrive k id dispatchID idle assigned => exact other fun same => absurd same (not_late idle rfl)
  | cached _ _ arrived | registers _ arrived => exact other fun same => absurd same (not_late arrived rfl)
  | goes _ k d output goes still uncached lives resent starts => exact other fun same => goes.stays (same ▸ late)
  | withdraw | begins => exact other fun _ => rfl
  | submit a original found free => rw [← (setSubmitted_same (c := c) original true i).stage] at late; exact late
  | release a original stage => rw [← (setSubmitted_same (c := c) original false i).stage] at late; exact late
  | _ => exact late

theorem started_step (starts : (c.step action).2 = .started r) :
    (c.dispatches r).stage = .accepted ∧ ((c.step action).1.dispatches r).stage = .running := by
  generalize is : c.step action = result at starts ⊢
  cases is ▸ step_effect c action with
  | goes _ i d output goes still uncached lives resent can_start =>
    obtain ⟨rfl, accepted, running⟩ := can_start r starts
    refine ⟨accepted, ?_⟩
    rw [dispatches_self]
    exact running
  | plain _ a stage output active free plain returns silent =>
    subst starts
    by_cases returned : stage = .returned
    · have why := returns returned
      generalize is_out : Output.started r = out at why
      cases why with
      | sent comp ready sent => exact absurd is_out.symm (Output.when_ne_started nofun)
      | _ => cases is_out
    · cases silent returned
  | retrySend n sent comp rest due => exact absurd starts (Output.when_ne_started nofun)
  | _ => cases starts

/-- A run along which an invocation gets a registration that it did not have passes a state in which nothing remembers
the invocation. -/
theorem forgotten_between (run : Run Client.step s trace c)
    (not_yet : s.inflight id ≠ some r) (now : c.inflight id = some r) : ∃ g ∈ trace, ¬ g.before.Remembers id := by
  induction run with
  | start => exact absurd now not_yet
  | @next trace t run action ih =>
    rcases inflight_step now with before | forgotten
    · obtain ⟨g, mem, not_remembered⟩ := ih before
      exact ⟨g, mem_append_left _ mem, not_remembered⟩
    · exact ⟨_, mem_append_right _ (mem_singleton_self _), forgotten⟩

/-- A pending result stays, or this is its acknowledgement. -/
theorem pending_step (sound : Sound c) {p : Pending} (mem : p ∈ c.pendingResults) :
    (∃ q ∈ (c.step action).1.pendingResults, q.id = p.id ∧ SameResult q.comp.result p.comp.result) ∨ AckOf p action := by
  have kept : ∀ {c' : Client}, c'.pendingResults = c.pendingResults →
      ∃ q ∈ c'.pendingResults, q.id = p.id ∧ SameResult q.comp.result p.comp.result := by
    intro c' same
    exact ⟨p, same ▸ mem, rfl, .refl _⟩
  generalize is : c.step action = result
  cases is ▸ step_effect c action with
  | retain a original comp stage =>
    have owner : c.Has (.call a) original := Client.has_call stage rfl
    have own : original = (c.calls a).run := (sound.fits a).owner owner
    refine .inl ⟨p, Relation.mem_upsert.2 (.inr ⟨mem, fun same => ?_⟩), rfl, .refl _⟩
    have origin := sound.origin_eq mem (sound.holds_of_has owner) (same.trans (by rw [own]; rfl))
    cases sound.oneHand .pending (.call a) original ⟨p, mem, origin⟩ owner
  | retry n force now done =>
    refine .inl ⟨if p ∈ c.candidates force now then p.again c.connGeneration now else p, ?_, ?_⟩
    · rw [Relation.mem_modify]
      exact ⟨p, mem, by simp only [decide_eq_true_eq]⟩
    · split
      · exact ⟨rfl, (again_renews _ _ _).2⟩
      · exact ⟨rfl, .refl _⟩
  | acknowledge n ack q free found settles =>
    obtain ⟨inside, is_id⟩ := Relation.find?_eq_some.1 found
    by_cases same : p.id = ack.invocationID
    · have is_p : q = p := Relation.eq_of_key inside mem (is_id.trans same.symm)
      subst is_p
      unfold Client.settles at settles
      rw [Bool.and_eq_true, decide_eq_true_eq, Bool.or_eq_true, beq_iff_eq] at settles
      exact .inr ⟨n, ack, rfl, same.symm, settles.1.symm, settles.2⟩
    · exact .inl ⟨p, Relation.mem_filter.2 ⟨mem, decide_eq_true same⟩, rfl, .refl _⟩
  | _ => exact .inl (kept rfl)

theorem pending_inflight (sound : Sound c) : PendingInflight c := by
  have each : ∀ p ∈ c.pendingResults, c.inflight p.id = some p.comp.origin := by
    intro p mem
    rw [(sound.pending p mem).1]
    exact sound.holds_of_has (h := .pending) ⟨p, mem, rfl⟩
  refine ⟨fun p mem => by rw [each p mem]; nofun, ?_⟩
  have subset : c.pendingResults.rows.map Pending.id ⊆ c.inflightInvocations.rows.map Inflight.id := by
    intro id mem
    obtain ⟨p, pending, rfl⟩ := mem_map.1 mem
    obtain ⟨e, found, -⟩ := Option.map_eq_some_iff.1 (each p pending)
    obtain ⟨inside, same⟩ := Relation.find?_eq_some.1 found
    exact mem_map.2 ⟨e, inside, same⟩
  have le := (c.pendingResults.unique.subperm subset).length_le
  rw [length_map, length_map] at le
  exact le.trans sound.few

theorem sound_and_outcomes {c : Client} (run : Run Client.step Client.new trace c) :
    (∀ e ∈ trace, OwnEntry e.before e.input) → Sound c ∧ Outcomes trace c := by
  refine run.history (P := fun trace c => (∀ e ∈ trace, OwnEntry e.before e.input) → Sound c ∧ Outcomes trace c)
    (fun _ => ⟨sound_new, outcomes_new⟩) ?_
  intro trace s action ih allowed
  obtain ⟨sound, outcomes⟩ := ih fun e mem => allowed e (mem_append_left _ mem)
  have own : OwnEntry s action := allowed (Event.of Client.step s action) (by simp)
  exact ⟨sound.step own, outcomes.step sound⟩

/-- What an invocation's handler does and what is sent for it, over every schedule in which a completion finds its own
registration, or none, under its invocation's id. -/
theorem invocation_outcomes {trace : List (Event Client Action Output)} {c : Client}
    (run : Run Client.step Client.new trace c) (own_entry : ∀ e ∈ trace, OwnEntry e.before e.input) :
    NotRestarted trace ∧ OneOutcome trace c ∧ PendingInflight c ∧ DroppedByAck trace := by
  obtain ⟨sound, outcomes⟩ := sound_and_outcomes run own_entry
  have sound_before : ∀ e ∈ trace, Sound e.before ∧ e = Event.of Client.step e.before e.input := by
    intro e mem
    obtain ⟨front, back, rfl, before, is_step, -⟩ := run.split mem
    exact ⟨(sound_and_outcomes before fun f inside => own_entry f (mem_append_left _ inside)).1, is_step⟩
  -- a handler starts while its own registration is the in-flight entry
  have starts : ∀ e ∈ trace, ∀ r, e.output = .started r →
      (e.before.dispatches r).stage = .accepted ∧ (e.after.dispatches r).stage = .running ∧ e.before.holds r := by
    intro e mem r started
    obtain ⟨sound, is_step⟩ := sound_before e mem
    rw [is_step] at started ⊢
    obtain ⟨accepted, running⟩ := started_step started
    exact ⟨accepted, running, sound.early r (by rw [accepted]; rfl)⟩
  refine ⟨⟨fun f mem r started => ?_, fun front e middle f back is_trace r r' first second same => ?_⟩, ?_,
    pending_inflight sound, ?_⟩
  · obtain ⟨-, -, held⟩ := starts f mem r started
    exact (sound_before f mem).1.unfinished _ r held
  · have mem : e ∈ trace := by rw [is_trace]; simp
    have mem' : f ∈ trace := by rw [is_trace]; simp
    obtain ⟨-, running, held⟩ := starts e mem r first
    obtain ⟨accepted', -, held'⟩ := starts f mem' r' second
    subst is_trace
    obtain ⟨to_f, -, -⟩ := run.place
    obtain ⟨-, -, between⟩ := to_f.place
    refine forgotten_between between (r := r') (fun already => ?_) ?_
    · have distinct : r ≠ r' := by
        rintro rfl
        have late := between.invariant (P := fun c => (c.dispatches r).stage.late = true) (by rw [running]; rfl)
          fun _ _ => late_step
        rw [accepted'] at late
        cases late
      have is_after : e.after = (e.before.step e.input).1 := by rw [(sound_before e mem).2]; rfl
      rw [is_after] at already
      rcases inflight_step already with before | forgotten
      · exact distinct (Option.some.inj (held.symm.trans before))
      · refine forgotten (.inl ?_)
        rw [(show e.before.inflight _ = some r from held)]
        nofun
    · rw [same]
      exact held'
  · intro e mem comp sent
    refine ⟨(outcomes.closed comp (.inr ⟨e, mem, sent⟩)).dispatchID, fun f mem' comp' sent' origin => ?_⟩
    exact outcomes.agree comp comp' (.inr ⟨e, mem, sent⟩) (.inr ⟨f, mem', sent'⟩) origin
  · intro e mem p inside
    obtain ⟨sound, is_step⟩ := sound_before e mem
    have is_after : e.after = (e.before.step e.input).1 := by rw [is_step]; rfl
    rw [is_after]
    exact pending_step sound inside

/-- A handler runs, the duplicate of its dispatch is dropped, and the result is retained but not sent. -/
def unsent : List Action :=
  [.dispatch 0 "x" "d", .register 0, .decrypt 0 true, .accept 0 true, .lookup 0 .handler, .dispatch 1 "x" "d", .register 1,
    .handled 0 .result, .check (.dispatch 0), .find (.dispatch 0), .submit (.dispatch 0),
    .encode (.dispatch 0) ⟨true, true, true⟩ (some ("envelope", "aad")), .confirm (.dispatch 0),
    .build (.dispatch 0) (some 1000) 0, .retain (.dispatch 0), .send (.dispatch 0) false]

def unsentState : Client := finalState Client.step Client.new unsent

/-- The result is sent again, and acknowledged. -/
def resent : List Action := [.retry 0 true 0, .retrySend 0 true, .acknowledge 0 ⟨"x", "d", true, ""⟩, .mark 0]

def resentTrace : List (Event Client Action Output) :=
  traceOf Client.step Client.new unsent ++ traceOf Client.step unsentState resent

def resentState : Client := finalState Client.step unsentState resent

theorem resent_run : Run Client.step Client.new resentTrace resentState := (Run.start.inputs unsent).inputs resent

theorem unsent_own_entry : ∀ e ∈ traceOf Client.step Client.new unsent, OwnEntry e.before e.input := by
  intro e mem
  simp only [unsent, traceOf, mem_cons, not_mem_nil, or_false] at mem
  rcases mem with rfl | rfl | rfl | rfl | rfl | rfl | rfl | rfl | rfl | rfl | rfl | rfl | rfl | rfl | rfl | rfl
  case inr.inr.inr.inr.inr.inr.inr.inr.inr.inl =>
    intro r found
    exact Option.some.inj (found.symm.trans rfl)
  all_goals trivial

theorem resent_own_entry : ∀ e ∈ resentTrace, OwnEntry e.before e.input := by
  refine forall_mem_append.2 ⟨unsent_own_entry, fun e mem => ?_⟩
  simp only [resent, traceOf, mem_cons, not_mem_nil, or_false] at mem
  rcases mem with rfl | rfl | rfl | rfl <;> trivial

theorem resent_outcomes : NotRestarted resentTrace ∧ OneOutcome resentTrace resentState ∧ PendingInflight resentState ∧
    DroppedByAck resentTrace := invocation_outcomes resent_run resent_own_entry

/-- No result is lost or duplicated: what was submitted for a registration in flight is in one hand. -/
structure InHand (c : Client) : Prop where
  few : c.inflightInvocations.rows.length ≤ maxActiveInvocations
  held : ∀ r, (∃ h, c.Has h r) ↔ c.holds r ∧ (c.dispatches r).resultSubmitted
  once : ∀ h h' r, c.Has h r → c.Has h' r → h = h'

theorem results_in_hand {c : Client} (run : Run Client.step Client.new trace c)
    (own_entry : ∀ e ∈ trace, OwnEntry e.before e.input) : InHand c := by
  obtain ⟨sound, -⟩ := sound_and_outcomes run own_entry
  exact ⟨sound.few, sound.inHand, sound.oneHand⟩

/-- The unsent result is in the hand of the retries. -/
theorem unsent_in_hand : InHand unsentState ∧ unsentState.Has .pending 0 :=
  ⟨results_in_hand (Run.start.inputs unsent) unsent_own_entry, _, mem_singleton_self _, rfl⟩

end Pagnet.Sdk.Invocation
