import Pagnet.Sdk.Outcome

/-!
# Slots of the in-flight map

A dispatch goroutine that returns leaves its registration behind when the completion
gives up: after a reconnect for a server state that is already terminal, when the
result cannot be encrypted, and when its message is too large. Without these, every
registration is released or has a result that will be acknowledged.
-/

namespace Pagnet.Sdk.Invocation
open List

/-- `handleInvocationDispatch` has returned, and not because the handler returned `ErrAsync`. -/
def Client.returned (c : Client) (i : Nat) : Prop :=
  (c.dispatches i).stage = .returned ∨
    (c.dispatches i).stage = .completing ∧ (c.calls (.dispatch i)).stage = .returned

/-- The completions of dispatch goroutines do not give up: the server does not answer with a terminal state, the result
can be encrypted and its message is small enough. A handle is used by a running or an asynchronous handler, and a
handler that does not return `ErrAsync` has not used its handle. -/
def Careful (c : Client) (action : Action) : Prop :=
  OwnEntry c action ∧ match action with
  | .ask (.dispatch _) answer => answer.any ServerState.terminal = false
  | .encode (.dispatch _) _ encrypted => encrypted ≠ none
  | .build (.dispatch _) wire _ => ∃ bytes, wire = some bytes ∧ bytes ≤ maxInvocationResultWireBytes - 1024
  | .complete _ run _ => (c.dispatches run).stage = .running ∨ (c.dispatches run).stage = .asynchronous
  | .handled i outcome => outcome ≠ .async → ∀ n, (c.calls (.handle n)).stage ≠ .idle → (c.calls (.handle n)).run ≠ i
  | _ => True

/-- A registration is before its completion, or being completed, or its result was submitted. -/
def Client.alive (c : Client) (i : Nat) : Prop :=
  (c.dispatches i).stage.live ∨ (c.dispatches i).stage = .completing ∧
    ((c.calls (.dispatch i)).stage ≠ .returned ∨ (c.dispatches i).resultSubmitted)

/-- What careful schedules keep. -/
structure Kept (c : Client) : Prop where
  alive : ∀ i, c.holds i → c.alive i
  solo : ∀ i n, (c.dispatches i).stage = .completing → (c.calls (.handle n)).stage ≠ .idle → (c.calls (.handle n)).run ≠ i
  missed : ∀ i, (c.calls (.dispatch i)).stage = .submitting none → ¬ c.holds i
  firm : ∀ i original, (c.calls (.dispatch i)).stage ≠ .releasing original

variable {c : Client} {action : Action}

variable {c' : Client} {k i : Nat} {call : Call}

theorem holds_back (held : c'.holds k) (inflight : c'.inflightInvocations = c.inflightInvocations)
    (same : (c'.dispatches k).invocationID = (c.dispatches k).invocationID) : c.holds k := (holds_congr inflight same).1 held

section

variable (kept : Kept c)
include kept

/-- A call goes on. -/
theorem Kept.goOn (a : Agent) (stage : CallStage) (active : (c.calls a).stage ≠ .idle)
    (returns : ∀ i, a = .dispatch i → stage = .returned → c.holds i → (c'.dispatches i).resultSubmitted := by nofun)
    (missed : ∀ i, a = .dispatch i → stage = .submitting none → ¬ c.holds i := by nofun)
    (firm : ∀ i original, a = .dispatch i → stage ≠ .releasing original := by nofun)
    (stages : ∀ i, (c'.dispatches i).stage = (c.dispatches i).stage := by exact fun _ => rfl)
    (holds : ∀ i, c'.holds i → c.holds i := by exact fun _ => id)
    (submitted : ∀ i, (c.dispatches i).stage = .completing → (c.dispatches i).resultSubmitted →
      (c'.dispatches i).resultSubmitted := by exact fun _ _ => id)
    (calls : c'.calls = (c.goOn a stage).calls := by rfl) : Kept c' := by
  refine ⟨fun i held => ?_, fun i n completing busy => ?_, fun i at_stage held => ?_, fun i original at_stage => ?_⟩
  · unfold Client.alive
    rw [stages, calls]
    refine (kept.alive i (holds i held)).imp_right fun ⟨completing, either⟩ => ⟨completing, ?_⟩
    rcases eq_or_ne (Agent.dispatch i) a with rfl | is
    · rw [goOn_self]
      by_cases done : stage = .returned
      · exact .inr (returns i rfl done (holds i held))
      · exact .inl done
    · rw [goOn_of_ne is]
      exact either.imp_right (submitted i completing)
  · rw [stages] at completing
    rw [calls] at busy ⊢
    rw [goOn_run]
    exact kept.solo i n completing ((goOn_calls stage active (.handle n)).2 busy)
  · rw [calls] at at_stage
    rcases eq_or_ne (Agent.dispatch i) a with rfl | is
    · rw [goOn_self] at at_stage
      exact missed i rfl at_stage (holds i held)
    · rw [goOn_of_ne is] at at_stage
      exact kept.missed i at_stage (holds i held)
  · rw [calls] at at_stage
    rcases eq_or_ne (Agent.dispatch i) a with rfl | is
    · rw [goOn_self] at at_stage
      exact firm i original rfl at_stage
    · rw [goOn_of_ne is] at at_stage
      exact kept.firm i original at_stage

/-- A dispatch goroutine moves before it begins to complete. -/
theorem Kept.move (sound : Sound c) (was : (c.dispatches i).stage ≠ .completing)
    (still : (c'.dispatches i).stage ≠ .completing) (lives : c'.holds i → (c'.dispatches i).stage.live)
    (holds : ∀ k, k ≠ i → c'.holds k → c.holds k := by
      exact fun k other held => holds_back held rfl (congrArg _ (dispatches_of_ne other _)))
    (others : ∀ k, k ≠ i → c'.dispatches k = c.dispatches k := by exact fun k other => dispatches_of_ne other _)
    (calls : c'.calls = c.calls := by rfl) : Kept c' := by
  have own_idle : (c.calls (.dispatch i)).stage = .idle := by
    by_contra active
    exact was (sound.own i active).1
  refine ⟨fun k held => ?_, fun k n completing busy => ?_, fun k at_stage held => ?_, fun k original => ?_⟩
  · rcases eq_or_ne k i with rfl | is
    · exact .inl (lives held)
    · unfold Client.alive
      rw [others k is, calls]
      exact kept.alive k (holds k is held)
  · have other : k ≠ i := by
      rintro rfl
      exact still completing
    rw [others k other] at completing
    rw [calls] at busy ⊢
    exact kept.solo k n completing busy
  · rw [calls] at at_stage
    have other : k ≠ i := by
      rintro rfl
      rw [own_idle] at at_stage
      cases at_stage
    exact kept.missed k at_stage (holds k other held)
  · rw [calls]
    exact kept.firm k original

/-- Nothing changes for the goroutines and calls. -/
theorem Kept.congr (calls : c'.calls = c.calls) (dispatches : c'.dispatches = c.dispatches)
    (holds : ∀ k, c'.holds k → c.holds k) : Kept c' := by
  refine ⟨fun k held => ?_, fun k n => ?_, fun k at_stage held => ?_, fun k original => ?_⟩
  · unfold Client.alive
    rw [dispatches, calls]
    exact kept.alive k (holds k held)
  · rw [dispatches, calls]
    exact kept.solo k n
  · rw [calls] at at_stage
    exact kept.missed k at_stage (holds k held)
  · rw [calls]
    exact kept.firm k original

/-- A dispatch goroutine begins to complete its run. -/
theorem Kept.begins (alone : ∀ n, (c.calls (.handle n)).stage ≠ .idle → (c.calls (.handle n)).run ≠ i)
    (plain : call.stage.plain) (open_call : call.stage ≠ .returned) :
    Kept ((c.move i .completing).putCall (.dispatch i) call) := by
  have self : (((c.move i .completing).putCall (.dispatch i) call).dispatches i).stage = .completing := by
    change ((c.move i .completing).dispatches i).stage = .completing
    unfold Client.move
    rw [dispatches_self]
  have others : ∀ k, k ≠ i → ((c.move i .completing).putCall (.dispatch i) call).dispatches k = c.dispatches k :=
    fun k other => dispatches_of_ne other _
  have holds : ∀ k, ((c.move i .completing).putCall (.dispatch i) call).holds k ↔ c.holds k := by
    intro k
    refine holds_congr rfl ?_
    rcases eq_or_ne k i with rfl | is
    · change ((c.move k .completing).dispatches k).invocationID = _
      unfold Client.move
      rw [dispatches_self]
    · rw [others k is]
  have call_ne : ∀ b, b ≠ .dispatch i → ((c.move i .completing).putCall (.dispatch i) call).calls b = c.calls b :=
    fun b other => calls_of_ne other _
  refine ⟨fun k held => ?_, fun k n completing busy => ?_, fun k at_stage held => ?_, fun k original at_stage => ?_⟩
  · rcases eq_or_ne k i with rfl | is
    · refine .inr ⟨self, .inl ?_⟩
      rw [calls_self]
      exact open_call
    · unfold Client.alive
      rw [others k is, call_ne _ fun same => is (Agent.dispatch.inj same)]
      exact kept.alive k ((holds k).1 held)
  · rcases eq_or_ne k i with rfl | is
    · exact alone n busy
    · rw [others k is] at completing
      exact kept.solo k n completing busy
  · rcases eq_or_ne k i with rfl | is
    · rw [calls_self] at at_stage
      rw [at_stage] at plain
      cases plain
    · rw [call_ne _ fun same => is (Agent.dispatch.inj same)] at at_stage
      exact kept.missed k at_stage ((holds k).1 held)
  · rcases eq_or_ne k i with rfl | is
    · rw [calls_self] at at_stage
      rw [at_stage] at plain
      cases plain
    · rw [call_ne _ fun same => is (Agent.dispatch.inj same)] at at_stage
      exact kept.firm k original at_stage

/-- A handler uses its handle. -/
theorem Kept.handle {n : Nat} (before : (c.dispatches call.run).stage ≠ .completing) :
    Kept (c.putCall (.handle n) call) := by
  have call_ne : ∀ b, b ≠ .handle n → (c.putCall (.handle n) call).calls b = c.calls b := fun b other => calls_of_ne other _
  refine ⟨fun k held => ?_, fun k m completing busy => ?_, fun k at_stage held => ?_, fun k original at_stage => ?_⟩
  · exact kept.alive k held
  · rcases eq_or_ne m n with rfl | is
    · rw [calls_self]
      rintro rfl
      exact before completing
    · rw [call_ne _ fun same => is (Agent.handle.inj same)] at busy ⊢
      exact kept.solo k m completing busy
  · exact kept.missed k at_stage held
  · exact kept.firm k original at_stage

end

theorem holds_dropped {id : String} (held : (c.dropInflight id).holds k) : c.holds k := by
  unfold Client.holds at held ⊢
  rw [inflight_dropped] at held
  split at held
  · cases held
  · exact held

/-- Every careful step keeps each registration alive. -/
theorem Kept.step (kept : Kept c) (sound : Sound c) (closed : ∀ comp, Carried c comp → Closed c comp)
    (careful : Careful c action) : Kept (c.step action).1 := by
  have own : ∀ i, (c.calls (.dispatch i)).stage ≠ .idle → (c.calls (.dispatch i)).run = i := fun i active =>
    (sound.own i active).2
  generalize is : c.step action = result
  cases is ▸ step_effect c action with
  | stay => exact kept
  | arrive i id dispatchID idle assigned =>
    exact kept.move sound (i := i) (by rw [idle]; nofun) (by rw [dispatches_self]; nofun)
      fun held => absurd held (sound.fresh i (by rw [idle]; rfl) _)
  | cached i comp arrived found =>
    have held_not : ∀ id, c.inflight id ≠ some i := sound.fresh i (by rw [arrived]; rfl)
    refine kept.move sound (i := i) (by rw [arrived]; nofun) ?_ fun held => absurd held (held_not _)
    change ((c.move i _).dispatches i).stage ≠ .completing
    unfold Client.move
    rw [dispatches_self]
    dsimp only
    split <;> nofun
  | registers i arrived uncached unseen absent room =>
    have self : (c.admitted i).dispatches i = _ := dispatches_self _
    refine kept.move sound (i := i) (by rw [arrived]; nofun) (by rw [self]; nofun) (fun _ => by rw [self]; rfl)
      fun k other held => ?_
    have same : (c.admitted i).dispatches k = c.dispatches k := dispatches_of_ne other _
    unfold Client.holds at held ⊢
    dsimp only at held
    rw [same, inflight_admitted] at held
    split at held
    · exact absurd (Option.some.inj held).symm other
    · exact held
  | goes _ i d output goes still uncached lives resent starts =>
    refine kept.move sound (i := i) goes.here (by rw [dispatches_self]; exact still) fun held => ?_
    rw [dispatches_self]
    have before : c.holds i := holds_back held rfl (by rw [dispatches_self]; exact goes.invocationID)
    rcases kept.alive i before with live | ⟨completing, -⟩
    · exact lives live
    · exact absurd completing goes.here
  | withdraw i refused =>
    have self : ((c.dropInflight (c.dispatches i).invocationID).move i .returned).dispatches i = _ := dispatches_self _
    refine kept.move sound (i := i) (by rw [refused]; nofun) (by rw [self]; nofun) (fun held => ?_) fun k other held => ?_
    · unfold Client.holds at held
      rw [self] at held
      change (c.dropInflight (c.dispatches i).invocationID).inflight (c.dispatches i).invocationID = some i at held
      rw [inflight_dropped] at held
      cases (if_pos rfl).symm.trans held
    · exact holds_dropped (holds_back held rfl (congrArg _ (dispatches_of_ne other _)))
  | begins _ i call before own_run plain open_call =>
    refine kept.begins (fun n busy same => ?_) plain open_call
    rcases before with early | ⟨-, outcome, rfl, sync⟩
    · have known := sound.known (.handle n) busy
      rw [same] at known
      rw [not_early_of_known (sound.late i) known] at early
      cases early
    · exact careful.2 sync n busy same
  | handle n failed call idle started plain =>
    refine kept.handle fun completing => ?_
    rcases careful.2 with running | asynchronous
    · rw [completing] at running
      cases running
    · rw [completing] at asynchronous
      cases asynchronous
  | plain _ a stage output active free plain returns silent =>
    refine kept.goOn a stage active.1 ?_ (fun i _ at_stage => ?_) fun i original _ at_stage => ?_
    · rintro i rfl done held
      have why := returns done
      have run_is := own i active.1
      cases why with
      | terminal answer yes =>
        have no : answer.any ServerState.terminal = false := careful.2
        rw [no] at yes
        cases yes
      | missing none_found => exact absurd held (kept.missed i none_found)
      | taken original found submitted =>
        have fits := sound.fits (.dispatch i)
        rw [found] at fits
        rw [← run_is, ← fits original rfl]
        exact submitted
      | sent comp ready sent =>
        have fits := sound.fits (.dispatch i)
        rw [ready] at fits
        have done := (closed comp (.sending ready)).submitted
        rw [(show comp.origin = _ from fits.origin), run_is] at done
        exact done
    · rw [at_stage] at plain
      cases plain
    · rw [at_stage] at plain
      cases plain
  | find a finding =>
    refine kept.goOn a (.submitting (c.inflight (c.target a))) (by rw [finding]; nofun) nofun ?_
    rintro i rfl at_stage held
    have run_is := own i (by rw [finding]; nofun)
    have none_found := CallStage.submitting.inj at_stage
    unfold Client.target at none_found
    rw [run_is, (show c.inflight _ = some i from held)] at none_found
    cases none_found
  | submit a original found free =>
    refine kept.goOn a (.encoding original) (by rw [found]; nofun) nofun nofun nofun
      (fun i => (setSubmitted_same original true i).stage) (fun i held => ?_) fun i _ was => ?_
    · exact holds_back held rfl (setSubmitted_same original true i).invocationID
    · change ((c.setSubmitted original true).dispatches i).resultSubmitted
      unfold Client.setSubmitted
      rcases eq_or_ne i original with rfl | same
      · rw [dispatches_self]
      · rwa [dispatches_of_ne same]
  | encode a encoding encrypted original outcome stage =>
    exact kept.goOn a (.confirming original outcome) (by rw [stage]; nofun)
  | givesUp _ a original owner why =>
    refine kept.goOn a (.releasing original) (fun idle => ?_) nofun nofun ?_
    · rw [idle] at owner
      cases owner
    · rintro i original' rfl -
      have held : c.holds original := sound.holds_of_has (h := .call (.dispatch i)) owner
      have run_is : original = (c.calls (.dispatch i)).run := (sound.fits _).owner owner
      cases why with
      | encryption encoding => exact careful.2 rfl
      | gone outcome stage absent =>
        unfold Client.target at absent
        rw [← run_is, (show c.inflight _ = some original from held)] at absent
        cases absent
      | unassigned outcome stage ai found empty =>
        unfold Client.target at found
        rw [← run_is] at found
        cases (show c.inflight _ = some original from held).symm.trans found
        exact sound.assigned original held empty
      | unencodable now =>
        obtain ⟨bytes, is_some, -⟩ := careful.2
        cases is_some
      | oversized bytes large now =>
        obtain ⟨bytes', is_some, small⟩ := careful.2
        cases is_some
        omega
  | confirm a original ai outcome stage found =>
    exact kept.goOn a (.building original ai outcome) (by rw [stage]; nofun)
  | build a wire now original ai outcome comp stage origin result =>
    exact kept.goOn a (.retaining original comp) (by rw [stage]; nofun)
  | retain a original comp stage =>
    exact kept.goOn a (.sending comp) (by rw [stage]; nofun)
  | release a original stage =>
    have owner : c.Has (.call a) original := Client.has_call stage rfl
    have run_is : original = (c.calls a).run := (sound.fits a).owner owner
    refine kept.goOn a .returned (by rw [stage]; nofun) ?_ nofun nofun
      (fun i => (setSubmitted_same original false i).stage) (fun i held => ?_) fun i completing was => ?_
    · rintro i rfl
      exact absurd stage (kept.firm i original)
    · exact holds_back held rfl (setSubmitted_same original false i).invocationID
    · cases a with
      | dispatch k => exact absurd stage (kept.firm k original)
      | handle n =>
        have other := kept.solo i n completing (by rw [stage]; nofun)
        rw [← run_is] at other
        change ((c.setSubmitted original false).dispatches i).resultSubmitted
        unfold Client.setSubmitted
        rwa [dispatches_of_ne other.symm]
  | retry | retrySend | acknowledge | reconnect => exact kept.congr rfl rfl fun _ => id
  | mark n p marking => exact kept.congr rfl rfl fun k held => holds_dropped held

theorem kept_new : Kept Client.new := ⟨nofun, fun _ _ => nofun, fun _ => nofun, fun _ _ => nofun⟩

/-- What is left in hand of a run that returned: its result is pending, or being acknowledged. -/
theorem Kept.in_hand (kept : Kept c) (sound : Sound c) (returned : c.returned i) (held : c.holds i) :
    (∃ p ∈ c.pendingResults, p.id = (c.dispatches i).invocationID) ∨
      ∃ n p, c.acks n = some p ∧ p.id = (c.dispatches i).invocationID := by
  obtain ⟨completing, done⟩ : (c.dispatches i).stage = .completing ∧ (c.calls (.dispatch i)).stage = .returned := by
    rcases returned with stage | both
    · rcases kept.alive i held with live | ⟨completing, -⟩
      · rw [stage] at live
        cases live
      · rw [stage] at completing
        cases completing
    · exact both
  have submitted : (c.dispatches i).resultSubmitted := by
    rcases kept.alive i held with live | ⟨-, busy | submitted⟩
    · rw [completing] at live
      cases live
    · exact absurd done busy
    · exact submitted
  obtain ⟨h, has⟩ := (sound.inHand i).2 ⟨held, submitted⟩
  cases h with
  | call a =>
    have owns : (c.calls a).stage.owns = some i := has
    have active : (c.calls a).stage ≠ .idle := by
      intro idle
      rw [idle] at owns
      cases owns
    have run_is := (sound.fits a).owner owns
    cases a with
    | dispatch k =>
      have same := (sound.own k active).2
      rw [← run_is] at same
      subst same
      rw [done] at owns
      cases owns
    | handle n => exact absurd run_is.symm (kept.solo i n completing active)
  | pending =>
    obtain ⟨p, mem, rfl⟩ := has
    exact .inl ⟨p, mem, (sound.pending p mem).1⟩
  | ack n =>
    obtain ⟨p, marking, rfl⟩ := has
    exact .inr ⟨n, p, marking, (sound.acks n p marking).1⟩

/-- Every pending result was acknowledged, and no goroutine is under way: none dispatches, completes or acknowledges,
and no handler runs or has still to complete asynchronously. -/
structure Settled (c : Client) : Prop where
  pending : c.pendingResults.rows = []
  acks : ∀ n, c.acks n = none
  calls : ∀ a, (c.calls a).stage = .idle ∨ (c.calls a).stage = .returned
  runs : ∀ i, (c.dispatches i).stage = .idle ∨ c.returned i ∨
    (c.dispatches i).stage = .asynchronous ∧ (c.dispatches i).resultSubmitted

theorem Kept.settled (kept : Kept c) (sound : Sound c) (settled : Settled c) : c.inflightInvocations.rows = [] := by
  refine eq_nil_iff_forall_not_mem.2 fun e mem => ?_
  have entry : c.inflight e.id = some e.run := by
    unfold Client.inflight
    rw [Relation.find?_eq_some.2 ⟨mem, rfl⟩]
    rfl
  have held : c.holds e.run := by
    unfold Client.holds
    rw [sound.entry e.id e.run entry]
    exact entry
  have not_pending : ∀ p, p ∉ c.pendingResults := by
    intro p inside
    have rows : p ∈ c.pendingResults.rows := inside
    rw [settled.pending] at rows
    exact absurd rows not_mem_nil
  rcases settled.runs e.run with idle | returned | ⟨-, submitted⟩
  · exact sound.fresh e.run (by rw [idle]; rfl) _ held
  · rcases kept.in_hand sound returned held with ⟨p, inside, -⟩ | ⟨n, p, marking, -⟩
    · exact not_pending p inside
    · rw [settled.acks n] at marking
      cases marking
  · obtain ⟨h, has⟩ := (sound.inHand e.run).2 ⟨held, submitted⟩
    cases h with
    | call a =>
      have owns : (c.calls a).stage.owns = some e.run := has
      rcases settled.calls a with idle | done
      · rw [idle] at owns
        cases owns
      · rw [done] at owns
        cases owns
    | pending =>
      obtain ⟨p, inside, -⟩ := has
      exact not_pending p inside
    | ack n =>
      obtain ⟨p, marking, -⟩ := has
      rw [settled.acks n] at marking
      cases marking

/-- With nothing in flight a dispatch is not deferred. -/
theorem not_deferred (empty : c.inflightInvocations.rows = []) (stage : (c.dispatches i).stage ≠ .deferring) :
    ((c.step (.register i)).1.dispatches i).stage ≠ .deferring := by
  change ((c.register i).1.dispatches i).stage ≠ .deferring
  unfold Client.register
  split
  · split
    · change ((c.move i _).dispatches i).stage ≠ .deferring
      unfold Client.move
      rw [dispatches_self]
      split <;> simp
    · unfold Client.enter
      split
      · unfold Client.move
        rw [dispatches_self]
        simp
      · split
        · unfold Client.move
          rw [dispatches_self]
          simp
        · rw [empty, if_neg (by decide), (show (c.admitted i).dispatches i = _ from dispatches_self _)]
          simp
  · exact stage

/-- No registration is leaked by a careful schedule: of a dispatch that returned, and not with `ErrAsync`, the
registration is gone, or its result is pending, or an acknowledgement of it stands between its two sections; and once
all is settled nothing is in flight and no dispatch is deferred. -/
theorem slots_released {trace : List (Event Client Action Output)} {c : Client} (run : Run Client.step Client.new trace c)
    (careful : ∀ e ∈ trace, Careful e.before e.input) :
    (∀ i, c.returned i → ¬ c.holds i ∨ (∃ p ∈ c.pendingResults, p.id = (c.dispatches i).invocationID) ∨
      ∃ n p, c.acks n = some p ∧ p.id = (c.dispatches i).invocationID) ∧
    (Settled c → c.inflightInvocations.rows = [] ∧ ∀ i id dispatchID, (c.dispatches i).stage = .idle →
      (((c.step (.dispatch i id dispatchID)).1.step (.register i)).1.dispatches i).stage ≠ .deferring) := by
  have all : (∀ e ∈ trace, Careful e.before e.input) → Sound c ∧ Outcomes trace c ∧ Kept c := by
    refine run.history (P := fun trace c => (∀ e ∈ trace, Careful e.before e.input) → Sound c ∧ Outcomes trace c ∧ Kept c)
      (fun _ => ⟨sound_new, outcomes_new, kept_new⟩) ?_
    intro trace s action ih allowed
    obtain ⟨sound, outcomes, kept⟩ := ih fun e mem => allowed e (mem_append_left _ mem)
    have now : Careful s action := allowed (Event.of Client.step s action) (by simp)
    exact ⟨sound.step now.1, outcomes.step sound, kept.step sound (fun comp carried => outcomes.closed comp (.inl carried)) now⟩
  obtain ⟨sound, -, kept⟩ := all careful
  refine ⟨fun i returned => ?_, fun settled => ?_⟩
  · by_cases held : c.holds i
    · exact .inr (kept.in_hand sound returned held)
    · exact .inl held
  · have empty := kept.settled sound settled
    refine ⟨empty, fun i id dispatchID idle => not_deferred ?_ ?_⟩
    · change (c.dispatch i id dispatchID).1.inflightInvocations.rows = []
      unfold Client.dispatch
      rw [idle]
      dsimp only
      split <;> exact empty
    · change ((c.dispatch i id dispatchID).1.dispatches i).stage ≠ .deferring
      unfold Client.dispatch
      rw [idle]
      dsimp only
      split
      · rw [idle]
        nofun
      · rw [dispatches_self]
        nofun

theorem resent_careful : ∀ e ∈ resentTrace, Careful e.before e.input := by
  intro e mem
  refine ⟨resent_own_entry e mem, ?_⟩
  simp only [resentTrace, unsent, resent, traceOf, cons_append, nil_append, mem_cons, not_mem_nil, or_false] at mem
  rcases mem with rfl | rfl | rfl | rfl | rfl | rfl | rfl | rfl | rfl | rfl | rfl | mem
  case inr.inr.inr.inr.inr.inr.inr.inl => exact fun _ n busy => absurd rfl busy
  case inr.inr.inr.inr.inr.inr.inr.inr.inr.inr.inr =>
    rcases mem with rfl | rfl | rfl | rfl | rfl | rfl | rfl | rfl | rfl
    case inl => exact Option.some_ne_none _
    case inr.inr.inl => exact ⟨1000, rfl, by decide⟩
    all_goals trivial
  all_goals trivial

def unsentResult : Pending :=
  ⟨"x", ⟨false, "d", "x", true, "envelope", "aad", "completed"⟩, 0, 5000000000, 1, 1000, 0⟩

def retriedState : Client :=
  { unsentState with
    pendingResults := unsentState.pendingResults.modify (fun p => p ∈ [unsentResult]) (Pending.again 0 0) (Pending.again_id 0 0)
    retries := Function.update unsentState.retries 0 [unsentResult.comp.again 0 0] }

/-- The retry sends the one pending result. -/
theorem unsent_retried : (unsentState.step (.retry 0 true 0)).1 = retriedState := by
  have due : unsentState.candidates true 0 = [unsentResult] := congrArg (List.take 32) (mergeSort_singleton unsentResult)
  have quiet : unsentState.retries 0 = [] := rfl
  change (unsentState.retry 0 true 0).1 = _
  unfold Client.retry
  rw [quiet]
  simp only [due]
  rfl

theorem resent_settled : Settled resentState := by
  unfold resentState resent
  rw [finalState, unsent_retried]
  refine ⟨by decide +kernel, fun n => ?_, fun a => ?_, fun i => ?_⟩
  · rcases n with _ | n <;> rfl
  · rcases a with (_ | i) | n
    · exact .inr rfl
    · exact .inl rfl
    · exact .inl rfl
  · rcases i with _ | _ | i
    · exact .inr (.inl (.inr ⟨rfl, rfl⟩))
    · exact .inr (.inl (.inl rfl))
    · exact .inl rfl

/-- Nothing is in flight after the retry was acknowledged, and the next dispatch is not deferred. -/
theorem resent_released : ¬ resentState.holds 0 ∧ resentState.inflightInvocations.rows = [] ∧ ∀ id dispatchID,
    (((resentState.step (.dispatch 2 id dispatchID)).1.step (.register 2)).1.dispatches 2).stage ≠ .deferring := by
  have settled := resent_settled
  obtain ⟨released, all⟩ := slots_released resent_run resent_careful
  obtain ⟨empty, next⟩ := all settled
  have ends : resentState.returned 0 ∧ (resentState.dispatches 2).stage = .idle := by
    unfold resentState resent
    rw [finalState, unsent_retried]
    exact ⟨.inr ⟨rfl, rfl⟩, rfl⟩
  refine ⟨?_, empty, fun id dispatchID => next 2 id dispatchID ends.2⟩
  rcases released 0 ends.1 with free | ⟨p, inside, -⟩ | ⟨n, p, marking, -⟩
  · exact free
  · exact absurd (settled.pending ▸ inside : p ∈ []) not_mem_nil
  · cases (settled.acks n).symm.trans marking

/-- The session drops while the handler runs, and the server has cancelled the invocation when the handler returns. -/
def cancelledMeanwhile : List Action :=
  [.dispatch 0 "x" "d", .register 0, .decrypt 0 true, .accept 0 true, .lookup 0 .handler, .reconnect, .handled 0 .result,
    .check (.dispatch 0), .ask (.dispatch 0) (some .cancelled)]

/-- The dispatch has returned and everything is settled, but its invocation is in flight for ever. -/
theorem cancelled_slot_leaks : ∃ trace c, Run Client.step Client.new trace c ∧ c.returned 0 ∧ c.holds 0 ∧ Settled c ∧
    c.inflightInvocations.rows ≠ [] := by
  refine ⟨_, _, Run.start.inputs cancelledMeanwhile, .inr ⟨rfl, rfl⟩, rfl, ⟨rfl, fun _ => rfl, fun a => ?_, fun i => ?_⟩,
    cons_ne_nil _ _⟩
  · rcases a with (_ | k) | n
    · exact .inr rfl
    · exact .inl rfl
    · exact .inl rfl
  · rcases i with _ | k
    · exact .inr (.inl (.inr ⟨rfl, rfl⟩))
    · exact .inl rfl

end Pagnet.Sdk.Invocation
