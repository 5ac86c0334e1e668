import Pagnet.Sdk.Hands

/-!
# Where results are

Results stand in pending entries, acknowledgements, the completed cache, and in calls
and retries that are about to send them. All results of one run are copies of the one
that its call retained.
-/

namespace Pagnet.Sdk.Invocation
open List Function

/-- Two results that differ in `reconcile` only. -/
structure SameResult (p q : ResultPayload) : Prop where
  dispatchID : p.dispatchID = q.dispatchID
  ok : p.ok = q.ok
  envelope : p.envelope = q.envelope
  aad : p.aad = q.aad
  publicResultCode : p.publicResultCode = q.publicResultCode

theorem SameResult.refl (p : ResultPayload) : SameResult p p := ⟨rfl, rfl, rfl, rfl, rfl⟩

variable {p q : ResultPayload} {comp : CompletedInvocation} {c' : Client} {i r : Nat} {a : Agent}

theorem SameResult.symm (same : SameResult p q) : SameResult q p :=
  ⟨same.dispatchID.symm, same.ok.symm, same.envelope.symm, same.aad.symm, same.publicResultCode.symm⟩

theorem SameResult.trans {r : ResultPayload} (first : SameResult p q) (second : SameResult q r) : SameResult p r :=
  ⟨first.dispatchID.trans second.dispatchID, first.ok.trans second.ok, first.envelope.trans second.envelope,
    first.aad.trans second.aad, first.publicResultCode.trans second.publicResultCode⟩

/-- A result that is somewhere in the client. -/
inductive Carried (c : Client) : CompletedInvocation → Prop
  | pending {p : Pending} (mem : p ∈ c.pendingResults) : Carried c p.comp
  | ack {n : Nat} {p : Pending} (is : c.acks n = some p) : Carried c p.comp
  | cached {e : LruEntry String CompletedInvocation} (mem : e ∈ c.completedInvocations.entries) : Carried c e.value
  | sending {a : Agent} {comp : CompletedInvocation} (is : (c.calls a).stage = .sending comp) : Carried c comp
  | resending {i : Nat} {comp : CompletedInvocation} (is : (c.dispatches i).stage = .resending comp) : Carried c comp
  | retrying {n : Nat} {comp : CompletedInvocation} (mem : comp ∈ c.retries n) : Carried c comp

/-- A later copy of a result. -/
def Renews (comp comp' : CompletedInvocation) : Prop := comp.origin = comp'.origin ∧ SameResult comp.result comp'.result

theorem Renews.refl (comp : CompletedInvocation) : Renews comp comp := ⟨rfl, .refl _⟩

theorem again_renews (comp : CompletedInvocation) (connGeneration now : Int) :
    Renews (comp.again connGeneration now) comp := ⟨rfl, ⟨rfl, rfl, rfl, rfl, rfl⟩⟩

variable {c : Client}

/-- Where the results of the next state come from: from this one, or from a call that now retains its result. -/
def FromBefore (c : Client) (action : Action) (comp : CompletedInvocation) : Prop :=
  (∃ comp', Carried c comp' ∧ Renews comp comp') ∨
    ∃ a original, action = .retain a ∧ (c.calls a).stage = .retaining original comp

variable {action : Action}

theorem FromBefore.same (carried : Carried c comp) : FromBefore c action comp :=
  .inl ⟨comp, carried, .refl comp⟩

/-- Where each place of the next state has its results from; most places keep theirs. -/
structure Sources (c : Client) (action : Action) (c' : Client) : Prop where
  pending : ∀ p ∈ c'.pendingResults, FromBefore c action p.comp := by exact fun p mem => .same (.pending mem)
  acks : ∀ n p, c'.acks n = some p → FromBefore c action p.comp := by exact fun n p is => .same (.ack is)
  cached : ∀ e ∈ c'.completedInvocations.entries, FromBefore c action e.value := by exact fun e mem => .same (.cached mem)
  sending : ∀ a comp, (c'.calls a).stage = .sending comp → FromBefore c action comp := by
    exact fun a comp is => .same (.sending is)
  resending : ∀ i comp, (c'.dispatches i).stage = .resending comp → FromBefore c action comp := by
    exact fun i comp is => .same (.resending is)
  retrying : ∀ n, ∀ comp ∈ c'.retries n, FromBefore c action comp := by exact fun n comp mem => .same (.retrying mem)

theorem Sources.fromBefore (sources : Sources c action c')
    (carried : Carried c' comp) : FromBefore c action comp := by
  cases carried with
  | pending mem => exact sources.pending _ mem
  | ack is => exact sources.acks _ _ is
  | cached mem => exact sources.cached _ mem
  | sending is => exact sources.sending _ _ is
  | resending is => exact sources.resending _ _ is
  | retrying mem => exact sources.retrying _ _ mem

theorem putDispatch_resending {d : Dispatch} (uncached : ∀ comp, d.stage ≠ .resending comp) (k : Nat)
    (comp : CompletedInvocation) (is : ((c.putDispatch i d).dispatches k).stage = .resending comp) : FromBefore c action comp := by
  rcases eq_or_ne k i with rfl | same
  · rw [dispatches_self] at is
    exact absurd is (uncached comp)
  · rw [dispatches_of_ne same] at is
    exact .same (.resending is)

theorem putCall_sending {call : Call} (idle : ∀ comp, call.stage ≠ .sending comp) (b : Agent)
    (comp : CompletedInvocation) (is : ((c.putCall a call).calls b).stage = .sending comp) : FromBefore c action comp := by
  rcases eq_or_ne b a with rfl | same
  · rw [calls_self] at is
    exact absurd is (idle comp)
  · rw [calls_of_ne same] at is
    exact .same (.sending is)

/-- A change of one call that does not begin to send. -/
theorem goOn_sources (a : Agent) (stage : CallStage) (idle : ∀ comp, stage ≠ .sending comp)
    (calls : c'.calls = (c.goOn a stage).calls) (pending : c'.pendingResults = c.pendingResults) (acks : c'.acks = c.acks)
    (completed : c'.completedInvocations = c.completedInvocations) (retries : c'.retries = c.retries)
    (stages : ∀ k, (c'.dispatches k).stage = (c.dispatches k).stage) : Sources c action c' where
  pending p mem := .same (.pending (pending ▸ mem))
  acks n p is := .same (.ack (acks ▸ is))
  cached e mem := .same (.cached (completed ▸ mem))
  sending b comp is := by
    rw [calls] at is
    exact putCall_sending idle b comp is
  resending i comp is := .same (.resending (stages i ▸ is))
  retrying n comp mem := .same (.retrying (retries ▸ mem))

theorem plain_not_sending {stage : CallStage} (plain : stage.plain) (comp : CompletedInvocation) :
    stage ≠ .sending comp := by
  rintro rfl
  cases plain

theorem step_sources (c : Client) (action : Action) : Sources c action (c.step action).1 := by
  generalize is : c.step action = result
  cases is ▸ step_effect c action with
  | stay | reconnect => exact { }
  | arrive | registers => exact { resending := putDispatch_resending nofun }
  | cached i found_comp arrived found =>
    refine { cached := fun e mem => .same (.cached (LruMap.mem_get.1 mem)), resending := fun k comp is => ?_ }
    change ((c.move i _).dispatches k).stage = .resending comp at is
    unfold Client.move at is
    rcases eq_or_ne k i with rfl | same
    · rw [dispatches_self] at is
      split at is
      · cases is
        obtain ⟨size, mem⟩ := LruMap.mem_of_find? found
        exact .same (.cached mem)
      · cases is
    · rw [dispatches_of_ne same] at is
      exact .same (.resending is)
  | goes _ i d output goes still uncached lives resent starts => exact { resending := putDispatch_resending uncached }
  | withdraw i refused =>
    exact { resending := putDispatch_resending (c := c) (i := i) (d := { c.dispatches i with stage := .returned }) nofun }
  | begins _ i call before own plain open_call =>
    exact {
      sending := putCall_sending (c := c) (plain_not_sending plain)
      resending := putDispatch_resending (c := c) (i := i) (d := { c.dispatches i with stage := .completing }) nofun }
  | handle n failed call idle started plain => exact { sending := putCall_sending (plain_not_sending plain) }
  | plain _ a stage output active free plain returns silent =>
    exact goOn_sources a stage (plain_not_sending plain) rfl rfl rfl rfl rfl fun _ => rfl
  | find a finding => exact goOn_sources a (.submitting (c.inflight (c.target a))) nofun rfl rfl rfl rfl rfl fun _ => rfl
  | submit a original found free =>
    exact goOn_sources a (.encoding original) nofun rfl rfl rfl rfl rfl fun k => (setSubmitted_same original true k).stage
  | encode a encoding encrypted original outcome stage =>
    exact goOn_sources a (.confirming original outcome) nofun rfl rfl rfl rfl rfl fun _ => rfl
  | givesUp _ a original owner why => exact goOn_sources a (.releasing original) nofun rfl rfl rfl rfl rfl fun _ => rfl
  | confirm a original ai outcome stage found =>
    exact goOn_sources a (.building original ai outcome) nofun rfl rfl rfl rfl rfl fun _ => rfl
  | build a wire now original ai outcome made stage origin result =>
    exact goOn_sources a (.retaining original made) nofun rfl rfl rfl rfl rfl fun _ => rfl
  | retain a original made stage =>
    refine { pending := fun p mem => ?_, sending := fun b comp is => ?_ }
    · rcases Relation.mem_upsert.1 mem with rfl | ⟨mem, -⟩
      · exact .inr ⟨a, original, rfl, stage⟩
      · exact .same (.pending mem)
    · rcases eq_or_ne b a with rfl | same
      · rw [goOn_self] at is
        cases is
        exact .inr ⟨b, original, rfl, stage⟩
      · rw [goOn_of_ne same] at is
        exact .same (.sending is)
  | release a original stage =>
    exact goOn_sources a .returned nofun rfl rfl rfl rfl rfl fun k => (setSubmitted_same original false k).stage
  | retry n force now done =>
    refine { pending := fun p mem => ?_, retrying := fun m comp mem => ?_ }
    · rw [Relation.mem_modify] at mem
      obtain ⟨q, inside, rfl⟩ := mem
      refine .inl ⟨q.comp, .pending inside, ?_⟩
      split
      · exact again_renews _ _ _
      · exact .refl _
    · dsimp only at mem
      rcases eq_or_ne m n with rfl | same
      · rw [update_self] at mem
        obtain ⟨q, inside, rfl⟩ := mem_map.1 mem
        have pending : q ∈ c.pendingResults.rows :=
          (List.mem_filter.1 (mem_mergeSort.1 (mem_of_mem_take inside))).1
        exact .inl ⟨q.comp, .pending pending, again_renews _ _ _⟩
      · rw [update_of_ne same] at mem
        exact .same (.retrying mem)
  | retrySend n sent first rest due =>
    refine { retrying := fun m comp mem => ?_ }
    dsimp only at mem
    rcases eq_or_ne m n with rfl | same
    · rw [update_self] at mem
      exact .same (.retrying (n := m) (by rw [due]; exact mem_cons_of_mem _ mem))
    · rw [update_of_ne same] at mem
      exact .same (.retrying mem)
  | acknowledge n ack p free found settles =>
    refine { pending := fun q mem => .same (.pending (Relation.mem_filter.1 mem).1), acks := fun m q is => ?_ }
    dsimp only at is
    rcases eq_or_ne m n with rfl | same
    · rw [update_self] at is
      cases is
      exact .same (.pending (Relation.find?_eq_some.1 found).1)
    · rw [update_of_ne same] at is
      exact .same (.ack is)
  | mark n p marking =>
    refine { acks := fun m q is => ?_, cached := fun e mem => ?_ }
    · dsimp only at is
      rcases eq_or_ne m n with rfl | same
      · rw [update_self] at is
        cases is
      · rw [update_of_ne same] at is
        exact .same (.ack is)
    · rcases LruMap.mem_set mem with rfl | mem
      · exact .same (.ack marking)
      · exact .same (.cached mem)

/-- Where the results of the next state come from. -/
theorem carried_step (carried : Carried (c.step action).1 comp) : FromBefore c action comp :=
  (step_sources c action).fromBefore carried

/-- A result message was somewhere in the client. -/
theorem result_carried (sent : (c.step action).2 = .result comp) : Carried c comp := by
  generalize is : c.step action = result at sent
  cases is ▸ step_effect c action with
  | goes _ i d output goes still uncached lives resent starts => exact .resending (resent comp sent)
  | plain _ a stage output active free plain returns silent =>
    by_cases returned : stage = .returned
    · have why := returns returned
      subst sent
      generalize is_out : (Output.result comp) = out at why
      cases why with
      | sent comp' ready sent =>
        cases Output.when_eq_result is_out.symm
        exact .sending ready
      | _ => cases is_out
    · have := silent returned
      rw [this] at sent
      cases sent
  | retrySend n was_sent first rest due =>
    cases Output.when_eq_result sent
    exact .retrying (n := n) (by rw [due]; exact mem_cons_self)
  | _ => cases sent

/-- A run that a step leaves what it is, as far as a completion of it was called before. -/
structure SameRun (d d' : Dispatch) : Prop where
  invocationID : d'.invocationID = d.invocationID
  dispatchID : d'.dispatchID = d.dispatchID
  known : d'.known

theorem fresh_ne (sound : Sound c) (fresh : (c.dispatches i).stage.fresh)
    (known : (c.dispatches r).known) : r ≠ i := by
  rintro rfl
  rw [not_known_of_fresh (sound.late r) fresh] at known
  cases known

/-- A run whose completion was called keeps its identity, and its result stays submitted unless a call that has it
in hand gives it up. -/
theorem known_step (sound : Sound c) (known : (c.dispatches r).known) (action : Action) :
    SameRun (c.dispatches r) ((c.step action).1.dispatches r) ∧ ((c.dispatches r).resultSubmitted →
        ((c.step action).1.dispatches r).resultSubmitted ∨ ∃ a, (c.calls a).stage.owns = some r) := by
  have same : SameRun (c.dispatches r) (c.dispatches r) := ⟨rfl, rfl, known⟩
  generalize is : c.step action = result
  cases is ▸ step_effect c action with
  | arrive i id dispatchID idle assigned =>
    have other := fresh_ne sound (by rw [idle]; rfl) known
    rw [dispatches_of_ne other]
    exact ⟨same, .inl⟩
  | cached i comp arrived found =>
    have other := fresh_ne sound (by rw [arrived]; rfl) known
    have unchanged : (c.answerCached i comp).dispatches r = c.dispatches r := dispatches_of_ne other _
    rw [unchanged]
    exact ⟨same, .inl⟩
  | registers i arrived uncached unseen absent room =>
    have other := fresh_ne sound (by rw [arrived]; rfl) known
    have unchanged : (c.admitted i).dispatches r = c.dispatches r := dispatches_of_ne other _
    rw [unchanged]
    exact ⟨same, .inl⟩
  | goes _ i d output goes still uncached lives resent starts =>
    rcases eq_or_ne r i with rfl | is_it
    · rw [dispatches_self]
      exact ⟨⟨goes.invocationID, goes.dispatchID, goes.known known⟩, fun was => .inl (goes.resultSubmitted.trans was)⟩
    · rw [dispatches_of_ne is_it]
      exact ⟨same, .inl⟩
  | withdraw i refused =>
    have other : r ≠ i := by
      rintro rfl
      have := not_early_of_known (sound.late r) known
      rw [refused] at this
      cases this
    have unchanged : ((c.dropInflight (c.dispatches i).invocationID).move i .returned).dispatches r = c.dispatches r :=
      dispatches_of_ne other _
    rw [unchanged]
    exact ⟨same, .inl⟩
  | begins _ i call before own plain open_call =>
    change SameRun _ ((c.move i .completing).dispatches r) ∧ (_ → ((c.move i .completing).dispatches r).resultSubmitted ∨ _)
    unfold Client.move
    rcases eq_or_ne r i with rfl | is_it
    · rw [dispatches_self]
      exact ⟨⟨rfl, rfl, by simp [Dispatch.known]⟩, .inl⟩
    · rw [dispatches_of_ne is_it]
      exact ⟨same, .inl⟩
  | submit a original found free =>
    have kept := setSubmitted_same (c := c) original true r
    refine ⟨⟨kept.invocationID, kept.dispatchID, kept.known.trans known⟩, fun was => .inl ?_⟩
    change ((c.setSubmitted original true).dispatches r).resultSubmitted
    unfold Client.setSubmitted
    rcases eq_or_ne r original with rfl | is_it
    · rw [dispatches_self]
    · rwa [dispatches_of_ne is_it]
  | release a original stage =>
    have kept := setSubmitted_same (c := c) original false r
    refine ⟨⟨kept.invocationID, kept.dispatchID, kept.known.trans known⟩, fun was => ?_⟩
    by_cases is_it : r = original
    · exact .inr ⟨a, by rw [stage, is_it]; rfl⟩
    · refine .inl ?_
      change ((c.setSubmitted original false).dispatches r).resultSubmitted
      unfold Client.setSubmitted
      rwa [dispatches_of_ne is_it]
  | _ => exact ⟨same, .inl⟩

/-- A call takes a result into its hand by the compare-and-swap only. -/
theorem owns_step (action : Action) (owns : ((c.step action).1.calls a).stage.owns = some r) :
    (c.calls a).stage.owns = some r ∨ (c.dispatches r).resultSubmitted = false := by
  have went : ∀ {c' : Client} {b : Agent} (stage : CallStage), c'.calls = (c.goOn b stage).calls →
      (stage.owns = none ∨ stage.owns = (c.calls b).stage.owns) → (c'.calls a).stage.owns = some r →
      (c.calls a).stage.owns = some r := by
    intro c' b stage calls either owns
    rw [calls] at owns
    rcases eq_or_ne a b with rfl | is
    · rw [goOn_self] at owns
      rcases either with none_owned | same
      · rw [none_owned] at owns
        cases owns
      · rwa [same] at owns
    · rwa [goOn_of_ne is] at owns
  generalize is : c.step action = result at owns
  cases is ▸ step_effect c action with
  | begins _ i call before own plain open_call =>
    refine .inl ?_
    rcases eq_or_ne a (.dispatch i) with rfl | is_it
    · rw [calls_self, (CallStage.owns_of_plain plain).1] at owns
      cases owns
    · rwa [calls_of_ne is_it] at owns
  | handle n failed call idle started plain =>
    refine .inl ?_
    rcases eq_or_ne a (.handle n) with rfl | is_it
    · rw [calls_self, (CallStage.owns_of_plain plain).1] at owns
      cases owns
    · rwa [calls_of_ne is_it] at owns
  | plain _ b stage output active free plain returns silent =>
    exact .inl (went stage rfl (.inl (CallStage.owns_of_plain plain).1) owns)
  | find b finding => exact .inl (went (.submitting (c.inflight (c.target b))) rfl (.inl rfl) owns)
  | submit b original found free =>
    rcases eq_or_ne a b with rfl | is_it
    · rw [goOn_self] at owns
      cases owns
      exact .inr free
    · rw [goOn_of_ne is_it] at owns
      exact .inl owns
  | encode b encoding encrypted original outcome stage =>
    exact .inl (went (.confirming original outcome) rfl (.inr (by rw [stage]; rfl)) owns)
  | givesUp _ b original owner why =>
    exact .inl (went (.releasing original) rfl (.inr owner.symm) owns)
  | confirm b original ai outcome stage found =>
    exact .inl (went (.building original ai outcome) rfl (.inr (by rw [stage]; rfl)) owns)
  | build b wire now original ai outcome comp stage origin result =>
    exact .inl (went (.retaining original comp) rfl (.inr (by rw [stage]; rfl)) owns)
  | retain b original comp stage => exact .inl (went (.sending comp) rfl (.inl rfl) owns)
  | release b original stage => exact .inl (went .returned rfl (.inl rfl) owns)
  | _ => exact .inl owns

/-- A result whose run is done with making results. -/
structure Closed (c : Client) (comp : CompletedInvocation) : Prop where
  known : (c.dispatches comp.origin).known
  submitted : (c.dispatches comp.origin).resultSubmitted
  unowned : ∀ a, (c.calls a).stage.owns ≠ some comp.origin
  dispatchID : comp.result.dispatchID = (c.dispatches comp.origin).dispatchID

theorem Closed.step {comp comp' : CompletedInvocation} (closed : Closed c comp') (sound : Sound c)
    (renews : Renews comp comp') (action : Action) : Closed (c.step action).1 comp := by
  obtain ⟨origin, result⟩ := renews
  obtain ⟨same, stays⟩ := known_step sound closed.known action
  refine ⟨?_, ?_, fun a owns => ?_, ?_⟩
  · rw [origin]
    exact same.known
  · rw [origin]
    exact (stays closed.submitted).resolve_right fun ⟨a, owns⟩ => closed.unowned a owns
  · rw [origin] at owns
    rcases owns_step action owns with before | free
    · exact closed.unowned a before
    · rw [closed.submitted] at free
      cases free
  · rw [result.dispatchID, closed.dispatchID, origin]
    exact same.dispatchID.symm

/-- The result that a call retains is the only one of its run. -/
theorem closed_of_retained {original : Nat} (sound : Sound c)
    (stage : (c.calls a).stage = .retaining original comp) : Closed (c.step (.retain a)).1 comp := by
  have active : (c.calls a).stage ≠ .idle := by rw [stage]; nofun
  have fits := sound.fits a
  rw [stage] at fits
  obtain ⟨own, result⟩ := fits
  have after : Sound (c.step (.retain a)).1 := @Sound.step c sound (.retain a) trivial
  have known : (c.dispatches comp.origin).known := by
    rw [result.origin]
    exact sound.known a active
  have is_step : c.step (.retain a) = ({ c.goOn a (.sending comp) with
      pendingResults := c.pendingResults.upsert ⟨c.target a, comp⟩ }, .nothing) := by
    change c.retain a = _
    unfold Client.retain
    rw [stage]
  have pending : (c.step (.retain a)).1.Has .pending comp.origin := by
    rw [is_step]
    exact ⟨_, Relation.mem_upsert.2 (.inl rfl), rfl⟩
  refine ⟨(known_step sound known (.retain a)).1.known, after.submitted_of_has pending, fun b owns => ?_, ?_⟩
  · cases after.oneHand (.call b) .pending comp.origin owns pending
  · rw [(known_step sound known (.retain a)).1.dispatchID, result.dispatchID, result.origin]

/-- A result that is in the client or was sent. -/
def Item (trace : List (Event Client Action Output)) (c : Client) (comp : CompletedInvocation) : Prop :=
  Carried c comp ∨ ∃ e ∈ trace, e.output = .result comp

/-- The results of one run are copies of one result. -/
structure Outcomes (trace : List (Event Client Action Output)) (c : Client) : Prop where
  closed : ∀ comp, Item trace c comp → Closed c comp
  agree : ∀ comp comp', Item trace c comp → Item trace c comp' → comp'.origin = comp.origin →
    SameResult comp'.result comp.result

theorem item_step {trace : List (Event Client Action Output)}
    (item : Item (trace ++ [Event.of Client.step c action]) (c.step action).1 comp) :
    (∃ comp', Item trace c comp' ∧ Renews comp comp') ∨
      ∃ a original, action = .retain a ∧ (c.calls a).stage = .retaining original comp := by
  rcases item with carried | ⟨e, mem, sent⟩
  · rcases carried_step carried with ⟨comp', before, renews⟩ | new
    · exact .inl ⟨comp', .inl before, renews⟩
    · exact .inr new
  · rcases mem_append.1 mem with mem | mem
    · exact .inl ⟨comp, .inr ⟨e, mem, sent⟩, .refl comp⟩
    · obtain rfl := mem_singleton.1 mem
      exact .inl ⟨comp, .inl (result_carried sent), .refl comp⟩

theorem Outcomes.step {trace : List (Event Client Action Output)} (outcomes : Outcomes trace c) (sound : Sound c) :
    Outcomes (trace ++ [Event.of Client.step c action]) (c.step action).1 := by
  -- a call that retains a result of `r` has it in hand, so there was no other result of `r`
  have first : ∀ a original comp comp', (c.calls a).stage = .retaining original comp → Item trace c comp' →
      comp'.origin ≠ comp.origin := by
    intro a original comp comp' stage item same
    have fits := sound.fits a
    rw [stage] at fits
    refine (outcomes.closed comp' item).unowned a ?_
    rw [same, fits.2.origin, ← fits.1, stage]
    rfl
  constructor
  · intro comp item
    rcases item_step item with ⟨comp', before, renews⟩ | ⟨a, original, rfl, stage⟩
    · exact (outcomes.closed comp' before).step sound renews action
    · exact closed_of_retained sound stage
  · intro comp comp' item item' same
    rcases item_step item with ⟨old, before, renews⟩ | ⟨a, original, rfl, stage⟩ <;>
      rcases item_step item' with ⟨old', before', renews'⟩ | ⟨b, original', is_action, stage'⟩
    · have agree := outcomes.agree old old' before before' (renews'.1.symm.trans (same.trans renews.1))
      exact renews'.2.trans (agree.trans renews.2.symm)
    · exact absurd (renews.1.symm.trans same.symm) (first b original' comp' old stage' before)
    · exact absurd (renews'.1.symm.trans same) (first a original comp old' stage before')
    · cases is_action
      cases stage.symm.trans stage'
      exact .refl _

theorem outcomes_new : Outcomes [] Client.new := by
  have none_yet : ∀ comp, ¬ Item [] Client.new comp := by
    rintro comp (carried | ⟨e, mem, -⟩)
    · cases carried with
      | pending mem => exact absurd mem (Relation.not_mem_empty _)
      | ack is => cases is
      | cached mem | retrying mem => exact nomatch mem
      | sending is => cases is
      | resending is => cases is
    · exact nomatch mem
  exact ⟨fun comp item => absurd item (none_yet comp), fun comp comp' item => absurd item (none_yet comp)⟩

end Pagnet.Sdk.Invocation
