import Pagnet.Sdk.Effect

/-!
# In-flight invocations and their results

A registration whose `resultSubmitted` is set has its result in exactly one hand: a
call that is making it, `pendingResults`, or an acknowledgement between its two
sections. All that follows about slots and results rests on this, and it holds as long
as a completion finds its own registration, or none, under its invocation's id.
-/

namespace Pagnet.Sdk.Invocation
open Function

/-- The registration of run `r` is the in-flight entry of its invocation. -/
def Client.holds (c : Client) (r : Nat) : Prop := c.inflight (c.dispatches r).invocationID = some r

/-- A hand that the result of a submitted run can be in. -/
inductive Hand
  | call (a : Agent)
  | pending
  | ack (n : Nat)

/-- The result of run `r` is in this hand. -/
def Client.Has (c : Client) : Hand → Nat → Prop
  | .call a, r => (c.calls a).stage.owns = some r
  | .pending, r => ∃ p ∈ c.pendingResults, p.comp.origin = r
  | .ack n, r => ∃ p, c.acks n = some p ∧ p.comp.origin = r

theorem Client.has_call {c : Client} {a : Agent} {r : Nat} {stage : CallStage} (is : (c.calls a).stage = stage)
    (owns : stage.owns = some r) : c.Has (.call a) r := by
  change (c.calls a).stage.owns = some r
  rw [is, owns]

/-- The result names the run's invocation and dispatch. -/
structure CompletedInvocation.Of (comp : CompletedInvocation) (r : Nat) (d : Dispatch) : Prop where
  origin : comp.origin = r
  dispatchID : comp.result.dispatchID = d.dispatchID
  invocationID : comp.result.invocationID = d.invocationID

variable {d d' : Dispatch} {r run i : Nat} {stage : CallStage} {h : Hand} {a : Agent}

theorem CompletedInvocation.Of.congr {comp : CompletedInvocation} (is : comp.Of r d)
    (invocation : d'.invocationID = d.invocationID) (dispatch : d'.dispatchID = d.dispatchID) : comp.Of r d' :=
  ⟨is.origin, is.dispatchID.trans dispatch.symm, is.invocationID.trans invocation.symm⟩

/-- What a call of `run` found and made is its own run's. -/
def CallStage.Fits (run : Nat) (d : Dispatch) : CallStage → Prop
  | .submitting original => ∀ r, original = some r → r = run
  | .encoding original | .confirming original _ | .releasing original => original = run
  | .building original ai _ => original = run ∧ ai = run
  | .retaining original comp => original = run ∧ comp.Of run d
  | .sending comp => comp.Of run d
  | _ => True

theorem CallStage.Fits.congr (fits : stage.Fits run d)
    (invocation : d'.invocationID = d.invocationID) (dispatch : d'.dispatchID = d.dispatchID) : stage.Fits run d' := by
  cases stage with
  | retaining original comp => exact ⟨fits.1, CompletedInvocation.Of.congr fits.2 invocation dispatch⟩
  | sending comp => exact CompletedInvocation.Of.congr fits invocation dispatch
  | _ => exact fits

theorem CallStage.Fits.owner (fits : stage.Fits run d) (owns : stage.owns = some r) : r = run := by
  cases stage <;> cases owns
  all_goals first | exact fits | exact fits.1

theorem CallStage.fits_of_plain (plain : stage.plain) : stage.Fits run d := by
  cases stage <;> trivial

theorem CallStage.owns_of_plain (plain : stage.plain) : stage.owns = none ∧ stage ≠ .idle := by
  cases stage <;> simp [CallStage.plain, CallStage.owns] at plain ⊢

/-- The entry of `pendingResults`, or of an acknowledgement, is its own run's. -/
def Pending.Fits (p : Pending) (dispatches : Nat → Dispatch) : Prop :=
  p.id = (dispatches p.comp.origin).invocationID ∧ p.comp.Of p.comp.origin (dispatches p.comp.origin)

/-- The in-flight map against the goroutines and the memory of completed invocations. -/
structure Registered (c : Client) : Prop where
  few : c.inflightInvocations.rows.length ≤ maxActiveInvocations
  entry : ∀ id r, c.inflight id = some r → (c.dispatches r).invocationID = id
  unfinished : ∀ id r, c.inflight id = some r → c.completedInvocations.find? id = none ∧ id ∉ c.seenInvocations.order
  assigned : ∀ r, c.holds r → (c.dispatches r).dispatchID ≠ ""
  arrived : ∀ i, (c.dispatches i).stage = .arrived → (c.dispatches i).dispatchID ≠ ""
  fresh : ∀ i, (c.dispatches i).stage.fresh → ∀ id, c.inflight id ≠ some i
  early : ∀ i, (c.dispatches i).stage.early → c.holds i
  late : ∀ i, (c.dispatches i).started → (c.dispatches i).stage.late
  ran : ∀ i, (c.dispatches i).stage = .running → (c.dispatches i).started

/-- The calls, the pending results and the acknowledgements against the runs they are about. -/
structure Handed (c : Client) : Prop where
  unsubmitted : ∀ i, (c.dispatches i).stage.early → (c.dispatches i).resultSubmitted = false
  known : ∀ a, (c.calls a).stage ≠ .idle → (c.dispatches (c.calls a).run).known
  own : ∀ i, (c.calls (.dispatch i)).stage ≠ .idle →
    (c.dispatches i).stage = .completing ∧ (c.calls (.dispatch i)).run = i
  fits : ∀ a, (c.calls a).stage.Fits (c.calls a).run (c.dispatches (c.calls a).run)
  pending : ∀ p ∈ c.pendingResults, p.Fits c.dispatches
  acks : ∀ n p, c.acks n = some p → p.Fits c.dispatches
  present : ∀ r, (c.dispatches r).known → (c.dispatches r).resultSubmitted = false → c.holds r
  inHand : ∀ r, (∃ h, c.Has h r) ↔ c.holds r ∧ (c.dispatches r).resultSubmitted
  oneHand : ∀ h h' r, c.Has h r → c.Has h' r → h = h'

/-- What every schedule keeps in which a completion finds its own registration or none. -/
structure Sound (c : Client) : Prop extends Registered c, Handed c

theorem sound_new : Sound Client.new where
  few := Nat.zero_le _
  entry := nofun
  unfinished := nofun
  assigned := nofun
  arrived := nofun
  fresh := fun _ _ _ => nofun
  early := nofun
  late := nofun
  ran := nofun
  unsubmitted := nofun
  known := fun _ active => absurd rfl active
  own := fun _ active => absurd rfl active
  fits := fun _ => trivial
  pending := fun _ mem => absurd mem (Relation.not_mem_empty _)
  acks := nofun
  present := nofun
  inHand := by
    intro r
    constructor
    · rintro ⟨a | _ | n, has⟩
      · cases has
      · obtain ⟨p, mem, -⟩ := has
        exact absurd mem (Relation.not_mem_empty _)
      · obtain ⟨p, is, -⟩ := has
        cases is
    · rintro ⟨holds, -⟩
      cases holds
  oneHand := by
    rintro (a | _ | n) h' r has
    · cases has
    · obtain ⟨p, mem, -⟩ := has
      exact absurd mem (Relation.not_mem_empty _)
    · obtain ⟨p, is, -⟩ := has
      cases is

variable {c c' : Client}

/-- Two registrations of one invocation are one. -/
theorem holds_unique {r' : Nat} (first : c.holds r) (second : c.holds r')
    (same : (c.dispatches r).invocationID = (c.dispatches r').invocationID) : r = r' := by
  unfold Client.holds at first second
  rw [same, second] at first
  exact (Option.some.inj first).symm

theorem holds_congr (inflight : c'.inflightInvocations = c.inflightInvocations)
    (same : (c'.dispatches r).invocationID = (c.dispatches r).invocationID) : c'.holds r ↔ c.holds r := by
  unfold Client.holds Client.inflight
  rw [inflight, same]

theorem Handed.holds_of_has (handed : Handed c) (has : c.Has h r) : c.holds r :=
  ((handed.inHand r).1 ⟨h, has⟩).1

theorem Handed.submitted_of_has (handed : Handed c) (has : c.Has h r) :
    (c.dispatches r).resultSubmitted := ((handed.inHand r).1 ⟨h, has⟩).2

/-- Nothing is in hand for a run that is not submitted. -/
theorem Handed.no_hand (handed : Handed c) (free : (c.dispatches r).resultSubmitted = false) (h : Hand) :
    ¬ c.Has h r := by
  intro has
  rw [handed.submitted_of_has has] at free
  cases free

theorem not_known_of_fresh (late : d.started → d.stage.late) (fresh : d.stage.fresh) :
    d.known = false := by
  unfold Dispatch.known
  cases is : d.started with
  | true =>
    have := late is
    cases stage : d.stage <;> rw [stage] at fresh this <;> simp [Stage.fresh, Stage.late] at fresh this
  | false => cases stage : d.stage <;> rw [stage] at fresh <;> first | rfl | simp [Stage.fresh] at fresh

/-- A run whose completion was called is past its early stages. -/
theorem not_early_of_known (late : d.started → d.stage.late) (known : d.known) :
    d.stage.early = false := by
  unfold Dispatch.known at known
  cases is : d.started with
  | true =>
    have := late is
    cases stage : d.stage <;> rw [stage] at this <;> first | rfl | simp [Stage.late] at this
  | false =>
    rw [is] at known
    cases stage : d.stage <;> rw [stage] at known <;> first | rfl | cases known

/-- No call is about a run that no completion was called of. -/
theorem Handed.run_ne (handed : Handed c) (unknown : (c.dispatches i).known = false)
    (active : (c.calls a).stage ≠ .idle) : (c.calls a).run ≠ i := by
  rintro rfl
  rw [handed.known a active] at unknown
  cases unknown

theorem dispatches_of_ne (other : r ≠ i) (d : Dispatch) : (c.putDispatch i d).dispatches r = c.dispatches r := by
  exact update_of_ne other d c.dispatches

theorem dispatches_self (d : Dispatch) : (c.putDispatch i d).dispatches i = d := by
  exact update_self i d c.dispatches

theorem calls_of_ne {b : Agent} (other : b ≠ a) (call : Call) : (c.putCall a call).calls b = c.calls b := by
  exact update_of_ne other call c.calls

theorem calls_self (call : Call) : (c.putCall a call).calls a = call := by
  exact update_self a call c.calls

/-- The same run, of which only `resultSubmitted` and the generation may differ. -/
structure Dispatch.Same (d d' : Dispatch) : Prop where
  invocationID : d'.invocationID = d.invocationID
  dispatchID : d'.dispatchID = d.dispatchID
  stage : d'.stage = d.stage
  started : d'.started = d.started

theorem Dispatch.Same.refl (d : Dispatch) : d.Same d := ⟨rfl, rfl, rfl, rfl⟩

theorem Dispatch.Same.of_eq (same : d' = d) : d.Same d' := same ▸ .refl _

theorem Dispatch.Same.known (same : d.Same d') : d'.known = d.known := by
  unfold Dispatch.known
  rw [same.stage, same.started]

theorem setSubmitted_same (o : Nat) (value : Bool) (r : Nat) :
    (c.dispatches r).Same ((c.setSubmitted o value).dispatches r) := by
  unfold Client.setSubmitted
  rcases eq_or_ne r o with rfl | is
  · rw [dispatches_self]
    exact ⟨rfl, rfl, rfl, rfl⟩
  · rw [dispatches_of_ne is]
    exact .refl _

theorem Pending.Fits.congr {p : Pending} {f f' : Nat → Dispatch} (fits : p.Fits f)
    (invocation : ∀ r, (f' r).invocationID = (f r).invocationID) (dispatch : ∀ r, (f' r).dispatchID = (f r).dispatchID) :
    p.Fits f' :=
  ⟨fits.1.trans (invocation _).symm, fits.2.congr (invocation _) (dispatch _)⟩

/-- The registrations do not depend on the results. -/
theorem Registered.congr (sound : Registered c) (inflight : c'.inflightInvocations = c.inflightInvocations)
    (completed : c'.completedInvocations = c.completedInvocations) (seen : c'.seenInvocations = c.seenInvocations)
    (runs : ∀ r, (c.dispatches r).Same (c'.dispatches r)) : Registered c' := by
  have lookups : ∀ id, c'.inflight id = c.inflight id := by
    intro id
    unfold Client.inflight
    rw [inflight]
  have holds : ∀ r, c'.holds r ↔ c.holds r := fun r => holds_congr inflight (runs r).invocationID
  refine ⟨by rw [inflight]; exact sound.few, fun id r is => ?_, fun id r is => ?_, fun r held => ?_, fun i at_stage => ?_,
    fun i fresh id => ?_, fun i early => ?_, fun i started => ?_, fun i running => ?_⟩
  · rw [(runs r).invocationID]
    exact sound.entry id r (lookups id ▸ is)
  · rw [completed, seen]
    exact sound.unfinished id r (lookups id ▸ is)
  · rw [(runs r).dispatchID]
    exact sound.assigned r ((holds r).1 held)
  · rw [(runs i).stage] at at_stage
    rw [(runs i).dispatchID]
    exact sound.arrived i at_stage
  · rw [(runs i).stage] at fresh
    rw [lookups]
    exact sound.fresh i fresh id
  · rw [(runs i).stage] at early
    exact (holds i).2 (sound.early i early)
  · rw [(runs i).started] at started
    rw [(runs i).stage]
    exact sound.late i started
  · rw [(runs i).stage] at running
    rw [(runs i).started]
    exact sound.ran i running

/-- The registrations after a step about run `i`: the other runs and their registrations are the same. -/
theorem Registered.update (sound : Registered c) (few : c'.inflightInvocations.rows.length ≤ maxActiveInvocations)
    (unfinished : ∀ id r, c'.inflight id = some r →
      c'.completedInvocations.find? id = none ∧ id ∉ c'.seenInvocations.order)
    (others : ∀ r, r ≠ i → (c.dispatches r).Same (c'.dispatches r)) (holds : ∀ r, r ≠ i → (c'.holds r ↔ c.holds r))
    (lookups : ∀ r id, r ≠ i → c'.inflight id = some r → c.inflight id = some r)
    (entry : ∀ id, c'.inflight id = some i → (c'.dispatches i).invocationID = id)
    (assigned : c'.holds i → (c'.dispatches i).dispatchID ≠ "")
    (arrived : (c'.dispatches i).stage = .arrived → (c'.dispatches i).dispatchID ≠ "")
    (fresh : (c'.dispatches i).stage.fresh → ∀ id, c'.inflight id ≠ some i)
    (early : (c'.dispatches i).stage.early → c'.holds i)
    (late : (c'.dispatches i).started → (c'.dispatches i).stage.late)
    (ran : (c'.dispatches i).stage = .running → (c'.dispatches i).started) : Registered c' := by
  have each {P : Nat → Prop} (own : P i) (rest : ∀ r, r ≠ i → P r) (r : Nat) : P r := by
    rcases eq_or_ne r i with rfl | is
    · exact own
    · exact rest r is
  refine ⟨few, fun id => each (entry id) fun r other is => ?_, unfinished, each assigned fun r other held => ?_,
    each arrived fun r other at_arrived => ?_, each fresh fun r other is_fresh id is => ?_, each early fun r other is_early => ?_,
    each late fun r other started => ?_, each ran fun r other running => ?_⟩
  · rw [(others r other).invocationID]
    exact sound.entry id r (lookups r id other is)
  · rw [(others r other).dispatchID]
    exact sound.assigned r ((holds r other).1 held)
  · rw [(others r other).stage] at at_arrived
    rw [(others r other).dispatchID]
    exact sound.arrived r at_arrived
  · rw [(others r other).stage] at is_fresh
    exact sound.fresh r is_fresh id (lookups r id other is)
  · rw [(others r other).stage] at is_early
    exact (holds r other).2 (sound.early r is_early)
  · rw [(others r other).started] at started
    rw [(others r other).stage]
    exact sound.late r started
  · rw [(others r other).stage] at running
    rw [(others r other).started]
    exact sound.ran r running

/-- A goroutine goes on with its run: the maps, the calls and the hands are the same. -/
theorem Sound.goes (sound : Sound c) (goes : (c.dispatches i).Goes d) : Sound (c.putDispatch i d) := by
  have each : ∀ r, ((c.putDispatch i d).dispatches r).invocationID = (c.dispatches r).invocationID ∧
      ((c.putDispatch i d).dispatches r).dispatchID = (c.dispatches r).dispatchID ∧
      ((c.putDispatch i d).dispatches r).resultSubmitted = (c.dispatches r).resultSubmitted := by
    intro r
    rcases eq_or_ne r i with rfl | is
    · rw [dispatches_self]
      exact ⟨goes.invocationID, goes.dispatchID, goes.resultSubmitted⟩
    · rw [dispatches_of_ne is]
      exact ⟨rfl, rfl, rfl⟩
  have holds : ∀ r, (c.putDispatch i d).holds r ↔ c.holds r := fun r => holds_congr rfl (each r).1
  have early : ∀ r, ((c.putDispatch i d).dispatches r).stage.early → (c.dispatches r).stage.early := by
    intro r early
    rcases eq_or_ne r i with rfl | is
    · rw [dispatches_self] at early
      exact goes.early early
    · rwa [dispatches_of_ne is] at early
  have pend : ∀ p : Pending, p.Fits c.dispatches → p.Fits (c.putDispatch i d).dispatches := fun p fits =>
    fits.congr (fun r => (each r).1) fun r => (each r).2.1
  have self : (c.putDispatch i d).dispatches i = d := dispatches_self d
  have registered : Registered (c.putDispatch i d) := by
    refine sound.toRegistered.update (i := i) sound.few sound.unfinished (fun r other => .of_eq (dispatches_of_ne other d))
      (fun r _ => holds r) (fun r id _ is => is) (fun id is => (each i).1.trans (sound.entry id i is)) (fun held => ?_)
      (fun at_arrived => ?_) (fun fresh => ?_) (fun is => (holds i).2 (sound.early i (early i is))) ?_ ?_
    · rw [(each i).2.1]
      exact sound.assigned i ((holds i).1 held)
    · have fresh := goes.fresh
      rw [← self, at_arrived] at fresh
      cases fresh
    · rw [self, goes.fresh] at fresh
      cases fresh
    · rw [self]
      exact goes.late (sound.late i)
    · rw [self]
      exact goes.ran (sound.ran i)
  refine ⟨registered, ⟨?_, ?_, ?_, ?_,
    fun p mem => pend p (sound.pending p mem), fun n p is => pend p (sound.acks n p is), ?_, ?_, ?_⟩⟩
  · intro r is
    rw [(each r).2.2]
    exact sound.unsubmitted r (early r is)
  · intro a active
    have known := sound.known a active
    change ((c.putDispatch i d).dispatches (c.calls a).run).known
    by_cases is : (c.calls a).run = i
    · rw [is] at known ⊢
      rw [dispatches_self]
      exact goes.known known
    · rwa [dispatches_of_ne is]
  · intro r active
    obtain ⟨completing, run⟩ := sound.own r active
    rcases eq_or_ne r i with rfl | is
    · exact absurd completing goes.here
    · rw [dispatches_of_ne is]
      exact ⟨completing, run⟩
  · intro a
    exact (sound.fits a).congr (each _).1 (each _).2.1
  · intro r known free
    rw [(each r).2.2] at free
    rw [holds]
    rcases eq_or_ne r i with rfl | is
    · rw [dispatches_self] at known
      rcases goes.learned known with was | before
      · exact sound.present r was free
      · exact sound.early r before
    · rw [dispatches_of_ne is] at known
      exact sound.present r known free
  · intro r
    rw [holds, (each r).2.2, ← sound.inHand r]
    exact exists_congr fun h => by cases h <;> rfl
  · intro h h' r has has'
    refine sound.oneHand h h' r ?_ ?_
    · cases h <;> exact has
    · cases h' <;> exact has'

/-- A call goes on and has the same registration in hand, or none before and after. -/
theorem Sound.putCall (sound : Sound c) {call : Call}
    (owns : call.stage.owns = (c.calls a).stage.owns) (known : (c.dispatches call.run).known)
    (own : ∀ i, a = .dispatch i → (c.dispatches i).stage = .completing ∧ call.run = i)
    (fits : call.stage.Fits call.run (c.dispatches call.run)) : Sound (c.putCall a call) := by
  have has : ∀ h r, (c.putCall a call).Has h r ↔ c.Has h r := by
    intro h r
    cases h with
    | call b =>
      change ((c.putCall a call).calls b).stage.owns = some r ↔ (c.calls b).stage.owns = some r
      rcases eq_or_ne b a with rfl | is
      · rw [calls_self, owns]
      · rw [calls_of_ne is]
    | pending | ack => exact Iff.rfl
  refine ⟨sound.toRegistered.congr rfl rfl rfl fun r => .refl _, ⟨sound.unsubmitted, ?_, ?_, ?_, sound.pending, sound.acks,
    sound.present, fun r => (exists_congr fun h => has h r).trans (sound.inHand r),
    fun h h' r first second => sound.oneHand h h' r ((has h r).1 first) ((has h' r).1 second)⟩⟩
  · intro b active
    rcases eq_or_ne b a with rfl | is
    · rw [calls_self]
      exact known
    · rw [calls_of_ne is] at active ⊢
      exact sound.known b active
  · intro i active
    rcases eq_or_ne (Agent.dispatch i) a with rfl | is
    · rw [calls_self]
      exact own i rfl
    · rw [calls_of_ne is] at active ⊢
      exact sound.own i active
  · intro b
    rcases eq_or_ne b a with rfl | is
    · rw [calls_self]
      exact fits
    · rw [calls_of_ne is]
      exact sound.fits b

theorem Sound.goOn (sound : Sound c) (active : (c.calls a).stage ≠ .idle) (owns : stage.owns = (c.calls a).stage.owns)
    (fits : stage.Fits (c.calls a).run (c.dispatches (c.calls a).run)) : Sound (c.goOn a stage) := by
  refine sound.putCall owns (sound.known a active) ?_ fits
  rintro i rfl
  exact sound.own i active

end Pagnet.Sdk.Invocation
