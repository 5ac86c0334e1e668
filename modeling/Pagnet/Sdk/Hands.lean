import Pagnet.Sdk.Registrations

/-!
# Results pass from hand to hand

A step about the result of one run leaves the results of all other runs where they
are. With the registrations this gives the invariant for every step.
-/

namespace Pagnet.Sdk.Invocation
open Function

variable {c : Client}

/-- A step about the result of run `r`: the other runs keep theirs where they were. -/
structure Passes (c c' : Client) (r : Nat) : Prop where
  runs : ∀ k, (c.dispatches k).Same (c'.dispatches k)
  submitted : ∀ k, k ≠ r → (c'.dispatches k).resultSubmitted = (c.dispatches k).resultSubmitted
  holds : ∀ k, k ≠ r → (c'.holds k ↔ c.holds k)
  hands : ∀ h k, k ≠ r → (c'.Has h k ↔ c.Has h k)
  calls : ∀ b, (c'.calls b).run = (c.calls b).run ∧ ((c'.calls b).stage ≠ .idle → (c.calls b).stage ≠ .idle)

/-- Where the result of run `r` is afterwards. -/
structure Placed (c : Client) (r : Nat) : Prop where
  past : (c.dispatches r).stage.early = false
  fits : ∀ a, (c.calls a).stage.Fits (c.calls a).run (c.dispatches (c.calls a).run)
  pending : ∀ p ∈ c.pendingResults, p.Fits c.dispatches
  acks : ∀ n p, c.acks n = some p → p.Fits c.dispatches
  present : (c.dispatches r).resultSubmitted = false → c.holds r
  inHand : (∃ h, c.Has h r) ↔ c.holds r ∧ (c.dispatches r).resultSubmitted
  oneHand : ∀ h h', c.Has h r → c.Has h' r → h = h'

variable {c' : Client} {r original n : Nat} {a : Agent} {stage : CallStage} {placed : Bool} {p : Pending}
    {comp : CompletedInvocation}

theorem Handed.pass (handed : Handed c) (passes : Passes c c' r) (placed : Placed c' r) : Handed c' := by
  refine ⟨fun k early => ?_, fun a active => ?_, fun k active => ?_, placed.fits, placed.pending, placed.acks,
    fun k known free => ?_, fun k => ?_, fun h h' k has has' => ?_⟩
  · have other : k ≠ r := by
      rintro rfl
      rw [placed.past] at early
      cases early
    rw [passes.submitted k other]
    exact handed.unsubmitted k (by rwa [(passes.runs k).stage] at early)
  · rw [(passes.calls a).1, (passes.runs _).known]
    exact handed.known a ((passes.calls a).2 active)
  · rw [(passes.calls _).1, (passes.runs k).stage]
    exact handed.own k ((passes.calls _).2 active)
  · rcases eq_or_ne k r with rfl | is
    · exact placed.present free
    · rw [passes.submitted k is] at free
      rw [(passes.runs k).known] at known
      exact (passes.holds k is).2 (handed.present k known free)
  · rcases eq_or_ne k r with rfl | is
    · exact placed.inHand
    · rw [passes.submitted k is, passes.holds k is, ← handed.inHand k]
      exact exists_congr fun h => passes.hands h k is
  · rcases eq_or_ne k r with rfl | is
    · exact placed.oneHand h h' has has'
    · exact handed.oneHand h h' k ((passes.hands h k is).1 has) ((passes.hands h' k is).1 has')

theorem goOn_run (stage : CallStage) (b : Agent) : ((c.goOn a stage).calls b).run = (c.calls b).run := by
  unfold Client.goOn
  rcases eq_or_ne b a with rfl | is
  · rw [calls_self]
  · rw [calls_of_ne is]

theorem goOn_self (stage : CallStage) : ((c.goOn a stage).calls a).stage = stage := by
  unfold Client.goOn
  rw [calls_self]

theorem goOn_of_ne {b : Agent} (other : b ≠ a) (stage : CallStage) : (c.goOn a stage).calls b = c.calls b :=
  calls_of_ne other _

/-- The calls after one of them went on. -/
theorem goOn_calls (stage : CallStage) (active : (c.calls a).stage ≠ .idle) (b : Agent) :
    ((c.goOn a stage).calls b).run = (c.calls b).run ∧
      (((c.goOn a stage).calls b).stage ≠ .idle → (c.calls b).stage ≠ .idle) := by
  refine ⟨goOn_run stage b, fun after => ?_⟩
  rcases eq_or_ne b a with rfl | is
  · exact active
  · rwa [goOn_of_ne is] at after

/-- The other calls have in hand what they had. -/
theorem goOn_has (h : Hand) (off : (c.calls a).stage.owns ≠ some r)
    (off' : stage.owns ≠ some r) : (c.goOn a stage).Has h r ↔ c.Has h r := by
  cases h with
  | call b =>
    change ((c.goOn a stage).calls b).stage.owns = some r ↔ (c.calls b).stage.owns = some r
    rcases eq_or_ne b a with rfl | is
    · rw [goOn_self]
      exact ⟨fun owns => absurd owns off', fun owns => absurd owns off⟩
    · rw [goOn_of_ne is]
  | pending | ack => exact Iff.rfl

/-- The result of run `r` is in the hand `dest` afterwards, or in none; the other results are where they were. -/
theorem moved_hands {dest : Hand}
    (moved : ∀ h k, c'.Has h k ↔ if k = r then placed ∧ h = dest else c.Has h k) :
    (∀ h k, k ≠ r → (c'.Has h k ↔ c.Has h k)) ∧ ((∃ h, c'.Has h r) ↔ placed) ∧
      ∀ h h', c'.Has h r → c'.Has h' r → h = h' := by
  have here : ∀ h, c'.Has h r ↔ placed ∧ h = dest := fun h => (moved h r).trans (by rw [if_pos rfl])
  refine ⟨fun h k other => (moved h k).trans (by rw [if_neg other]), ?_, fun h h' has has' => ?_⟩
  · exact ⟨fun ⟨h, has⟩ => ((here h).1 has).1, fun is => ⟨dest, (here dest).2 ⟨is, rfl⟩⟩⟩
  · exact ((here h).1 has).2.trans ((here h').1 has').2.symm

/-- A call takes the result of run `r` into its hand, or out of it. -/
theorem goOn_moved (stage : CallStage) (placed : Bool) (only : ∀ h, c.Has h r → h = .call a)
    (before : ∀ k, (c.calls a).stage.owns = some k → k = r) (after : stage.owns = if placed then some r else none)
    (h : Hand) (k : Nat) : (c.goOn a stage).Has h k ↔ if k = r then placed ∧ h = .call a else c.Has h k := by
  rcases eq_or_ne k r with rfl | is
  · rw [if_pos rfl]
    have elsewhere (other : h ≠ .call a) (same : (c.goOn a stage).Has h k ↔ c.Has h k) :
        (c.goOn a stage).Has h k ↔ placed ∧ h = .call a :=
      ⟨fun has => absurd (only h (same.1 has)) other, fun both => absurd both.2 other⟩
    cases h with
    | call b =>
      rcases eq_or_ne b a with rfl | own
      · change ((c.goOn b stage).calls b).stage.owns = some k ↔ _
        rw [goOn_self, after]
        cases placed <;> simp
      · refine elsewhere (fun same => own (Hand.call.inj same)) ?_
        change ((c.goOn a stage).calls b).stage.owns = some k ↔ (c.calls b).stage.owns = some k
        rw [goOn_of_ne own]
    | pending | ack => exact elsewhere nofun Iff.rfl
  · rw [if_neg is]
    refine goOn_has h (fun owns => is (before k owns)) fun owns => is ?_
    rw [after] at owns
    cases placed with
    | false => cases owns
    | true => exact (Option.some.inj owns).symm

/-- What the calls made stays their own run's. -/
theorem Handed.goOn_fits (handed : Handed c)
    (calls : c'.calls = (c.goOn a stage).calls) (runs : ∀ k, (c.dispatches k).Same (c'.dispatches k))
    (fits : stage.Fits (c.calls a).run (c'.dispatches (c.calls a).run)) (b : Agent) :
    (c'.calls b).stage.Fits (c'.calls b).run (c'.dispatches (c'.calls b).run) := by
  rw [calls, goOn_run]
  rcases eq_or_ne b a with rfl | is
  · rw [goOn_self]
    exact fits
  · rw [goOn_of_ne is]
    exact (handed.fits b).congr (runs _).invocationID (runs _).dispatchID

section

variable (sound : Sound c)
include sound

theorem Sound.not_early (active : (c.calls a).stage ≠ .idle) : (c.dispatches (c.calls a).run).stage.early = false :=
  not_early_of_known (sound.late _) (sound.known a active)

theorem Sound.late_of_submitted (submitted : (c.dispatches r).resultSubmitted) :
    (c.dispatches r).stage.early = false := by
  cases early : (c.dispatches r).stage.early with
  | false => rfl
  | true =>
    rw [sound.unsubmitted _ early] at submitted
    cases submitted

/-- A call marks the result of its own run as submitted, and has it in hand, or it takes both back. -/
theorem Sound.mark_submitted
    (own : original = (c.calls a).run) (active : (c.calls a).stage ≠ .idle) (held : c.holds original)
    (only : ∀ h, c.Has h original → h = .call a)
    (before : ∀ k, (c.calls a).stage.owns = some k → k = original) (after : stage.owns = if placed then some original else none)
    (fits : stage.Fits (c.calls a).run ((c.setSubmitted original placed).dispatches (c.calls a).run)) :
    Sound ((c.setSubmitted original placed).goOn a stage) := by
  have runs : ∀ k, (c.dispatches k).Same (((c.setSubmitted original placed).goOn a stage).dispatches k) :=
    setSubmitted_same original placed
  have holds : ∀ k, ((c.setSubmitted original placed).goOn a stage).holds k ↔ c.holds k := fun k =>
    holds_congr rfl (runs k).invocationID
  have submitted : (((c.setSubmitted original placed).goOn a stage).dispatches original).resultSubmitted = placed := by
    change ((c.setSubmitted original placed).dispatches original).resultSubmitted = placed
    unfold Client.setSubmitted
    rw [dispatches_self]
  have same := @has_congr c (c.setSubmitted original placed) rfl rfl rfl
  obtain ⟨others, some_hand, one⟩ := moved_hands fun h k =>
    goOn_moved (c := c.setSubmitted original placed) stage placed (fun h has => only h ((same h _).1 has)) before after h k
  refine ⟨sound.toRegistered.congr rfl rfl rfl runs, sound.toHanded.pass (r := original) ⟨runs, fun k other => ?_,
    fun k _ => holds k, fun h k other => (others h k other).trans (same h k), goOn_calls _ active⟩
    ⟨?_, sound.toHanded.goOn_fits rfl runs fits, fun p mem => ?_, fun n p is => ?_, fun _ => (holds _).2 held, ?_, one⟩⟩
  · change ((c.setSubmitted original placed).dispatches k).resultSubmitted = _
    unfold Client.setSubmitted
    rw [dispatches_of_ne other]
  · rw [(runs original).stage]
    exact own ▸ sound.not_early active
  · exact (sound.pending p mem).congr (fun r => (runs r).invocationID) fun r => (runs r).dispatchID
  · exact (sound.acks n p is).congr (fun r => (runs r).invocationID) fun r => (runs r).dispatchID
  · rw [some_hand, submitted]
    exact ⟨fun is => ⟨(holds _).2 held, is⟩, And.right⟩

/-- The compare-and-swap: the result of the call's own run comes into its hand. -/
theorem Sound.submit (found : (c.calls a).stage = .submitting (some original))
    (free : (c.dispatches original).resultSubmitted = false) :
    Sound ((c.setSubmitted original true).goOn a (.encoding original)) := by
  have active : (c.calls a).stage ≠ .idle := by rw [found]; nofun
  have own : original = (c.calls a).run := by
    have fits := sound.fits a
    rw [found] at fits
    exact fits original rfl
  have known := sound.known a active
  rw [← own] at known
  refine sound.mark_submitted own active (sound.present original known free)
    (fun h has => absurd has (sound.no_hand free h)) (fun k owns => ?_) rfl own
  rw [found] at owns
  cases owns

/-- The reset: nothing is in hand for the run any more. -/
theorem Sound.release (stage : (c.calls a).stage = .releasing original) :
    Sound ((c.setSubmitted original false).goOn a .returned) := by
  have owner : c.Has (.call a) original := Client.has_call stage rfl
  exact sound.mark_submitted ((sound.fits a).owner owner) (by simp [stage]) (sound.holds_of_has owner)
    (fun h has => sound.oneHand h (.call a) original has owner) (fun k owns => Option.some.inj (owns.symm.trans owner)) rfl trivial

/-- A pending result of the invocation of a registered run is that run's. -/
theorem Sound.origin_eq (mem : p ∈ c.pendingResults) (held : c.holds r)
    (same : p.id = (c.dispatches r).invocationID) : p.comp.origin = r := by
  have has : c.Has .pending p.comp.origin := ⟨p, mem, rfl⟩
  exact holds_unique (sound.holds_of_has has) held ((sound.pending p mem).1.symm.trans same)

/-- The result enters `pendingResults`: it goes from the call's hand to the pending ones. -/
theorem Sound.retain
    (stage : (c.calls a).stage = .retaining original comp) :
    Sound { c.goOn a (.sending comp) with pendingResults := c.pendingResults.upsert ⟨c.target a, comp⟩ } := by
  have active : (c.calls a).stage ≠ .idle := by rw [stage]; nofun
  have fits := sound.fits a
  rw [stage] at fits
  obtain ⟨own, result⟩ := fits
  have owner : c.Has (.call a) original := Client.has_call stage rfl
  have held := sound.holds_of_has owner
  have submitted := sound.submitted_of_has owner
  have origin : comp.origin = original := result.origin.trans own.symm
  have target : c.target a = (c.dispatches original).invocationID := by rw [own]; rfl
  -- nothing was pending for this invocation
  have not_pending : ∀ p ∈ c.pendingResults, p.id ≠ c.target a := by
    intro p mem same
    have same_origin := sound.origin_eq mem held (same.trans target)
    cases sound.oneHand .pending (.call a) original ⟨p, mem, same_origin⟩ owner
  let c' : Client := { c.goOn a (.sending comp) with pendingResults := c.pendingResults.upsert ⟨c.target a, comp⟩ }
  have pending : ∀ p, p ∈ c'.pendingResults ↔ p = ⟨c.target a, comp⟩ ∨ p ∈ c.pendingResults := fun p =>
    Relation.mem_upsert.trans (or_congr_right ⟨And.left, fun mem => ⟨mem, not_pending p mem⟩⟩)
  have released := goOn_moved (.sending comp) false
    (fun h has => sound.oneHand h (.call a) original has owner) (fun k owns => Option.some.inj (owns.symm.trans owner)) rfl
  have moved : ∀ h k, c'.Has h k ↔ if k = original then true ∧ h = .pending else c.Has h k := by
    intro h k
    cases h with
    | call b => exact (released (.call b) k).trans (by simp)
    | pending =>
      constructor
      · rintro ⟨p, mem, rfl⟩
        split
        · exact ⟨rfl, rfl⟩
        next other =>
          rcases (pending p).1 mem with rfl | mem
          · exact absurd origin other
          · exact ⟨p, mem, rfl⟩
      · split
        next is => exact fun _ => ⟨_, (pending _).2 (.inl rfl), origin.trans is.symm⟩
        · exact fun ⟨p, mem, is⟩ => ⟨p, (pending p).2 (.inr mem), is⟩
    | ack n => exact (released (.ack n) k).trans (by simp)
  obtain ⟨others, some_hand, one⟩ := moved_hands moved
  refine ⟨sound.toRegistered.congr rfl rfl rfl fun _ => .refl _, sound.toHanded.pass (r := original)
    ⟨fun _ => .refl _, fun _ _ => rfl, fun _ _ => Iff.rfl, others, goOn_calls _ active⟩
    ⟨own ▸ sound.not_early active, sound.toHanded.goOn_fits rfl (fun _ => .refl _) result, fun p mem => ?_, sound.acks,
      fun _ => held, some_hand.trans ⟨fun _ => ⟨held, submitted⟩, fun _ => rfl⟩, one⟩⟩
  rcases (pending p).1 mem with rfl | mem
  · refine ⟨?_, ?_⟩
    · rw [origin]
      exact target
    · rw [origin]
      exact own ▸ result
  · exact sound.pending p mem

end

/-- The next attempt of a result is the same result of the same run. -/
theorem CompletedInvocation.Of.again {d : Dispatch} (is : comp.Of r d)
    (connGeneration now : Int) : (comp.again connGeneration now).Of r d := ⟨is.origin, is.dispatchID, is.invocationID⟩

/-- A retry rewrites pending results in place. -/
theorem Sound.retry (sound : Sound c) (due : Pending → Bool) (now : Int) (retries : Nat → List CompletedInvocation) :
    Sound { c with
      pendingResults := c.pendingResults.modify due (Pending.again c.connGeneration now)
        (Pending.again_id c.connGeneration now)
      retries := retries } := by
  let c' : Client := { c with
    pendingResults := c.pendingResults.modify due (Pending.again c.connGeneration now)
      (Pending.again_id c.connGeneration now)
    retries := retries }
  have pending : ∀ p, p ∈ c'.pendingResults ↔
      ∃ q ∈ c.pendingResults, (if due q then q.again c.connGeneration now else q) = p := fun p => by
    rw [Relation.mem_modify]
  have origin : ∀ q : Pending, (if due q then q.again c.connGeneration now else q).comp.origin = q.comp.origin := by
    intro q
    split <;> rfl
  have hands : ∀ h r, c'.Has h r ↔ c.Has h r := by
    intro h r
    cases h with
    | call a => exact Iff.rfl
    | pending =>
      constructor
      · rintro ⟨p, mem, is⟩
        obtain ⟨q, inside, rfl⟩ := (pending p).1 mem
        exact ⟨q, inside, (origin q).symm.trans is⟩
      · rintro ⟨q, mem, is⟩
        exact ⟨_, (pending _).2 ⟨q, mem, rfl⟩, (origin q).trans is⟩
    | ack n => exact Iff.rfl
  exact { sound with
    pending := fun p mem => by
      obtain ⟨q, inside, rfl⟩ := (pending p).1 mem
      have fits := sound.pending q inside
      split
      · exact ⟨fits.1, fits.2.again _ _⟩
      · exact fits
    inHand := fun r => (exists_congr fun h => hands h r).trans (sound.inHand r)
    oneHand := fun h h' r has has' => sound.oneHand h h' r ((hands h r).1 has) ((hands h' r).1 has') }

/-- An acknowledgement takes a pending result into its hand. -/
theorem Sound.acknowledge (sound : Sound c) {id : String} (free : c.acks n = none)
    (found : c.pendingResults.find? id = some p) :
    Sound { c with
      pendingResults := c.pendingResults.filter fun q => q.id ≠ id
      acks := Function.update c.acks n (some p) } := by
  obtain ⟨mem, rfl⟩ := Relation.find?_eq_some.1 found
  have owner : c.Has .pending p.comp.origin := ⟨p, mem, rfl⟩
  have held := sound.holds_of_has owner
  have submitted := sound.submitted_of_has owner
  have fits := sound.pending p mem
  let c' : Client := { c with
    pendingResults := c.pendingResults.filter fun q => q.id ≠ p.id
    acks := Function.update c.acks n (some p) }
  have pending : ∀ q, q ∈ c'.pendingResults ↔ q ∈ c.pendingResults ∧ q.id ≠ p.id := fun q =>
    Relation.mem_filter.trans (and_congr_right fun _ => decide_eq_true_iff)
  have ack_self : c'.acks n = some p := update_self n _ _
  have ack_ne : ∀ m, m ≠ n → c'.acks m = c.acks m := fun m other => update_of_ne other _ _
  have moved : ∀ h k, c'.Has h k ↔ if k = p.comp.origin then true ∧ h = .ack n else c.Has h k := by
    intro h k
    cases h with
    | call b =>
      split
      next is =>
        subst is
        refine ⟨fun has => ?_, fun both => nomatch both.2⟩
        cases sound.oneHand (.call b) .pending _ has owner
      · exact Iff.rfl
    | pending =>
      constructor
      · rintro ⟨q, inside, rfl⟩
        obtain ⟨inside, other⟩ := (pending q).1 inside
        rw [if_neg fun same => other (((sound.pending q inside).1.trans (by rw [same])).trans fits.1.symm)]
        exact ⟨q, inside, rfl⟩
      · split
        · exact fun both => nomatch both.2
        next other =>
          rintro ⟨q, inside, rfl⟩
          refine ⟨q, (pending q).2 ⟨inside, fun same => other ?_⟩, rfl⟩
          rw [Relation.eq_of_key inside mem same]
    | ack m =>
      change (∃ q, c'.acks m = some q ∧ _) ↔ _
      rcases eq_or_ne m n with rfl | is
      · rw [ack_self]
        split
        next here => exact ⟨fun _ => ⟨rfl, rfl⟩, fun _ => ⟨p, rfl, here.symm⟩⟩
        next other =>
          refine ⟨fun ⟨q, is, from_q⟩ => absurd from_q ?_, fun ⟨q, is, _⟩ => ?_⟩
          · rw [← Option.some.inj is]
            exact fun same => other same.symm
          · cases free.symm.trans is
      · rw [ack_ne m is]
        split
        next here =>
          subst here
          refine ⟨fun has => ?_, fun both => absurd (Hand.ack.inj both.2) is⟩
          cases sound.oneHand (.ack m) .pending _ has owner
        · exact Iff.rfl
  obtain ⟨others, some_hand, one⟩ := moved_hands moved
  refine ⟨sound.toRegistered.congr rfl rfl rfl fun _ => .refl _, sound.toHanded.pass (r := p.comp.origin)
    ⟨fun _ => .refl _, fun _ _ => rfl, fun _ _ => Iff.rfl, others, fun _ => ⟨rfl, id⟩⟩
    ⟨sound.late_of_submitted submitted, sound.fits, fun q inside => sound.pending q ((pending q).1 inside).1, fun m q is => ?_,
      fun _ => held, some_hand.trans ⟨fun _ => ⟨held, submitted⟩, fun _ => rfl⟩, one⟩⟩
  rcases eq_or_ne m n with rfl | same
  · cases ack_self.symm.trans is
    exact fits
  · exact sound.acks m q (ack_ne m same ▸ is)

/-- The acknowledged invocation leaves the in-flight map and is remembered. -/
theorem Sound.mark (sound : Sound c) (marking : c.acks n = some p) :
    Sound { c.dropInflight p.id with
      completedInvocations := c.completedInvocations.set p.id p.comp p.comp.encodedBytes
      seenInvocations := c.seenInvocations.add p.id
      acks := Function.update c.acks n none } := by
  have owner : c.Has (.ack n) p.comp.origin := ⟨p, marking, rfl⟩
  have held := sound.holds_of_has owner
  have submitted := sound.submitted_of_has owner
  have fits := sound.acks n p marking
  let c' : Client := { c.dropInflight p.id with
    completedInvocations := c.completedInvocations.set p.id p.comp p.comp.encodedBytes
    seenInvocations := c.seenInvocations.add p.id
    acks := Function.update c.acks n none }
  have ack_ne : ∀ m, m ≠ n → c'.acks m = c.acks m := fun m other => update_of_ne other _ _
  have ack_self : c'.acks n = none := update_self n _ _
  have not_fresh : (c.dispatches p.comp.origin).stage.fresh = false := by
    cases fresh : (c.dispatches p.comp.origin).stage.fresh with
    | false => rfl
    | true => exact absurd held (sound.fresh _ fresh _)
  have not_early := sound.late_of_submitted submitted
  obtain ⟨registered, holds_ne, not_held⟩ := sound.toRegistered.drop c' held (by rw [← fits.1])
    (fun id other uncached => by
      rw [LruMap.find?_eq_none] at uncached ⊢
      intro e mem
      rcases LruMap.mem_set mem with rfl | mem
      · exact fun same => other (same.symm.trans fits.1)
      · exact uncached e mem)
    (fun id other unseen mem => by
      rcases LruSet.mem_of_mem_add mem with rfl | mem
      · exact other fits.1
      · exact unseen mem)
    (fun k _ => .refl _) rfl ⟨not_fresh, not_early, sound.late _, sound.ran _⟩
  have moved : ∀ h k, c'.Has h k ↔ if k = p.comp.origin then false ∧ h = .ack n else c.Has h k := by
    intro h k
    have gone (other : h ≠ .ack n) (same : c'.Has h k ↔ c.Has h k) :
        c'.Has h k ↔ if k = p.comp.origin then false ∧ h = .ack n else c.Has h k := by
      split
      next is =>
        subst is
        exact ⟨fun has => absurd (sound.oneHand h (.ack n) _ (same.1 has) owner) other, fun both => nomatch both.1⟩
      · exact same
    cases h with
    | call | pending => exact gone nofun Iff.rfl
    | ack m =>
      rcases eq_or_ne m n with rfl | is
      · change (∃ q, c'.acks m = some q ∧ _) ↔ _
        rw [ack_self]
        refine ⟨fun ⟨_, absent, _⟩ => (nomatch absent), fun has => ?_⟩
        split at has
        · exact nomatch has.1
        next other =>
          obtain ⟨q, is, rfl⟩ := has
          cases marking.symm.trans is
          exact absurd rfl other
      · refine gone (fun same => is (Hand.ack.inj same)) ?_
        change (∃ q, c'.acks m = some q ∧ _) ↔ _
        rw [ack_ne m is]
        exact Iff.rfl
  obtain ⟨others, some_hand, one⟩ := moved_hands moved
  refine ⟨registered, sound.toHanded.pass (r := p.comp.origin)
    ⟨fun _ => .refl _, fun _ _ => rfl, holds_ne, others, fun _ => ⟨rfl, id⟩⟩
    ⟨not_early, sound.fits, sound.pending, fun m q is => ?_, fun unsubmitted => ?_,
      some_hand.trans ⟨nofun, fun both => absurd both.1 not_held⟩, one⟩⟩
  · refine sound.acks m q (ack_ne m ?_ ▸ is)
    rintro rfl
    cases ack_self.symm.trans is
  · cases submitted.symm.trans unsubmitted

/-- A completion begins to read the in-flight map only when it finds its own registration, or none,
under its invocation's id. -/
def OwnEntry (c : Client) : Action → Prop
  | .find a => ∀ r, c.inflight (c.target a) = some r → r = (c.calls a).run
  | _ => True

/-- Every step keeps the registrations and their results in order. -/
theorem Sound.step (sound : Sound c) {action : Action} (own_entry : OwnEntry c action) : Sound (c.step action).1 := by
  generalize is : c.step action = result
  cases is ▸ step_effect c action with
  | stay => exact sound
  | arrive i id dispatchID idle assigned => exact sound.arrive idle assigned
  | cached i comp arrived found => exact sound.cached arrived
  | registers i arrived uncached unseen absent room => exact sound.registers arrived uncached unseen absent room
  | goes _ i d output goes still uncached lives resent starts => exact sound.goes goes
  | withdraw i refused => exact sound.withdraw refused
  | begins _ i call before own plain open_call =>
    have here : (c.dispatches i).stage ≠ .completing := by
      intro completing
      rw [completing] at before
      exact before.elim nofun fun running => absurd running.1 nofun
    have goes : (c.dispatches i).Goes { c.dispatches i with stage := .completing } := by
      refine ⟨rfl, rfl, rfl, nofun, rfl, fun _ _ => rfl, fun _ => ?_, fun _ => ?_, fun _ => nofun, here, fun _ => rfl⟩
      · simp [Dispatch.known]
      · rcases before with early | ⟨running, -⟩
        · exact .inr early
        · refine .inl ?_
          unfold Dispatch.known
          rw [sound.ran i running]
          rfl
    have idle : (c.calls (.dispatch i)).stage = .idle := by
      by_contra active
      exact here (sound.own i active).1
    have stage_now : ((c.move i .completing).dispatches i).stage = .completing := by
      unfold Client.move
      rw [dispatches_self]
    refine (sound.goes goes).putCall ?_ ?_ ?_ (CallStage.fits_of_plain plain)
    · change call.stage.owns = (c.calls (.dispatch i)).stage.owns
      rw [(CallStage.owns_of_plain plain).1, idle]
      rfl
    · rw [own]
      unfold Dispatch.known
      rw [dispatches_self]
      simp
    · intro k same
      cases same
      exact ⟨stage_now, own⟩
  | handle n failed call idle started plain =>
    refine sound.putCall ?_ ?_ (fun k same => by cases same) (CallStage.fits_of_plain plain)
    · rw [(CallStage.owns_of_plain plain).1, idle]
      rfl
    · unfold Dispatch.known
      rw [started]
      rfl
  | plain _ a stage output active free plain returns silent =>
    exact sound.goOn active.1 (by rw [free]; exact (CallStage.owns_of_plain plain).1) (CallStage.fits_of_plain plain)
  | find a finding =>
    exact sound.goOn (by simp [finding]) (by rw [finding]; rfl) own_entry
  | submit a original found free => exact sound.submit found free
  | encode a encoding encrypted original outcome stage =>
    have fits := sound.fits a
    rw [stage] at fits
    exact sound.goOn (by simp [stage]) (by rw [stage]; rfl) fits
  | givesUp _ a original owner why =>
    refine sound.goOn (fun idle => ?_) owner.symm ((sound.fits a).owner owner)
    rw [idle] at owner
    cases owner
  | confirm a original ai outcome stage found =>
    have fits := sound.fits a
    rw [stage] at fits
    have owner : c.Has (.call a) original := Client.has_call stage rfl
    have held := sound.holds_of_has owner
    have same : ai = original := by
      rw [(show original = (c.calls a).run from fits)] at held ⊢
      exact Option.some.inj (found.symm.trans held)
    exact sound.goOn (by simp [stage]) (by rw [stage]; rfl) ⟨fits, same.trans fits⟩
  | build a wire now original ai outcome comp stage origin result =>
    have fits := sound.fits a
    rw [stage] at fits
    refine sound.goOn (by simp [stage]) (by rw [stage]; rfl) ⟨fits.1, origin, ?_, ?_⟩
    · rw [result, ← fits.2]
      rfl
    · rw [result]
      rfl
  | retain a original comp stage => exact sound.retain stage
  | release a original stage => exact sound.release stage
  | retry n force now done => exact sound.retry _ now _
  | retrySend n sent comp rest due => exact { sound with }
  | acknowledge n ack p free found settles => exact sound.acknowledge free found
  | mark n p marking => exact sound.mark marking
  | reconnect => exact { sound with }

end Pagnet.Sdk.Invocation
