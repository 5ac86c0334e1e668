import Pagnet.Sdk.Slots

/-!
# Steps that change the in-flight map

A new frame, a lookup of a cached result, a registration and its withdrawal keep the
registrations and the results in order.
-/

namespace Pagnet.Sdk.Invocation

variable {c : Client}

theorem has_congr {c' : Client} (calls : c'.calls = c.calls) (pending : c'.pendingResults = c.pendingResults)
    (acks : c'.acks = c.acks) (h : Hand) (r : Nat) : c'.Has h r ↔ c.Has h r := by
  unfold Client.Has
  rw [calls, pending, acks]

variable {i : Nat}

/-- Goroutine `i` gets a new run that no call, pending result or acknowledgement is about. -/
theorem Handed.newRun {c' : Client} (handed : Handed c) (unknown : (c.dispatches i).known = false)
    (no_hand : ∀ h, ¬ c.Has h i) (calls : c'.calls = c.calls) (pending : c'.pendingResults = c.pendingResults)
    (acks : c'.acks = c.acks) (same : ∀ r, r ≠ i → c'.dispatches r = c.dispatches r)
    (holds : ∀ r, r ≠ i → (c'.holds r ↔ c.holds r)) (free : (c'.dispatches i).resultSubmitted = false)
    (still_unknown : (c'.dispatches i).known = false) : Handed c' := by
  have hands := has_congr calls pending acks
  have run_ne : ∀ a, (c'.calls a).stage ≠ .idle → (c'.calls a).run ≠ i := by
    rw [calls]
    exact fun a => handed.run_ne unknown
  have origin_ne : ∀ h r, c.Has h r → r ≠ i := by
    rintro h r has rfl
    exact no_hand h has
  have fits_same : ∀ p : Pending, p.comp.origin ≠ i → p.Fits c.dispatches → p.Fits c'.dispatches := by
    intro p other fits
    unfold Pending.Fits
    rw [same _ other]
    exact fits
  refine ⟨?_, ?_, ?_, ?_, ?_, ?_, ?_, ?_, ?_⟩
  · intro r early
    rcases eq_or_ne r i with rfl | is
    · exact free
    · rw [same r is] at early ⊢
      exact handed.unsubmitted r early
  · intro a active
    rw [same _ (run_ne a active)]
    rw [calls] at active ⊢
    exact handed.known a active
  · intro r active
    have other := run_ne _ active
    rw [calls] at active other ⊢
    obtain ⟨completing, run⟩ := handed.own r active
    rw [same r (run ▸ other)]
    exact ⟨completing, run⟩
  · intro a
    by_cases idle_call : (c'.calls a).stage = .idle
    · rw [idle_call]
      trivial
    · rw [same _ (run_ne a idle_call), calls]
      exact handed.fits a
  · intro p mem
    rw [pending] at mem
    exact fits_same p (origin_ne .pending _ ⟨p, mem, rfl⟩) (handed.pending p mem)
  · intro n p is
    rw [acks] at is
    exact fits_same p (origin_ne (.ack n) _ ⟨p, is, rfl⟩) (handed.acks n p is)
  · intro r known free
    rcases eq_or_ne r i with rfl | is
    · rw [still_unknown] at known
      cases known
    · rw [same r is] at known free
      exact (holds r is).2 (handed.present r known free)
  · intro r
    refine (exists_congr fun h => hands h r).trans ?_
    rcases eq_or_ne r i with rfl | is
    · refine ⟨?_, fun held => absurd held.2 (by rw [free]; nofun)⟩
      rintro ⟨h, has⟩
      exact absurd rfl (origin_ne h r has)
    · rw [same r is, holds r is]
      exact handed.inHand r
  · intro h h' r has has'
    exact handed.oneHand h h' r ((hands h r).1 has) ((hands h' r).1 has')

/-- A new frame: nothing refers to a goroutine that had not started. -/
theorem Sound.arrive (sound : Sound c) {id dispatchID : String} (idle : (c.dispatches i).stage = .idle)
    (assigned : dispatchID ≠ "") : Sound (c.putDispatch i ⟨id, dispatchID, 0, false, false, .arrived⟩) := by
  have was_fresh : (c.dispatches i).stage.fresh := by rw [idle]; rfl
  have unknown := not_known_of_fresh (sound.late i) was_fresh
  have not_held : ∀ id, c.inflight id ≠ some i := sound.fresh i was_fresh
  have self : (c.putDispatch i ⟨id, dispatchID, 0, false, false, .arrived⟩).dispatches i =
    ⟨id, dispatchID, 0, false, false, .arrived⟩ := dispatches_self _
  have others : ∀ r, r ≠ i → (c.putDispatch i ⟨id, dispatchID, 0, false, false, .arrived⟩).dispatches r = c.dispatches r :=
    fun r other => dispatches_of_ne other _
  have holds_ne : ∀ r, r ≠ i → ((c.putDispatch i ⟨id, dispatchID, 0, false, false, .arrived⟩).holds r ↔ c.holds r) :=
    fun r other => holds_congr rfl (by rw [others r other])
  refine ⟨sound.toRegistered.update (i := i) sound.few sound.unfinished (fun r other => .of_eq (others r other)) holds_ne
    (fun r id _ is => is) (fun id is => absurd is (not_held id)) (fun held => absurd held (not_held _)) ?_ (fun _ => not_held) ?_ ?_ ?_,
    sound.toHanded.newRun unknown (fun h has => not_held _ (sound.holds_of_has has)) rfl rfl rfl others holds_ne
      (by rw [self]) (by rw [self]; rfl)⟩
  · rw [self]; exact fun _ => assigned
  · rw [self]; nofun
  · rw [self]; nofun
  · rw [self]; nofun

/-- Looking a result up does not change which invocations are remembered. -/
theorem find?_get (m : LruMap String CompletedInvocation) (key id : String) :
    (m.get key).2.find? id = none ↔ m.find? id = none := by
  rw [LruMap.find?_eq_none, LruMap.find?_eq_none]
  exact forall_congr' fun e => by rw [LruMap.mem_get]

theorem Sound.cached (sound : Sound c) {comp : CompletedInvocation}
    (arrived : (c.dispatches i).stage = .arrived) : Sound (c.answerCached i comp) := by
  have moved : ∀ stage, stage.early = false → stage.fresh = false → stage ≠ .completing → stage ≠ .running →
      Sound (c.move i stage) := by
    intro stage early fresh still running
    exact sound.goes (Dispatch.goes_of_stage arrived (fun is => absurd is (by rw [early]; nofun)) fresh nofun nofun still
      running)
  have at_stage : Sound (c.move i
      (if comp.result.dispatchID = (c.dispatches i).dispatchID then .resending comp else .returned)) := by
    split <;> exact moved _ rfl rfl nofun nofun
  exact { at_stage with
    unfinished := fun id r is => ⟨(find?_get _ _ id).2 (at_stage.unfinished id r is).1, (at_stage.unfinished id r is).2⟩ }

theorem inflight_admitted (id : String) : (c.admitted i).inflight id =
    if id = (c.dispatches i).invocationID then some i else c.inflight id := by
  unfold Client.admitted Client.inflight
  split
  next is =>
    subst is
    rw [Relation.find?_upsert_self, Option.map_some]
  next other => rw [Relation.find?_upsert_of_ne (by exact other)]

theorem length_admitted : (c.admitted i).inflightInvocations.rows.length ≤ c.inflightInvocations.rows.length + 1 := by
  change (List.filter _ _ ++ [_]).length ≤ _
  rw [List.length_append, List.length_singleton]
  exact Nat.add_le_add_right (List.length_filter_le _ _) 1

/-- A registration of an invocation that no map knows. -/
theorem Sound.registers (sound : Sound c) (arrived : (c.dispatches i).stage = .arrived)
    (uncached : c.completedInvocations.find? (c.dispatches i).invocationID = none)
    (unseen : (c.dispatches i).invocationID ∉ c.seenInvocations.order)
    (absent : c.inflight (c.dispatches i).invocationID = none)
    (room : c.inflightInvocations.rows.length < maxActiveInvocations) : Sound (c.admitted i) := by
  have was_fresh : (c.dispatches i).stage.fresh := by rw [arrived]; rfl
  have unknown := not_known_of_fresh (sound.late i) was_fresh
  have not_held : ∀ id, c.inflight id ≠ some i := sound.fresh i was_fresh
  have dispatch_self : (c.admitted i).dispatches i = { c.dispatches i with
      acceptedGeneration := c.connGeneration, resultSubmitted := false, stage := .registered } := dispatches_self _
  have dispatch_ne : ∀ r, r ≠ i → (c.admitted i).dispatches r = c.dispatches r := fun r other => dispatches_of_ne other _
  have holds_self : (c.admitted i).holds i := by
    unfold Client.holds
    rw [dispatch_self, inflight_admitted, if_pos rfl]
  have holds_ne : ∀ r, r ≠ i → ((c.admitted i).holds r ↔ c.holds r) := by
    intro r other
    unfold Client.holds
    rw [dispatch_ne r other, inflight_admitted]
    split
    next same =>
      rw [same, absent]
      exact ⟨fun is => absurd (Option.some.inj is).symm other, nofun⟩
    · exact Iff.rfl
  have entry : ∀ id r, (c.admitted i).inflight id = some r →
      id = (c.dispatches i).invocationID ∧ r = i ∨ id ≠ (c.dispatches i).invocationID ∧ c.inflight id = some r := by
    intro id r is
    rw [inflight_admitted] at is
    split at is
    next same => exact .inl ⟨same, (Option.some.inj is).symm⟩
    next other => exact .inr ⟨other, is⟩
  refine ⟨sound.toRegistered.update (i := i) (length_admitted.trans room) (fun id r is => ?_)
    (fun r other => .of_eq (dispatch_ne r other)) holds_ne (fun r id other is => ?_) (fun id is => ?_)
    (fun _ => ?_) ?_ ?_ (fun _ => holds_self) ?_ ?_, sound.toHanded.newRun unknown
    (fun h has => not_held _ (sound.holds_of_has has)) rfl rfl rfl dispatch_ne holds_ne (by rw [dispatch_self]) ?_⟩
  · rcases entry id r is with ⟨rfl, -⟩ | ⟨-, was⟩
    · exact ⟨uncached, unseen⟩
    · exact sound.unfinished id r was
  · exact (entry id r is).elim (fun own => absurd own.2 other) And.right
  · rw [dispatch_self]
    exact (entry id i is).elim (fun own => own.1.symm) fun was => absurd was.2 (not_held id)
  · rw [dispatch_self]
    exact sound.arrived i arrived
  · rw [dispatch_self]; nofun
  · rw [dispatch_self]; nofun
  · rw [dispatch_self]
    intro started
    have late := sound.late i started
    rw [arrived] at late
    cases late
  · rw [dispatch_self]; nofun
  · rw [dispatch_self]
    exact Bool.or_eq_false_iff.2 ⟨(Bool.or_eq_false_iff.1 unknown).1, rfl⟩

theorem inflight_dropped (id id' : String) :
    (c.dropInflight id).inflight id' = if id' = id then none else c.inflight id' := by
  unfold Client.dropInflight Client.inflight
  split
  next same =>
    subst same
    rw [Option.map_eq_none_iff, Relation.find?_eq_none]
    intro e mem same
    have kept := (Relation.mem_filter.1 mem).2
    simp [same] at kept
  next other =>
    rw [Relation.find?_filter]
    intro e _ same
    simp [same, other]

/-- The registration of `r` leaves the in-flight map; the other runs keep theirs. -/
theorem Registered.drop (sound : Registered c) (c' : Client) {r : Nat} (held : c.holds r)
    (inflight : c'.inflightInvocations = (c.dropInflight (c.dispatches r).invocationID).inflightInvocations)
    (completed : ∀ id, id ≠ (c.dispatches r).invocationID → c.completedInvocations.find? id = none →
      c'.completedInvocations.find? id = none)
    (seen : ∀ id, id ≠ (c.dispatches r).invocationID → id ∉ c.seenInvocations.order → id ∉ c'.seenInvocations.order)
    (runs : ∀ k, k ≠ r → (c.dispatches k).Same (c'.dispatches k))
    (own : (c'.dispatches r).invocationID = (c.dispatches r).invocationID)
    (past : (c'.dispatches r).stage.fresh = false ∧ (c'.dispatches r).stage.early = false ∧
      ((c'.dispatches r).started → (c'.dispatches r).stage.late) ∧
      ((c'.dispatches r).stage = .running → (c'.dispatches r).started)) :
    Registered c' ∧ (∀ k, k ≠ r → (c'.holds k ↔ c.holds k)) ∧ ¬ c'.holds r := by
  have lookups : ∀ id, c'.inflight id = if id = (c.dispatches r).invocationID then none else c.inflight id := by
    intro id
    rw [← inflight_dropped]
    unfold Client.inflight
    rw [inflight]
  have holds_ne : ∀ k, k ≠ r → (c'.holds k ↔ c.holds k) := by
    intro k other
    unfold Client.holds
    rw [(runs k other).invocationID, lookups]
    split
    next same =>
      refine ⟨nofun, fun second => absurd ?_ other⟩
      exact holds_unique second held same
    · exact Iff.rfl
  have not_held : ¬ c'.holds r := by
    unfold Client.holds
    rw [own, lookups, if_pos rfl]
    nofun
  have ne_of_entry : ∀ id k, c'.inflight id = some k → c.inflight id = some k ∧ id ≠ (c.dispatches r).invocationID ∧ k ≠ r := by
    intro id k is
    rw [lookups] at is
    split at is
    · cases is
    next other =>
      refine ⟨is, other, ?_⟩
      rintro rfl
      exact other (sound.entry id k is).symm
  have few : c'.inflightInvocations.rows.length ≤ maxActiveInvocations := by
    rw [inflight]
    exact (List.length_filter_le _ _).trans sound.few
  refine ⟨sound.update (i := r) few (fun id k is => ?_) runs holds_ne (fun k id _ is => (ne_of_entry id k is).1)
    (fun id is => absurd rfl (ne_of_entry id r is).2.2) (fun is => absurd is not_held) (fun at_stage => ?_)
    (fun _ id is => (ne_of_entry id r is).2.2 rfl) (fun early => ?_) past.2.2.1 past.2.2.2, holds_ne, not_held⟩
  · obtain ⟨before, distinct, -⟩ := ne_of_entry id k is
    obtain ⟨uncached, unseen⟩ := sound.unfinished id k before
    exact ⟨completed id distinct uncached, seen id distinct unseen⟩
  · have fresh := past.1
    rw [at_stage] at fresh
    cases fresh
  · rw [past.2.1] at early
    cases early

/-- A refused registration is withdrawn before anything was in hand for it. -/
theorem Sound.withdraw (sound : Sound c) (refused : (c.dispatches i).stage = .refused) :
    Sound ((c.dropInflight (c.dispatches i).invocationID).move i .returned) := by
  have early : (c.dispatches i).stage.early := by rw [refused]; rfl
  have held := sound.early i early
  have free := sound.unsubmitted i early
  have not_started : (c.dispatches i).started = false := by
    cases is : (c.dispatches i).started with
    | false => rfl
    | true =>
      have late := sound.late i is
      rw [refused] at late
      cases late
  have unknown : (c.dispatches i).known = false := by
    unfold Dispatch.known
    rw [not_started, refused]
    rfl
  let c' : Client := (c.dropInflight (c.dispatches i).invocationID).move i .returned
  have self : c'.dispatches i = { c.dispatches i with stage := .returned } := dispatches_self _
  have same : ∀ r, r ≠ i → c'.dispatches r = c.dispatches r := fun r other => dispatches_of_ne other _
  obtain ⟨registered, holds_ne, -⟩ := sound.toRegistered.drop c' held rfl (fun _ _ => id) (fun _ _ => id)
    (fun k other => .of_eq (same k other)) (by rw [self]) (by rw [self]; exact ⟨rfl, rfl, fun _ => rfl, nofun⟩)
  -- the run keeps its identity, so only its registration is gone
  refine ⟨registered, sound.toHanded.newRun unknown (sound.no_hand free) rfl rfl rfl same holds_ne (by rw [self]; exact free) ?_⟩
  rw [self]
  unfold Dispatch.known
  rw [not_started]
  rfl

end Pagnet.Sdk.Invocation
