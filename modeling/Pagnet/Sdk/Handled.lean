import Pagnet.Sdk.Delivery

/-!
# Handled deliveries

At most one goroutine of an id holds its place in the in-flight set, so at most
one handler run of it is active. That an acknowledged delivery is not run again
needs more: the duplicate memory is read before the in-flight section, and a
goroutine that read it too early runs the handler a second time.
-/

namespace Pagnet.Sdk
open List

/-- The goroutine's id is in the in-flight set because of it. -/
def Pc.holds : Pc → Bool
  | .registered | .decrypted | .running | .finishing _ _ => true
  | _ => false

/-- The goroutine found its id new and has neither given up nor finished. -/
def Pc.fresh : Pc → Bool
  | .checked | .ready | .registered | .decrypted | .running | .finishing _ _ => true
  | _ => false

variable {pc : Pc} {m : Nat} {a : Action}

theorem Pc.fresh_of_holds (holds : pc.holds) : pc.fresh := by
  cases pc <;> first | rfl | cases holds

/-- A fresh goroutine stands before its in-flight section or holds its place. -/
theorem Pc.fresh_cases (fresh : pc.fresh) : (pc = .checked ∨ pc = .ready) ∨ pc.holds := by
  cases pc <;> first | exact .inr rfl | exact .inl (.inl rfl) | exact .inl (.inr rfl) | cases fresh

/-- The goroutine that an action is a step of. -/
def Action.goroutine : Action → Nat
  | .deliver n _ _ | .check n | .lookup n _ | .register n | .decrypt n _ | .route n _ | .handled n _ | .finish n
  | .ack n => n

/-- What a step of goroutine `n` can do. -/
inductive Effect (c : Client) (n : Nat) : Client × Output → Prop
  | stay : Effect c n (c, .nothing)
  | deliver (kind : Kind) (id : String) : Effect c n (c.put n ⟨kind, id, .arrived⟩, .nothing)
  | pass (pc : Pc) (output : Output) (holds : pc.holds → (c.threads n).pc.holds)
      (fresh : pc.fresh → (c.threads n).pc.fresh ∨ (c.threads n).id ∉ c.seenDeliveries.order)
      (starts : ∀ id, output = .started id → (c.threads n).pc.holds ∧ id = (c.threads n).id) :
      Effect c n (c.move n pc, output)
  | enter (fresh : (c.threads n).pc.fresh) (absent : (c.threads n).id ∉ c.inflightDeliveries) :
      Effect c n ({ c.move n .registered with
        inflightDeliveries := insert (c.threads n).id c.inflightDeliveries }, .nothing)
  | leave (ran ackIt : Bool) (last : (c.threads n).pc = .finishing ran ackIt) :
      Effect c n (c.leave n ackIt, .finished (c.threads n).id ran ackIt)

variable {c : Client} {n : Nat}

theorem enter_effect (fresh : (c.threads n).pc.fresh) : Effect c n (c.enter n) := by
  unfold Client.enter
  split
  · exact .pass .returned .nothing nofun nofun nofun
  next absent => exact .enter fresh absent

theorem check_effect : Effect c n
    (c.move n (if c.seenDeliveries.contains (c.threads n).id then .acking else .checked), .nothing) := by
  cases known : c.seenDeliveries.contains (c.threads n).id with
  | true => exact .pass .acking .nothing nofun nofun nofun
  | false => exact .pass .checked .nothing nofun (fun _ => .inr (of_decide_eq_false known)) nofun

theorem lookup_effect (handler : Bool) (checked : (c.threads n).pc = .checked) : Effect c n
    (c.move n (if handler then .ready else .returned), .nothing) := by
  cases handler with
  | true => exact .pass .ready .nothing nofun (fun _ => .inl (by rw [checked]; rfl)) nofun
  | false => exact .pass .returned .nothing nofun nofun nofun

/-- A goroutine that holds its place goes on holding it, and may start the handlers. -/
theorem Effect.hold (next : Pc) (output : Output) (at_pc : (c.threads n).pc = pc) (holds : pc.holds)
    (starts : ∀ id, output = .started id → id = (c.threads n).id) : Effect c n (c.move n next, output) := by
  have held : (c.threads n).pc.holds := by rwa [at_pc]
  exact .pass next output (fun _ => held) (fun _ => .inl (Pc.fresh_of_holds held)) fun id is => ⟨held, starts id is⟩

/-- Every step is one of these effects. -/
theorem step_effect (c : Client) (a : Action) : Effect c a.goroutine (c.step a) := by
  cases a with
  | deliver n kind id =>
    change Effect c n (c.deliver n kind id)
    unfold Client.deliver
    split
    · exact .deliver kind id
    · exact .stay
  | check n =>
    change Effect c n (c.check n)
    unfold Client.check
    split
    · exact check_effect
    · exact .stay
  | lookup n handler =>
    change Effect c n (c.lookup n handler)
    unfold Client.lookup
    split
    next is_message checked => exact lookup_effect handler checked
    · exact .stay
  | register n =>
    change Effect c n (c.register n)
    unfold Client.register
    split
    next is_message ready => exact enter_effect (by rw [ready]; rfl)
    next is_event checked => exact enter_effect (by rw [checked]; rfl)
    · exact .stay
  | decrypt n ok =>
    change Effect c n (c.decrypt n ok)
    unfold Client.decrypt
    split
    next registered => exact .hold _ _ registered rfl nofun
    next registered is_message => exact .hold _ _ registered rfl fun id is => (Output.started.inj is).symm
    next registered is_event => exact .hold _ _ registered rfl nofun
    · exact .stay
  | route n handlers =>
    change Effect c n (c.route n handlers)
    unfold Client.route
    split
    next decrypted => exact .hold _ _ decrypted rfl fun id is => (Output.started.inj is).symm
    next decrypted => exact .hold _ _ decrypted rfl nofun
    · exact .stay
  | handled n failed =>
    change Effect c n (c.handled n failed)
    unfold Client.handled
    split
    next running => exact .hold _ _ running rfl nofun
    · exact .stay
  | finish n =>
    change Effect c n (c.finish n)
    unfold Client.finish
    split
    next ran ackIt last => exact .leave ran ackIt last
    · exact .stay
  | ack n =>
    change Effect c n (c.ack n)
    unfold Client.ack
    split
    · exact .pass .returned _ nofun nofun nofun
    · exact .stay

/-- The in-flight set holds the ids of the goroutines between their sections, each for one goroutine. -/
structure Exclusive (c : Client) : Prop where
  held : ∀ n, (c.threads n).pc.holds → (c.threads n).id ∈ c.inflightDeliveries
  alone : ∀ m n, (c.threads m).pc.holds → (c.threads n).pc.holds →
    (c.threads m).id = (c.threads n).id → m = n

theorem put_self (d : Delivery) : (c.put n d).threads n = d := by
  exact Function.update_self n d c.threads

/-- Goroutines other than `n` do not notice a step of `n`. -/
theorem put_of_ne (other : m ≠ n) (d : Delivery) : (c.put n d).threads m = c.threads m := by
  exact Function.update_of_ne other d c.threads

theorem move_self (pc : Pc) : (c.move n pc).threads n = { c.threads n with pc } := put_self _

theorem move_of_ne (other : m ≠ n) (pc : Pc) : (c.move n pc).threads m = c.threads m := put_of_ne other _

/-- A step of one goroutine leaves the others where they are. -/
theorem step_of_ne (other : m ≠ a.goroutine) : (c.step a).1.threads m = c.threads m := by
  generalize is : c.step a = result
  cases is ▸ step_effect c a with
  | stay => rfl
  | deliver kind id => exact put_of_ne other _
  | pass pc output holds fresh starts => exact move_of_ne other pc
  | enter fresh absent => exact move_of_ne other .registered
  | leave ran ackIt last => exact move_of_ne other _

/-- Goroutine `n` may only give its place up. -/
theorem Exclusive.move (sound : Exclusive c) {c' : Client} (same : c'.inflightDeliveries = c.inflightDeliveries)
    (others : ∀ m ≠ n, c'.threads m = c.threads m)
    (gives : (c'.threads n).pc.holds → (c.threads n).pc.holds ∧ (c'.threads n).id = (c.threads n).id) :
    Exclusive c' := by
  have was : ∀ m, (c'.threads m).pc.holds →
      (c.threads m).pc.holds ∧ (c'.threads m).id = (c.threads m).id := by
    intro m holds
    rcases eq_or_ne m n with rfl | is
    · exact gives holds
    · rw [others m is] at holds ⊢
      exact ⟨holds, rfl⟩
  constructor
  · intro m holds
    obtain ⟨held, id⟩ := was m holds
    rw [id, same]
    exact sound.held m held
  · intro m k first second ids
    obtain ⟨held, id⟩ := was m first
    obtain ⟨held', id'⟩ := was k second
    rw [id, id'] at ids
    exact sound.alone m k held held' ids

theorem Exclusive.enter (sound : Exclusive c) (absent : (c.threads n).id ∉ c.inflightDeliveries) :
    Exclusive { c.move n .registered with
      inflightDeliveries := insert (c.threads n).id c.inflightDeliveries } := by
  -- no goroutine of that id held its place, since the set did not contain it
  have other_id : ∀ m ≠ n, (c.threads m).pc.holds → (c.threads m).id ≠ (c.threads n).id := by
    intro m _ holds same
    exact absent (same ▸ sound.held m holds)
  constructor
  · intro m holds
    rcases eq_or_ne m n with rfl | is
    · rw [move_self]
      exact Finset.mem_insert_self _ _
    · rw [move_of_ne is] at holds ⊢
      exact Finset.mem_insert_of_mem (sound.held m holds)
  · intro m k first second ids
    by_cases m_is : m = n <;> by_cases k_is : k = n
    · rw [m_is, k_is]
    · subst m_is
      rw [move_of_ne k_is] at second ids
      rw [move_self] at ids
      exact absurd ids.symm (other_id k k_is second)
    · subst k_is
      rw [move_of_ne m_is] at first ids
      rw [move_self] at ids
      exact absurd ids (other_id m m_is first)
    · rw [move_of_ne m_is] at first ids
      rw [move_of_ne k_is] at second ids
      exact sound.alone m k first second ids

/-- After its last section a goroutine holds nothing. -/
theorem leave_self (ackIt : Bool) : ((c.leave n ackIt).threads n).pc.holds = false ∧
    ((c.leave n ackIt).threads n).pc.fresh = false := by
  change ((c.move n _).threads n).pc.holds = false ∧ ((c.move n _).threads n).pc.fresh = false
  rw [move_self]
  cases ackIt <;> exact ⟨rfl, rfl⟩

theorem leave_of_ne (other : m ≠ n) (ackIt : Bool) : (c.leave n ackIt).threads m = c.threads m :=
  move_of_ne other _

theorem Exclusive.leave (sound : Exclusive c) (ackIt : Bool) (holds : (c.threads n).pc.holds) :
    Exclusive (c.leave n ackIt) := by
  have not_n : ∀ m, ((c.leave n ackIt).threads m).pc.holds → m ≠ n := by
    rintro m held rfl
    rw [(leave_self ackIt).1] at held
    cases held
  constructor
  · intro m held
    have other := not_n m held
    rw [leave_of_ne other] at held ⊢
    have distinct : (c.threads m).id ≠ (c.threads n).id := fun same => other (sound.alone m n held holds same)
    exact Finset.mem_erase.2 ⟨distinct, sound.held m held⟩
  · intro m k first second ids
    have other := not_n m first
    have other' := not_n k second
    rw [leave_of_ne other] at first ids
    rw [leave_of_ne other'] at second ids
    exact sound.alone m k first second ids

/-- Every step keeps the places exclusive. -/
theorem Exclusive.step (sound : Exclusive c) (a : Action) : Exclusive (c.step a).1 := by
  generalize is : c.step a = result
  cases is ▸ step_effect c a with
  | stay => exact sound
  | deliver kind id =>
    refine sound.move rfl (fun m other => put_of_ne other _) fun holds => ?_
    rw [put_self] at holds
    cases holds
  | pass pc output holds fresh starts =>
    refine sound.move rfl (fun m other => move_of_ne other pc) fun held => ?_
    rw [move_self] at held ⊢
    exact ⟨holds held, rfl⟩
  | enter fresh absent => exact sound.enter absent
  | leave ran ackIt last => exact sound.leave ackIt (by rw [last]; rfl)

theorem exclusive_new (retry : Bool) : Exclusive (Client.new retry) := ⟨nofun, nofun⟩

/-- No goroutine of an id stands between its duplicate check and its in-flight section while
another one finishes that id with an acknowledgement. -/
def Uncontended (c : Client) : Action → Prop
  | .finish n => ∀ ran, (c.threads n).pc = .finishing ran true →
      ∀ m, (c.threads m).id = (c.threads n).id → (c.threads m).pc ≠ .checked ∧ (c.threads m).pc ≠ .ready
  | _ => True

/-- A goroutine that found its id new still finds it new. -/
def Unseen (c : Client) : Prop :=
  ∀ n, (c.threads n).pc.fresh → (c.threads n).id ∉ c.seenDeliveries.order

theorem Unseen.leave (unseen : Unseen c) (sound : Exclusive c) {ran ackIt : Bool}
    (last : (c.threads n).pc = .finishing ran ackIt) (uncontended : Uncontended c (.finish n)) :
    Unseen (c.leave n ackIt) := by
  intro m fresh
  have other : m ≠ n := by
    rintro rfl
    rw [(leave_self ackIt).2] at fresh
    cases fresh
  rw [leave_of_ne other] at fresh ⊢
  cases ackIt with
  | false => exact unseen m fresh
  | true =>
    have distinct : (c.threads m).id ≠ (c.threads n).id := by
      intro same
      obtain ⟨not_checked, not_ready⟩ := uncontended ran last m same
      rcases Pc.fresh_cases fresh with (checked | ready) | holds
      · exact not_checked checked
      · exact not_ready ready
      · exact other (sound.alone m n holds (by rw [last]; rfl) same)
    intro mem
    exact (LruSet.mem_of_mem_add mem).elim distinct (unseen m fresh)

theorem Unseen.step (unseen : Unseen c) (sound : Exclusive c) {a : Action} (uncontended : Uncontended c a) :
    Unseen (c.step a).1 := by
  have finishes : ∀ ran ackIt, (c.step a).2 = .finished (c.threads a.goroutine).id ran ackIt → a = .finish a.goroutine := by
    intro ran ackIt
    cases a <;> first | exact fun _ => rfl | skip
    all_goals simp only [Client.step, Client.deliver, Client.check, Client.lookup, Client.register, Client.enter,
      Client.decrypt, Client.route, Client.handled, Client.ack]
    all_goals repeat' split
    all_goals nofun
  generalize is : c.step a = result at finishes ⊢
  cases is ▸ step_effect c a with
  | stay => exact unseen
  | deliver kind id =>
    intro m fresh
    rcases eq_or_ne m a.goroutine with rfl | is_it
    · rw [put_self] at fresh
      cases fresh
    · rw [put_of_ne is_it] at fresh ⊢
      exact unseen m fresh
  | pass pc output holds still starts =>
    intro m fresh
    rcases eq_or_ne m a.goroutine with rfl | is_it
    · rw [move_self] at fresh ⊢
      exact (still fresh).elim (unseen _) id
    · rw [move_of_ne is_it] at fresh ⊢
      exact unseen m fresh
  | enter found absent =>
    intro m fresh
    rcases eq_or_ne m a.goroutine with rfl | is_it
    · rw [move_self]
      exact unseen _ found
    · rw [move_of_ne is_it] at fresh ⊢
      exact unseen m fresh
  | leave ran ackIt last =>
    rw [finishes ran ackIt rfl] at uncontended
    exact unseen.leave sound last uncontended

/-- Once a run of the handlers was finished with an acknowledgement, no other one of that id starts
while the id is remembered. -/
def NotRerun (trace : List (Event Client Action Output)) : Prop :=
  ∀ front e middle f back, trace = front ++ e :: middle ++ f :: back → ∀ id,
    e.output = .finished id true true → f.output = .started id → id ∉ f.before.seenDeliveries.order

/-- At most one handler run of each id is active. -/
def OneActive (c : Client) : Prop :=
  ∀ m n, (c.threads m).pc = .running → (c.threads n).pc = .running → (c.threads m).id = (c.threads n).id → m = n

/-- A handler starts only in a goroutine that holds its place. -/
theorem started_holds {id : String} (starts : (c.step a).2 = .started id) :
    (c.threads a.goroutine).pc.holds ∧ id = (c.threads a.goroutine).id := by
  generalize is : c.step a = result at starts
  cases is ▸ step_effect c a with
  | pass pc output holds fresh can => exact can id starts
  | _ => cases starts

/-- Handlers of one id never overlap, and an acknowledged delivery is not run again as long as no goroutine of its
id stands between the duplicate check and the in-flight section when it is acknowledged. -/
theorem deliveries_not_rerun (retry : Bool) {trace : List (Event Client Action Output)} {c : Client}
    (run : Run Client.step (Client.new retry) trace c) :
    OneActive c ∧ ((∀ e ∈ trace, Uncontended e.before e.input) → NotRerun trace) := by
  have exclusive : ∀ {trace c}, Run Client.step (Client.new retry) trace c → Exclusive c := fun run =>
    run.invariant (exclusive_new retry) fun _ a sound => sound.step a
  constructor
  · intro m n first second ids
    exact (exclusive run).alone m n (by rw [first]; rfl) (by rw [second]; rfl) ids
  · intro uncontended front e middle f back split id finished started
    have mem : f ∈ trace := by rw [split]; simp
    obtain ⟨earlier, later, cut, before, is_step, -⟩ := run.split mem
    have unseen : Exclusive f.before ∧ Unseen f.before := by
      refine before.guarded (P := fun c => Exclusive c ∧ Unseen c) (G := Uncontended)
        ⟨exclusive_new retry, nofun⟩ (fun c a sound may => ⟨sound.1.step a, sound.2.step sound.1 may⟩) ?_
      intro e e_mem
      exact uncontended e (by rw [cut]; exact mem_append_left _ e_mem)
    rw [is_step] at started
    obtain ⟨holds, rfl⟩ := started_holds started
    exact unseen.2 _ (Pc.fresh_of_holds holds)

/-- A schedule without a step of goroutine `m` leaves it where it was. -/
theorem untouched {actions : List Action} (none_of_it : ∀ a ∈ actions, m ≠ a.goroutine) (c : Client) :
    (finalState Client.step c actions).threads m = c.threads m := by
  induction actions generalizing c with
  | nil => rfl
  | cons a actions ih =>
    have later := ih (fun b mem => none_of_it b (mem_cons_of_mem _ mem)) (c.step a).1
    exact later.trans (step_of_ne (none_of_it a mem_cons_self))

/-- A message is delivered three times: the second goroutine returns while the first one is in flight, and the third
one comes after the acknowledgement. -/
def redelivered : List Action :=
  [.deliver 0 .message "m", .check 0, .lookup 0 true, .register 0, .deliver 1 .message "m", .check 1, .lookup 1 true,
    .register 1, .decrypt 0 true, .handled 0 false, .finish 0, .ack 0, .deliver 2 .message "m", .check 2, .ack 2]

theorem redelivered_uncontended :
    ∀ e ∈ traceOf Client.step (Client.new false) redelivered, Uncontended e.before e.input := by
  intro e mem
  simp only [redelivered, traceOf, mem_cons, not_mem_nil, or_false] at mem
  rcases mem with rfl | rfl | rfl | rfl | rfl | rfl | rfl | rfl | rfl | rfl | rfl | rfl | rfl | rfl | rfl
  case inr.inr.inr.inr.inr.inr.inr.inr.inr.inr.inl =>
    intro ran _ m same
    rcases eq_or_ne m 0 with rfl | first
    · exact ⟨by decide, by decide⟩
    rcases eq_or_ne m 1 with rfl | second
    · exact ⟨by decide, by decide⟩
    have idle : (finalState Client.step (Client.new false) (redelivered.take 10)).threads m = ⟨.message, "", .idle⟩ :=
      untouched (by simp [redelivered, Action.goroutine, first, second]) (Client.new false)
    exact absurd ((congrArg Delivery.id idle).symm.trans same) (by decide)
  all_goals trivial

/-- The handler starts once, and the id is acknowledged twice. -/
theorem redelivered_not_rerun :
    (traceOf Client.step (Client.new false) redelivered).filterMap (fun e =>
      if e.output = .nothing then none else some e.output) =
        [.started "m", .finished "m" true true, .acked "m", .acked "m"] ∧
    ((finalState Client.step (Client.new false) (redelivered.take 10)).threads 1).pc = .returned ∧
    NotRerun (traceOf Client.step (Client.new false) redelivered) :=
  ⟨by decide, by decide,
    (deliveries_not_rerun false (Run.start.inputs redelivered)).2 redelivered_uncontended⟩

/-- Two goroutines of one message: both find the id new, then one runs the handler to its
acknowledgement before the other enters the in-flight set. -/
def overtaken : List Action :=
  [.deliver 0 .message "m", .deliver 1 .message "m", .check 0, .check 1, .lookup 0 true, .lookup 1 true, .register 0,
    .decrypt 0 true, .handled 0 false, .finish 0, .register 1, .decrypt 1 true]

/-- The second goroutine starts the handler of an id that was acknowledged and is still remembered. -/
theorem overtaken_delivery_rerun : ∃ trace c, Run Client.step (Client.new false) trace c ∧ ¬ NotRerun trace := by
  refine ⟨_, _, Run.start.inputs overtaken, fun never => ?_⟩
  have whole := never ((traceOf Client.step (Client.new false) overtaken).take 9) _
    (((traceOf Client.step (Client.new false) overtaken).drop 10).take 1) _ [] rfl "m" rfl rfl
  exact whole (by decide)

end Pagnet.Sdk
