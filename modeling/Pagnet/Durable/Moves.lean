import Pagnet.Durable.Sound

/-!
# What a step does to a delivery and to an event

Every database that a run reaches is sound. A step leaves a row of a delivery
alone, or moves it along the edges of `DeliveryMove`; it leaves a row of an event
alone, inserts it or removes it.
-/

namespace Pagnet.Durable
open Json List Pagnet.Relation

variable {E : Type} {h : Host E} {s s' : Store}

/-! ## Soundness along runs -/

variable {a : Answer E} {call : Call E} {c : Config} {p : System}

theorem Store.Sound.wrote (valid : h.config.Valid) (sound : s.Sound h)
    (wrote : Wrote h s call s' a) : s'.Sound h := by
  cases wrote with
  | published write => exact sound.publish valid write
  | claimed named positive representable taken known write =>
    exact sound.claim valid named positive representable taken known write
  | settled op found known held => exact sound.settle found held
  | expired => exact sound.expire _
  | purged => exact sound.purge

theorem bootstrap_ok {c' : Config} (boot : bootstrap c = .ok (c', s)) :
    c'.Valid ∧ s.rows = 0 ∧ s.bytes = 0 ∧ s.events = .empty ∧ s.deliveries = .empty ∧
      ∀ sub ∈ s.subscriptions, sub.pending = 0 := by
  obtain ⟨normal, normalized, boot⟩ := of_bind boot
  obtain ⟨subscriptions, inserted, boot⟩ := of_bind boot
  cases boot
  refine ⟨normalize_valid normalized, rfl, rfl, rfl, rfl, ?_⟩
  refine foldlM_keeps (P := fun t : Relation SubscriptionRow String SubscriptionRow.id => ∀ sub ∈ t, sub.pending = 0) ?_
    (fun sub mem => absurd mem (not_mem_empty _)) inserted
  intro t sub t' zero turn
  unfold insertSubscription at turn
  split at turn
  case h_1 => cases turn
  case h_2 added entered =>
    cases turn
    intro row mem
    rcases (mem_insert entered).1 mem with old | rfl
    · exact zero row old
    · rfl

theorem sound_bootstrap (boot : bootstrap c = .ok (h.config, s)) : s.Sound h := by
  obtain ⟨valid, rows, bytes, events, deliveries, pending⟩ := bootstrap_ok boot
  have limit := valid.pending
  have maxRows := valid.rows
  have maxBytes := valid.bytes
  constructor
  case decoded => simp [events]
  case expiry => simp [events]
  case cost => simp [events]
  case formed => simp [deliveries]
  case parent => simp [deliveries]
  case pending =>
    intro sub mem
    rw [pending sub mem, pendingOf_eq, deliveries]
    exact ⟨rfl, by omega⟩
  case rows =>
    rw [rows, events, deliveries]
    rfl
  case bytes =>
    rw [bytes, events]
    rfl
  case maxRows => omega
  case maxBytes => omega

theorem step_sound (valid : h.config.Valid) (sound : p.store.Sound h) : (step h p call).1.store.Sound h := by
  rcases step_wrote h p call with same | ⟨a, wrote, -⟩
  · rwa [same]
  · exact sound.wrote valid wrote

theorem reached_sound {trace : List (CallEvent E)} (boot : bootstrap c = .ok (h.config, s))
    (run : Reached h s trace p) : p.store.Sound h :=
  run.invariant (P := fun q : System => q.store.Sound h) (sound_bootstrap boot)
    fun _ _ => step_sound (bootstrap_ok boot).1

/-! ## Deliveries -/

/-- What a call with this answer may do to the row of a delivery. -/
inductive DeliveryMove (h : Host E) (call : Call E) (answer : Answer E) : Option DeliveryRow → Option DeliveryRow → Prop where
  | kept (row : Option DeliveryRow) : DeliveryMove h call answer row row
  | published (e : E) (op : call.op = .publish e) (k : EventKey) (n : Int) (sub : String) :
      DeliveryMove h call answer none (some (newDelivery k n sub))
  | granted (d : DeliveryRow) (worker : String) (now lease : Time) (random : Fin 24 → UInt8) (original : E) (digest : String)
      (op : call.op = .claim d.subscription worker now) (read : call.env.random = some random)
      (is_open : d.state.isOpen) (fewer : d.attempt < h.config.maxAttempts)
      (told : answer = .delivery (some ⟨⟨d.subscription, d.source, d.id, worker, d.generation + 1, tokenText random⟩,
        original, digest, d.attempt + 1, lease⟩)) :
      DeliveryMove h call answer (some d) (some (grant (unixNano lease) worker (h.claimHash (tokenText random)) d))
  | failed (d : DeliveryRow) (reason : String) (is_open : d.state.isOpen) :
      DeliveryMove h call answer (some d) (some (fail reason d))
  | released (d : DeliveryRow) (c : Claim) (now : Time) (ack : Bool) (state : State) (reason : String) (due : Int)
      (op : call.op = if ack then .ack c now else .nack c now) (key : d.key = c.key)
      (held : holds h c (unixNano now) d) (ended : state ≠ .claimed) :
      DeliveryMove h call answer (some d) (some (release state reason due d))
  | purged (d : DeliveryRow) (before : Time) (limit : Int) (op : call.op = .purge before limit)
      (settled : d.state.isOpen = false) : DeliveryMove h call answer (some d) none

theorem find?_updateDelivery {d : DeliveryRow} {f : DeliveryRow → DeliveryRow} (keeps : ∀ d, (f d).key = d.key)
    (mem : d ∈ s.deliveries) (k : DeliveryKey) :
    k = d.key ∧ s.deliveries.find? k = some d ∧ (updateDelivery s d.key f keeps).deliveries.find? k = some (f d) ∨
      (updateDelivery s d.key f keeps).deliveries.find? k = s.deliveries.find? k := by
  unfold updateDelivery
  rw [find?_modify]
  by_cases same : k = d.key
  · have found : s.deliveries.find? k = some d := find?_eq_some.2 ⟨mem, same.symm⟩
    refine .inl ⟨same, found, ?_⟩
    simp [found]
  · refine .inr ?_
    cases found : s.deliveries.find? k with
    | none => rfl
    | some x =>
      have other : x.key ≠ d.key := fun also => same ((find?_eq_some.1 found).2 ▸ also)
      simp [other]

theorem find?_expireEvents (rows : List EventRow) (s : Store) (k : DeliveryKey) :
    (rows.foldl expireEvent s).deliveries.find? k = s.deliveries.find? k ∨
      ∃ d, s.deliveries.find? k = some d ∧ d.state.isOpen ∧
        (rows.foldl expireEvent s).deliveries.find? k = some (fail "delivery_expired" d) := by
  induction rows generalizing s with
  | nil => exact .inl rfl
  | cons row rows ih =>
    have turn : (expireEvent s row).deliveries.find? k = (s.deliveries.find? k).map fun d =>
        if (decide (d.event = row.key) && d.state.isOpen) = true then fail "delivery_expired" d else d := by
      unfold expireEvent
      rw [foldl_updatePending, find?_modify]
    cases found : s.deliveries.find? k with
    | none =>
      rw [found, Option.map_none] at turn
      rcases ih (expireEvent s row) with same | ⟨d, was, -⟩
      · exact .inl (same.trans turn)
      · rw [turn] at was
        cases was
    | some d =>
      rw [found, Option.map_some] at turn
      split at turn
      case isTrue matched =>
        have is_open : d.state.isOpen := by
          rw [Bool.and_eq_true] at matched
          exact matched.2
        rcases ih (expireEvent s row) with same | ⟨x, was, still, -⟩
        · exact .inr ⟨d, rfl, is_open, same.trans turn⟩
        · rw [turn] at was
          cases was
          cases still
      case isFalse =>
        rcases ih (expireEvent s row) with same | ⟨x, was, still, done⟩
        · exact .inl (same.trans turn)
        · rw [turn] at was
          cases was
          exact .inr ⟨d, rfl, still, done⟩

/-- What is removed was settled. -/
theorem find?_purgeEvents (rows : List (EventRow × Int)) (s : Store) (settled : ∀ p ∈ rows, s.hasOpen p.1.key = false)
    (k : DeliveryKey) : (rows.foldl purgeEvent s).deliveries.find? k = s.deliveries.find? k ∨
      ∃ d, s.deliveries.find? k = some d ∧ d.state.isOpen = false ∧ (rows.foldl purgeEvent s).deliveries.find? k = none := by
  induction rows generalizing s with
  | nil => exact .inl rfl
  | cons p rows ih =>
    have still : ∀ q ∈ rows, (purgeEvent s p).hasOpen q.1.key = false := by
      intro q mem
      rw [Store.hasOpen_eq_false]
      intro d inside same
      exact Store.hasOpen_eq_false.1 (settled q (mem_cons_of_mem _ mem)) d (Relation.mem_filter.1 inside).1 same
    by_cases matched : k.2 = p.1.key
    · -- The rows of the event are gone, and no later turn brings one back.
      have gone : (purgeEvent s p).deliveries.find? k = none := by
        rw [Relation.find?_eq_none]
        intro d inside same
        have differs := (Relation.mem_filter.1 inside).2
        simp only [ne_eq, decide_not, Bool.not_eq_true', decide_eq_false_iff_not] at differs
        exact differs ((congrArg Prod.snd same).trans matched)
      have after : (rows.foldl purgeEvent (purgeEvent s p)).deliveries.find? k = none := by
        rcases ih (purgeEvent s p) still with same | ⟨d, was, -⟩
        · exact same.trans gone
        · rw [gone] at was
          cases was
      cases found : s.deliveries.find? k with
      | none => exact .inl after
      | some d =>
        obtain ⟨inside, same⟩ := find?_eq_some.1 found
        refine .inr ⟨d, rfl, ?_, after⟩
        exact Store.hasOpen_eq_false.1 (settled p mem_cons_self) d inside ((congrArg Prod.snd same).trans matched)
    · have kept : (purgeEvent s p).deliveries.find? k = s.deliveries.find? k := by
        refine find?_filter fun d _ same => ?_
        have event : d.event = k.2 := congrArg Prod.snd same
        simp [event, matched]
      rw [← kept]
      exact ih (purgeEvent s p) still

theorem Wrote.delivery (wrote : Wrote h s call s' a) (k : DeliveryKey) :
    DeliveryMove h call a (s.deliveries.find? k) (s'.deliveries.find? k) := by
  cases wrote with
  | @published env e s' r write =>
    obtain ⟨events, entered, is_middle⟩ := insertEvent_ok write.inserted
    have loop := addDeliveries_ok (k := (write.cipher.source, write.cipher.id)) write.delivered
    have before : write.middle.deliveries = s.deliveries := by rw [is_middle]
    rw [write.result]
    cases found : s.deliveries.find? k with
    | some d =>
      obtain ⟨inside, same⟩ := find?_eq_some.1 found
      have still : write.last.deliveries.find? k = some d :=
        find?_eq_some.2 ⟨(loop.mem d).2 (.inl (before ▸ inside)), same⟩
      rw [still]
      exact .kept _
    | none =>
      cases now : write.last.deliveries.find? k with
      | none => exact .kept _
      | some d =>
        obtain ⟨inside, same⟩ := find?_eq_some.1 now
        rcases (loop.mem d).1 inside with old | ⟨sub, -, rfl⟩
        · rw [before] at old
          exact absurd same (Relation.find?_eq_none.1 found d old)
        · exact .published e rfl _ _ sub
  | @claimed env subscription worker now d row s' out named positive representable taken known write =>
    obtain ⟨mem, subscribed, state⟩ := candidate_some taken
    have is_open : d.state.isOpen := by
      rcases state with pending | ⟨claimed, -⟩
      · rw [pending]
        rfl
      · rw [claimed]
        rfl
    cases write with
    | failed reason =>
      dsimp only [updatePending]
      rcases find?_updateDelivery (key_fail reason) mem k with ⟨-, was, is⟩ | same
      · rw [was, is]
        exact .failed d reason is_open
      · rw [same]
        exact .kept _
    | granted random original read early fewer decoded =>
      rcases find?_updateDelivery (key_grant _ _ _) mem k with ⟨-, was, is⟩ | same
      · rw [was, is]
        exact .granted d worker now _ random original row.digest (by rw [subscribed]) read is_open fewer rfl
      · rw [same]
        exact .kept _
  | @settled call c now ack d row op found known held =>
    obtain ⟨mem, same_key⟩ := find?_eq_some.1 found
    have moved : ∀ state reason due, state ≠ .claimed → DeliveryMove h call .done (s.deliveries.find? k)
        ((updateDelivery s d.key (release state reason due) (key_release state reason due)).deliveries.find? k) := by
      intro state reason due ended
      rcases find?_updateDelivery (key_release state reason due) mem k with ⟨-, was, is⟩ | same
      · rw [was, is]
        exact .released d c now ack state reason due op same_key held ended
      · rw [same]
        exact .kept _
    have end_state : (settlement h.config ack d.attempt row.expires (unixNano now)).1 ≠ .claimed := by
      unfold settlement
      split
      · exact State.noConfusion
      · split
        · exact State.noConfusion
        · split <;> exact State.noConfusion
    unfold settleDelivery
    dsimp only
    split
    · exact moved _ _ _ end_state
    · exact moved _ _ _ end_state
  | @expired env before limit n =>
    rcases find?_expireEvents (expirable s (unixNano before) limit.toNat) s k with same | ⟨d, was, is_open, is⟩
    · rw [same]
      exact .kept _
    · rw [was, is]
      exact .failed d _ is_open
  | @purged env before limit n =>
    have settled : ∀ p ∈ purgeable s (unixNano before) limit.toNat, s.hasOpen p.1.key = false := by
      intro p mem
      obtain ⟨row, listed, rfl⟩ := mem_map.1 mem
      have meets := (List.mem_filter.1 (mem_inOrder listed)).2
      simp only [Bool.and_eq_true, Bool.not_eq_true'] at meets
      exact meets.2
    rcases find?_purgeEvents _ s settled k with same | ⟨d, was, ended, is⟩
    · rw [same]
      exact .kept _
    · rw [was, is]
      exact .purged d before limit rfl ended

/-! ## Events -/

/-- What a call with this answer may do to the row of an event. -/
inductive EventMove (h : Host E) (call : Call E) (answer : Answer E) : Option EventRow → Option EventRow → Prop where
  | kept (row : Option EventRow) : EventMove h call answer row row
  | published (e : E) (cipher : Cipher) (op : call.op = .publish e) (sealing : sealEvent h call.env e = .ok cipher)
      (told : answer = .receipt ⟨cipher.source, cipher.id, cipher.digest, call.env.now, false⟩) :
      EventMove h call answer none (some (newEvent h call.env cipher (h.sdk.kind e)))
  | purged (row : EventRow) (before : Time) (limit : Int) (op : call.op = .purge before limit) :
      EventMove h call answer (some row) none

theorem foldl_expireEvent_events (rows : List EventRow) (s : Store) : (rows.foldl expireEvent s).events = s.events := by
  induction rows generalizing s with
  | nil => rfl
  | cons row rows ih =>
    rw [foldl_cons, ih]
    unfold expireEvent
    rw [foldl_updatePending]

theorem find?_purgeEvents_events (rows : List (EventRow × Int)) (s : Store) (k : EventKey) :
    (rows.foldl purgeEvent s).events.find? k = s.events.find? k ∨ (rows.foldl purgeEvent s).events.find? k = none := by
  induction rows generalizing s with
  | nil => exact .inl rfl
  | cons p rows ih =>
    rw [foldl_cons]
    rcases ih (purgeEvent s p) with same | gone
    · rw [same]
      by_cases matched : k = p.1.key
      · refine .inr (Relation.find?_eq_none.2 fun row inside its => ?_)
        have differs := (Relation.mem_filter.1 inside).2
        simp only [ne_eq, decide_not, Bool.not_eq_true', decide_eq_false_iff_not] at differs
        exact differs (its.trans matched)
      · refine .inl (find?_filter fun row _ its => ?_)
        simp [its, matched]
    · exact .inr gone

theorem Wrote.event (wrote : Wrote h s call s' a) (k : EventKey) :
    EventMove h call a (s.events.find? k) (s'.events.find? k) := by
  cases wrote with
  | @published env e s' r write =>
    obtain ⟨cipher, sealing, fresh, -, -, -, -, middle, inserted, last, delivered, rfl, rfl⟩ := write
    obtain ⟨events, entered, rfl⟩ := insertEvent_ok inserted
    have loop := addDeliveries_ok (k := (cipher.source, cipher.id)) delivered
    rw [loop.events]
    by_cases same : k = (newEvent h env cipher (h.sdk.kind e)).key
    · rw [same, Relation.find?_insert_self entered, show (newEvent h env cipher (h.sdk.kind e)).key =
        (cipher.source, cipher.id) from rfl, fresh]
      exact .published e cipher rfl sealing rfl
    · rw [Relation.find?_insert_of_ne entered same]
      exact .kept _
  | @claimed env subscription worker now d row s' out named positive representable taken known write =>
    cases write with
    | failed | granted => exact .kept _
  | @settled call c now ack d row op found known held =>
    unfold settleDelivery
    dsimp only
    split <;> exact .kept _
  | @expired env before limit n =>
    rw [foldl_expireEvent_events]
    exact .kept _
  | @purged env before limit n =>
    rcases find?_purgeEvents_events (purgeable s (unixNano before) limit.toNat) s k with same | gone
    · rw [same]
      exact .kept _
    · rw [gone]
      cases found : s.events.find? k with
      | none => exact .kept _
      | some row => exact .purged row before limit rfl

end Pagnet.Durable
