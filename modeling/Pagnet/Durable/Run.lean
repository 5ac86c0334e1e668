import Pagnet.Data.Run
import Pagnet.Durable.Store

/-!
# Runs of the durable event queue

The store's mutex makes each call one step. A process holds one store at a time;
`reopen` opens its directory again, which the opener's checks may refuse, and a
call on a closed store fails.
-/

namespace Pagnet.Durable
open Json

variable {E : Type}

structure System where
  store : Store
  closed : Bool

inductive Op (E : Type) where
  | publish (e : E)
  | claim (subscription worker : String) (now : Time)
  | ack (c : Claim) (now : Time)
  | nack (c : Claim) (now : Time)
  | expire (before : Time) (limit : Int)
  | purge (before : Time) (limit : Int)
  | close
  | reopen

structure Call (E : Type) where
  op : Op E
  env : Env

inductive Answer (E : Type) where
  | receipt (r : Receipt)
  | delivery (d : Option (Delivery E))
  | count (n : Int)
  | done

/-- A call that works on the database. -/
def System.transact {α : Type} (p : System) (env : Env) (result : Except Error (Change Store α)) (answer : α → Answer E) :
    System × Except Error (Answer E) :=
  let r := env.commit.conclude .unavailable p.store result
  ({ p with store := r.1 }, r.2.map answer)

/-- A step of the process. -/
def step (h : Host E) (p : System) (call : Call E) : System × Except Error (Answer E) :=
  match call.op with
  | .publish e => p.transact call.env (publish h call.env p.closed p.store e) .receipt
  | .claim subscription worker now => p.transact call.env (claim h call.env p.closed p.store subscription worker now) .delivery
  | .ack c now => p.transact call.env (settle h p.closed p.store c now true) fun _ => .done
  | .nack c now => p.transact call.env (settle h p.closed p.store c now false) fun _ => .done
  | .expire before limit => p.transact call.env (expire call.env p.closed p.store before limit) .count
  | .purge before limit => p.transact call.env (purge call.env p.closed p.store before limit) .count
  | .close => ({ p with closed := true }, .ok .done)
  | .reopen => ({ p with closed := !(verify h p.store).isOk }, (verify h p.store).map fun _ => .done)

abbrev CallEvent (E : Type) := Event System (Call E) (Except Error (Answer E))

/-- The runs from a new database. -/
abbrev Reached (h : Host E) (s : Store) (trace : List (CallEvent E)) (p : System) : Prop := Run (step h) ⟨s, false⟩ trace p

/-! ## What a transaction writes -/

variable {h : Host E} {env : Env} {s s' : Store} {closed : Bool}

/-- The row of an event that `Publish` inserts. -/
def newEvent (h : Host E) (env : Env) (cipher : Cipher) (kind : String) : EventRow :=
  let row : EventRow := ⟨cipher.source, cipher.id, cipher.digest, kind, cipher, env.now, env.now + h.config.deliveryTTL,
    env.now + h.config.dedupTTL, 0⟩
  { row with cost := publicationCost (baseCost row) cipher.source cipher.id (h.config.byType kind) }

/-- The row of a delivery that `Publish` inserts. -/
def newDelivery (k : EventKey) (n : Int) (sub : String) : DeliveryRow := ⟨sub, k.1, k.2, .pending, n, 0, 0, 0, "", "", ""⟩

/-- What `Publish` writes. -/
structure PublishWrite (h : Host E) (env : Env) (s : Store) (e : E) (s' : Store) (r : Receipt) where
  cipher : Cipher
  sealing : sealEvent h env e = .ok cipher
  fresh : s.events.find? (cipher.source, cipher.id) = none
  rowsRoom : s.rows + (1 + (h.config.byType (h.sdk.kind e)).length) ≤ h.config.maxRows
  bytesRoom : s.bytes + (newEvent h env cipher (h.sdk.kind e)).cost ≤ h.config.maxBytes
  timely : env.now ≤ maxInt64 - h.config.dedupTTL
  pending : ∀ sub ∈ h.config.byType (h.sdk.kind e), ∃ row, s.subscriptions.find? sub = some row ∧
    row.pending < h.config.maxPendingPerSubscription
  middle : Store
  inserted : insertEvent s (newEvent h env cipher (h.sdk.kind e)) = .ok middle
  last : Store
  delivered : (h.config.byType (h.sdk.kind e)).foldlM (addDelivery cipher.source cipher.id env.now) middle = .ok last
  result : s' = { last with rows := last.rows + (1 + (h.config.byType (h.sdk.kind e)).length)
                            bytes := last.bytes + (newEvent h env cipher (h.sdk.kind e)).cost }
  receipt : r = ⟨cipher.source, cipher.id, cipher.digest, env.now, false⟩

theorem checkPending_ok {sub : String} (checked : checkPending h.config s sub = .ok ()) :
    ∃ row, s.subscriptions.find? sub = some row ∧ row.pending < h.config.maxPendingPerSubscription := by
  unfold checkPending at checked
  split at checked
  case h_1 => cases checked
  case h_2 row found =>
    rw [refuse_eq_ok, decide_eq_false_iff_not, not_le] at checked
    exact ⟨row, found, checked⟩

theorem forM_ok {α ε : Type} {f : α → Except ε Unit} {as : List α} (done : as.forM f = .ok ()) : ∀ a ∈ as, f a = .ok () := by
  induction as with
  | nil => exact nofun
  | cons a as ih =>
    obtain ⟨⟨⟩, first, rest⟩ := of_bind (show (f a >>= fun _ => as.forM f) = .ok () from done)
    exact List.forall_mem_cons.2 ⟨first, ih rest⟩

variable {e : E} {r : Receipt} {d : DeliveryRow} {subscription : String} {now before : Time} {ack : Bool}
    {c : Claim} {limit n : Int}

theorem publish_commit (done : publish h env closed s e = .ok (.commit s' r)) :
    Nonempty (PublishWrite h env s e s' r) := by
  obtain ⟨cipher, sealing, done⟩ := of_bind done
  have done := past_refuse done
  split at done
  case h_1 row found =>
    have done := past_refuse done
    cases done
  case h_2 fresh =>
    have done := past_refuse done
    obtain ⟨room, done⟩ := of_refuse done
    obtain ⟨⟨⟩, pending, done⟩ := of_bind done
    obtain ⟨timely, done⟩ := of_refuse done
    obtain ⟨middle, inserted, done⟩ := of_bind done
    obtain ⟨last, delivered, done⟩ := of_bind done
    simp only [Bool.or_eq_false_iff, decide_eq_false_iff_not, not_lt] at room timely
    cases done
    refine ⟨⟨cipher, sealing, fresh, ?_, ?_, timely, fun sub mem => checkPending_ok (forM_ok pending sub mem), middle, inserted, last,
      delivered, rfl, rfl⟩⟩
    · omega
    · unfold newEvent
      dsimp only
      omega

/-- What a seal holds. -/
theorem sealEvent_ok {cipher : Cipher} (sealing : sealEvent h env e = .ok cipher) :
    encode h.sdk e h.config.maxEventBytes = .ok cipher.plain ∧ cipher.source = h.sdk.source e ∧ cipher.id = h.sdk.id e ∧
      cipher.digest = h.digest cipher.plain ∧ (cipher.length : Int) ≤ h.config.maxCipherBytes := by
  obtain ⟨raw, encoded, sealing⟩ := of_bind sealing
  have sealing := past_refuse sealing
  split at sealing
  case h_1 => cases sealing
  case h_2 length _ =>
    obtain ⟨short, sealing⟩ := of_refuse sealing
    rw [decide_eq_false_iff_not, not_lt] at short
    cases sealing
    exact ⟨encoded, rfl, rfl, rfl, short⟩

/-! ## Claims -/

theorem earliest_mem {time : DeliveryRow → Int} {rows : List DeliveryRow}
    (found : earliest time rows = some d) : d ∈ rows := by
  -- The best row so far is one of those seen so far.
  have general : ∀ (rows : List DeliveryRow) (best : Option DeliveryRow),
      rows.foldl (fun best d => if best.any fun b => !precedes time d b then best else some d) best = some d →
      best = some d ∨ d ∈ rows := by
    intro rows
    induction rows with
    | nil => exact fun best same => .inl same
    | cons x rows ih =>
      intro best same
      rw [List.foldl_cons] at same
      rcases ih _ same with here | later
      · split at here
        · exact .inl here
        · cases here
          exact .inr List.mem_cons_self
      · exact .inr (List.mem_cons_of_mem _ later)
  rcases general rows none found with impossible | mem
  · cases impossible
  · exact mem

/-- A claim takes a delivery that is due, or one whose lease is over. -/
theorem candidate_some {now : Int} (found : candidate s subscription now = some d) :
    d ∈ s.deliveries ∧ d.subscription = subscription ∧ (d.state = .pending ∨ d.state = .claimed ∧ d.lease ≤ now) := by
  have pending : ∀ x, earliest (·.due) (s.deliveries.rows.filter fun d =>
      d.subscription == subscription && d.state == .pending && d.due ≤ now) = some x →
      x ∈ s.deliveries ∧ x.subscription = subscription ∧ (x.state = .pending ∨ x.state = .claimed ∧ x.lease ≤ now) := by
    intro x taken
    obtain ⟨mem, meets⟩ := List.mem_filter.1 (earliest_mem taken)
    simp only [Bool.and_eq_true, beq_iff_eq] at meets
    exact ⟨mem, meets.1.1, .inl meets.1.2⟩
  have lapsed : ∀ x, earliest (·.lease) (s.deliveries.rows.filter fun d =>
      d.subscription == subscription && d.state == .claimed && d.lease ≤ now) = some x →
      x ∈ s.deliveries ∧ x.subscription = subscription ∧ (x.state = .pending ∨ x.state = .claimed ∧ x.lease ≤ now) := by
    intro x taken
    obtain ⟨mem, meets⟩ := List.mem_filter.1 (earliest_mem taken)
    simp only [Bool.and_eq_true, beq_iff_eq, decide_eq_true_eq] at meets
    exact ⟨mem, meets.1.1, .inr ⟨meets.1.2, meets.2⟩⟩
  unfold candidate at found
  dsimp only at found
  split at found
  · exact pending d found
  · exact lapsed d found
  case h_3 chosen other _ due late =>
    split at found
    · cases found
      exact lapsed d late
    · cases found
      exact pending d due

/-- A claim that commits gives the delivery up, or grants it. -/
inductive ClaimWrite (h : Host E) (env : Env) (s : Store) (worker : String) (now : Time) (d : DeliveryRow) (row : EventRow) :
    Store → Option (Delivery E) → Prop where
  | failed (reason : String) :
      ClaimWrite h env s worker now d row
        (updatePending (updateDelivery s d.key (fail reason) (key_fail reason)) d.subscription (-1)) none
  | granted (random : Fin 24 → UInt8) (original : E) (read : env.random = some random)
      (early : unixNano now < row.expires) (fewer : d.attempt < h.config.maxAttempts)
      (decoded : decode h d.source d.id row.digest row.cipher = .ok original) :
      ClaimWrite h env s worker now d row
        (updateDelivery s d.key (grant (unixNano (leaseUntil h.config now row.expires)) worker
          (h.claimHash (tokenText random))) (key_grant _ _ _))
        (some ⟨⟨d.subscription, d.source, d.id, worker, d.generation + 1, tokenText random⟩, original, row.digest,
          d.attempt + 1, leaseUntil h.config now row.expires⟩)

theorem claim_commit {worker : String} {out : Option (Delivery E)}
    (done : claim h env closed s subscription worker now = .ok (.commit s' out)) :
    validText worker 256 ∧ 0 < unixNano now ∧ unixNano now ≤ maxInt64 - h.config.leaseTTL ∧
    ∃ d row, candidate s subscription (unixNano now) = some d ∧ s.events.find? d.event = some row ∧
      ClaimWrite h env s worker now d row s' out := by
  obtain ⟨valid, done⟩ := of_refuse done
  have done := past_refuse done
  simp only [Bool.or_eq_false_iff, decide_eq_false_iff_not, not_lt, not_le, not_eq_false_iff] at valid
  refine ⟨valid.1.1.1.2, valid.1.2, valid.2, ?_⟩
  split at done
  case h_1 => cases done
  case h_2 d taken =>
    split at done
    case h_1 => cases done
    case h_2 row found =>
      refine ⟨d, row, taken, found, ?_⟩
      unfold claimDelivery at done
      split at done
      case isTrue =>
        cases done
        exact .failed _
      case isFalse live =>
        rw [Bool.or_eq_true, not_or, decide_eq_true_eq, decide_eq_true_eq, not_le, not_le] at live
        have done := past_refuse done
        obtain ⟨original, decoded, done⟩ := of_bind done
        split at done
        case h_1 => cases done
        case h_2 random read =>
          cases done
          exact .granted random original read live.1 live.2 decoded

/-! ## Settlements -/

theorem settle_commit (done : settle h closed s c now ack = .ok (.commit s' ())) :
    0 < unixNano now ∧ ∃ d row, s.deliveries.find? c.key = some d ∧ s.events.find? (c.source, c.id) = some row ∧
      holds h c (unixNano now) d ∧ s' = settleDelivery h s now ack d row := by
  obtain ⟨valid, done⟩ := of_refuse done
  have done := past_refuse done
  simp only [Bool.or_eq_false_iff, decide_eq_false_iff_not, not_lt, not_le] at valid
  refine ⟨valid.1.2, ?_⟩
  split at done
  case h_1 d row found known =>
    obtain ⟨held, done⟩ := of_refuse done
    cases done
    exact ⟨d, row, found, known, not_eq_false_iff.1 held, rfl⟩
  case h_2 => cases done

/-- What a call commits, and what it answers when its commit is made. -/
inductive Wrote (h : Host E) (s : Store) : Call E → Store → Answer E → Prop where
  | published {env : Env} {e : E} {s' : Store} {r : Receipt} (write : PublishWrite h env s e s' r) :
      Wrote h s ⟨.publish e, env⟩ s' (.receipt r)
  | claimed {env : Env} {subscription worker : String} {now : Time} {d : DeliveryRow} {row : EventRow} {s' : Store}
      {out : Option (Delivery E)} (named : validText worker 256) (positive : 0 < unixNano now)
      (representable : unixNano now ≤ maxInt64 - h.config.leaseTTL)
      (taken : candidate s subscription (unixNano now) = some d) (known : s.events.find? d.event = some row)
      (write : ClaimWrite h env s worker now d row s' out) : Wrote h s ⟨.claim subscription worker now, env⟩ s' (.delivery out)
  | settled {call : Call E} {c : Claim} {now : Time} {ack : Bool} {d : DeliveryRow} {row : EventRow}
      (op : call.op = if ack then .ack c now else .nack c now) (found : s.deliveries.find? c.key = some d)
      (known : s.events.find? (c.source, c.id) = some row) (held : holds h c (unixNano now) d) :
      Wrote h s call (settleDelivery h s now ack d row) .done
  | expired {env : Env} {before : Time} {limit n : Int} :
      Wrote h s ⟨.expire before limit, env⟩ ((expirable s (unixNano before) limit.toNat).foldl expireEvent s) (.count n)
  | purged {env : Env} {before : Time} {limit n : Int} :
      Wrote h s ⟨.purge before limit, env⟩ ((purgeable s (unixNano before) limit.toNat).foldl purgeEvent s) (.count n)

/-- What a call that works on the database does to it. -/
theorem transact_wrote {α : Type} {p : System} (call : Call E) {result : Except Error (Change Store α)}
    {answer : α → Answer E} (writes : ∀ s' a, result = .ok (.commit s' a) → Wrote h p.store call s' (answer a)) :
    (p.transact call.env result answer).1.store = p.store ∨
      ∃ a, Wrote h p.store call (p.transact call.env result answer).1.store a ∧
        ((p.transact call.env result answer).2 = .ok a ∨ (p.transact call.env result answer).2 = .error .unavailable) := by
  unfold System.transact
  rcases call.env.commit.conclude_state .unavailable p.store result with same | ⟨s', a, computed, written, told⟩
  · exact .inl same
  · refine .inr ⟨answer a, ?_, ?_⟩
    · dsimp only
      rw [written]
      exact writes s' a computed
    · dsimp only
      rcases told with told | told
      · rw [told]
        exact .inl rfl
      · rw [told]
        exact .inr rfl

/-- A step leaves the database alone, or writes what its call commits. -/
theorem step_wrote (h : Host E) (p : System) (call : Call E) :
    (step h p call).1.store = p.store ∨ ∃ a, Wrote h p.store call (step h p call).1.store a ∧
      ((step h p call).2 = .ok a ∨ (step h p call).2 = .error .unavailable) := by
  obtain ⟨op, env⟩ := call
  cases op with
  | publish e =>
    refine transact_wrote ⟨.publish e, env⟩ fun s' r computed => ?_
    obtain ⟨write⟩ := publish_commit computed
    exact .published write
  | claim subscription worker now =>
    refine transact_wrote ⟨.claim subscription worker now, env⟩ fun s' out computed => ?_
    obtain ⟨named, positive, representable, d, row, taken, known, write⟩ := claim_commit computed
    exact .claimed named positive representable taken known write
  | ack c now =>
    refine transact_wrote ⟨.ack c now, env⟩ fun s' out computed => ?_
    obtain ⟨-, d, row, found, known, held, rfl⟩ := settle_commit computed
    exact .settled rfl found known held
  | nack c now =>
    refine transact_wrote ⟨.nack c now, env⟩ fun s' out computed => ?_
    obtain ⟨-, d, row, found, known, held, rfl⟩ := settle_commit computed
    exact .settled rfl found known held
  | expire before limit =>
    refine transact_wrote ⟨.expire before limit, env⟩ fun s' n computed => ?_
    have computed := past_refuse computed
    have computed := past_refuse computed
    cases computed
    exact .expired
  | purge before limit =>
    refine transact_wrote ⟨.purge before limit, env⟩ fun s' n computed => ?_
    have computed := past_refuse computed
    have computed := past_refuse computed
    cases computed
    exact .purged
  | close | reopen => exact .inl rfl

end Pagnet.Durable
