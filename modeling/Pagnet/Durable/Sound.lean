import Pagnet.Durable.Run

/-!
# What every database of the queue holds

The budget, the cost of each event and the counter of each subscription agree
with the rows, every row is one that the opener accepts, and every event is read
back. A transaction keeps all of it.
-/

namespace Pagnet.Durable
open Json List Pagnet.Relation

variable {E : Type} {h : Host E} {env : Env} {s s' : Store}

/-! ## Configurations -/

/-- What the proofs use of a normalized configuration. -/
structure Config.Valid (c : Config) : Prop where
  rows : 1 ≤ c.maxRows
  bytes : 1 ≤ c.maxBytes
  eventBytes : 1 ≤ c.maxEventBytes ∧ c.maxEventBytes ≤ 2 ^ 20
  pending : 1 ≤ c.maxPendingPerSubscription
  attempts : 1 ≤ c.maxAttempts
  lease : 0 < c.leaseTTL
  delivery : 0 < c.deliveryTTL
  dedup : c.deliveryTTL ≤ c.dedupTTL

variable {c : Config} {g : String → Int} {d d' : DeliveryRow} {f : DeliveryRow → DeliveryRow} {n : Int}
    {now : Time} {worker : String} {row : EventRow} {k : EventKey} {limit : Nat} {rows : List EventRow}
    {time : EventRow → Int} {e : E}

theorem normalize_valid {c' : Config} (done : normalize c = .ok c') : c'.Valid := by
  obtain ⟨limits, done⟩ := of_refuse done
  obtain ⟨⟨_, subscriptions⟩, -, done⟩ := of_bind done
  cases done
  unfold Config.limits at limits
  simp only [Bool.or_eq_false_iff, decide_eq_false_iff_not, not_lt] at limits
  have positive : 0 < millisecond := by decide
  constructor <;> dsimp only <;> omega

/-! ## Counters -/

variable (t : Relation SubscriptionRow String SubscriptionRow.id)

/-- The counters after a change of each. -/
def shift (g : String → Int) : Relation SubscriptionRow String SubscriptionRow.id :=
  t.modify (fun _ => true) (fun row => { row with pending := row.pending + g row.id }) fun _ => rfl

theorem shift_shift (f g : String → Int) : shift (shift t f) g = shift t fun i => f i + g i := by
  apply Relation.ext
  simp only [shift, Relation.modify, if_true, map_map]
  refine map_congr_left fun row _ => ?_
  simp only [Function.comp_apply, add_assoc]

theorem shift_zero : shift t (fun _ => 0) = t := by
  apply Relation.ext
  simp [shift, Relation.modify]

theorem updatePending_eq (s : Store) (sub : String) (change : Int) :
    updatePending s sub change = { s with subscriptions := shift s.subscriptions fun i => if i = sub then change else 0 } := by
  unfold updatePending
  congr 1
  apply Relation.ext
  refine map_congr_left fun row _ => ?_
  by_cases same : row.id = sub
  · simp [same]
  · simp [same]

theorem mem_shift {t : Relation SubscriptionRow String SubscriptionRow.id} {row : SubscriptionRow} :
    row ∈ shift t g ↔ ∃ old ∈ t, { old with pending := old.pending + g old.id } = row := by
  rw [shift, mem_modify]
  simp

/-- Counters that are lowered once for each entry of a list. -/
theorem foldl_updatePending (s : Store) (subs : List String) :
    subs.foldl (fun s sub => updatePending s sub (-1)) s =
      { s with subscriptions := shift s.subscriptions fun i => -(subs.count i : Int) } := by
  induction subs generalizing s with
  | nil => simp [shift_zero]
  | cons sub subs ih =>
    rw [foldl_cons, ih, updatePending_eq]
    simp only [shift_shift]
    congr 2
    funext i
    by_cases same : i = sub
    · simp [same]
    · simp [same, Ne.symm same]

/-- Whether a delivery counts for a subscription. -/
def openWeight (subscription : String) (d : DeliveryRow) : Int :=
  if d.subscription = subscription ∧ d.state.isOpen = true then 1 else 0

theorem pendingOf_eq (s : Store) (i : String) : s.pendingOf i = s.deliveries.total (openWeight i) := rfl

/-! ## The invariant -/

structure Store.Sound (h : Host E) (s : Store) : Prop where
  decoded : ∀ row ∈ s.events, ∃ e, decode h row.source row.id row.digest row.cipher = .ok e
  expiry : ∀ row ∈ s.events, -9223372036854775808 ≤ row.expires ∧ row.expires ≤ maxInt64
  cost : ∀ row ∈ s.events, row.cost = s.eventCost row
  formed : ∀ d ∈ s.deliveries, malformed h.config d = false
  parent : ∀ d ∈ s.deliveries, ∃ row ∈ s.events, row.key = d.event
  pending : ∀ sub ∈ s.subscriptions, sub.pending = s.pendingOf sub.id ∧ sub.pending ≤ h.config.maxPendingPerSubscription
  rows : s.rows = (s.events.total fun _ => 1) + (s.deliveries.total fun _ => 1)
  bytes : s.bytes = s.events.total (·.cost)
  maxRows : s.rows ≤ h.config.maxRows
  maxBytes : s.bytes ≤ h.config.maxBytes

theorem deliveryCost_nonneg (d : DeliveryRow) : 0 ≤ deliveryCost d := by
  unfold deliveryCost
  omega

theorem eventCost_nonneg (s : Store) (row : EventRow) : 0 ≤ s.eventCost row := by
  have deliveries : 0 ≤ s.ofEvent row.key deliveryCost := total_nonneg fun d _ => by
    split
    · exact deliveryCost_nonneg d
    · exact le_refl 0
  unfold Store.eventCost baseCost
  omega

theorem openWeight_nonneg (i : String) (d : DeliveryRow) : 0 ≤ openWeight i d := by
  unfold openWeight
  split <;> omega

/-- The opener accepts every sound database. -/
theorem Store.Sound.verify (sound : s.Sound h) : verify h s = .ok () := by
  have events : s.events.total (·.cost) = s.events.total s.eventCost := total_congr sound.cost
  have bytes := sound.bytes
  have rows := sound.rows
  have costs : 0 ≤ s.events.total s.eventCost := total_nonneg fun row _ => eventCost_nonneg s row
  have few : 0 ≤ s.events.total fun _ => 1 := total_nonneg fun _ _ => by omega
  have many : 0 ≤ s.deliveries.total fun _ => 1 := total_nonneg fun _ _ => by omega
  refine refuse_bind_eq_ok.2 ⟨?_, refuse_bind_eq_ok.2 ⟨?_, refuse_bind_eq_ok.2 ⟨?_, refuse_bind_eq_ok.2 ⟨?_, ?_⟩⟩⟩⟩
  · simp only [Bool.or_eq_false_iff, bne_eq_false_iff_eq, decide_eq_false_iff_not, not_lt]
    exact ⟨⟨⟨⟨⟨rows, bytes.trans events⟩, by omega⟩, sound.maxRows⟩, by omega⟩, sound.maxBytes⟩
  · rw [any_eq_false]
    intro row mem
    simp [sound.cost row mem]
  · rw [any_eq_false]
    intro sub mem
    obtain ⟨counted, bounded⟩ := sound.pending sub mem
    have positive : 0 ≤ s.pendingOf sub.id := total_nonneg fun d _ => openWeight_nonneg sub.id d
    simp only [Bool.or_eq_true, bne_iff_ne, decide_eq_true_eq, not_or, not_not, not_lt]
    exact ⟨⟨counted, by omega⟩, bounded⟩
  · rw [any_eq_false]
    intro d mem
    rw [sound.formed d mem]
    exact Bool.false_ne_true
  · refine forM_eq_ok fun row mem => ?_
    obtain ⟨e, read⟩ := sound.decoded row mem
    rw [read]
    rfl

/-! ## Updates of deliveries -/

theorem deliveryCost_congr (same : d'.key = d.key) : deliveryCost d' = deliveryCost d := by
  simp only [DeliveryRow.key, DeliveryRow.event, Prod.mk.injEq] at same
  unfold deliveryCost
  rw [same.1, same.2.1, same.2.2]

theorem event_congr (same : d'.key = d.key) : d'.event = d.event := congrArg Prod.snd same

/-- An update of deliveries that lowers the counters as it settles. -/
theorem Store.Sound.modify {p : DeliveryRow → Bool} (sound : s.Sound h)
    (keeps : ∀ d, (f d).key = d.key) (ok : ∀ d ∈ s.deliveries, p d → malformed h.config (f d) = false)
    (counts : ∀ i, (s.deliveries.modify p f keeps).total (openWeight i) = s.pendingOf i + g i) (fewer : ∀ i, g i ≤ 0) :
    Store.Sound h { s with deliveries := s.deliveries.modify p f keeps, subscriptions := shift s.subscriptions g } := by
  -- A weight that only depends on the key is not changed.
  have byKey : ∀ w : DeliveryRow → Int, (∀ d, w (f d) = w d) → (s.deliveries.modify p f keeps).total w = s.deliveries.total w := by
    intro w same
    rw [total_modify]
    refine total_congr fun d _ => ?_
    split
    · exact same d
    · rfl
  constructor
  case decoded => exact sound.decoded
  case expiry => exact sound.expiry
  case cost =>
    intro row mem
    rw [sound.cost row mem]
    unfold Store.eventCost Store.ofEvent
    rw [byKey _ fun d => by rw [event_congr (keeps d), deliveryCost_congr (keeps d)]]
  case formed =>
    intro d (mem : d ∈ s.deliveries.modify p f keeps)
    rw [mem_modify] at mem
    obtain ⟨old, inside, rfl⟩ := mem
    split
    · exact ok old inside ‹_›
    · exact sound.formed old inside
  case parent =>
    intro d (mem : d ∈ s.deliveries.modify p f keeps)
    rw [mem_modify] at mem
    obtain ⟨old, inside, rfl⟩ := mem
    obtain ⟨row, listed, same⟩ := sound.parent old inside
    refine ⟨row, listed, same.trans ?_⟩
    split
    · exact (event_congr (keeps old)).symm
    · rfl
  case pending =>
    intro sub mem
    obtain ⟨old, inside, rfl⟩ := mem_shift.1 mem
    obtain ⟨counted, bounded⟩ := sound.pending old inside
    have lower := fewer old.id
    refine ⟨?_, by dsimp only; omega⟩
    change old.pending + g old.id = (s.deliveries.modify p f keeps).total (openWeight old.id)
    rw [counts, counted]
  case rows =>
    rw [byKey _ fun _ => rfl]
    exact sound.rows
  case bytes => exact sound.bytes
  case maxRows => exact sound.maxRows
  case maxBytes => exact sound.maxBytes

/-- An update of one delivery. -/
theorem Store.Sound.update {change : Int} (sound : s.Sound h)
    (keeps : ∀ d, (f d).key = d.key) (mem : d ∈ s.deliveries) (ok : malformed h.config (f d) = false)
    (counts : openWeight d.subscription (f d) = openWeight d.subscription d + change) (fewer : change ≤ 0) :
    Store.Sound h (updatePending (updateDelivery s d.key f keeps) d.subscription change) := by
  have subscription : (f d).subscription = d.subscription := congrArg Prod.fst (keeps d)
  rw [updatePending_eq]
  refine sound.modify keeps ?_ ?_ ?_
  · intro x inside matched
    rw [eq_of_key inside mem (by simpa using matched)]
    exact ok
  · intro i
    rw [total_modify_one mem (by simp) fun x _ matched => by simpa using matched, pendingOf_eq]
    congr 1
    by_cases same : i = d.subscription
    · rw [same, if_pos rfl, counts]
      ring
    · rw [if_neg same]
      simp [openWeight, subscription, Ne.symm same]
  · intro i
    split
    · exact fewer
    · exact le_refl 0

theorem updatePending_zero (s : Store) (sub : String) : updatePending s sub 0 = s := by
  rw [updatePending_eq]
  simp only [ite_self, shift_zero]

theorem openWeight_of_open (is_open : d.state.isOpen) : openWeight d.subscription d = 1 := by
  unfold openWeight
  rw [if_pos ⟨rfl, is_open⟩]

theorem openWeight_of_settled {i : String} (settled : d.state.isOpen = false) : openWeight i d = 0 := by
  unfold openWeight
  rw [if_neg fun both => by rw [settled] at both; exact Bool.false_ne_true both.2]

/-- What is left of a malformed row when its claim is gone. -/
theorem malformed_cleared (formed : malformed c d = false) (state : d'.state ≠ .claimed)
    (generation : d'.generation = d.generation) (attempt : d'.attempt = d.attempt) (worker : d'.worker = "")
    (token : d'.tokenHash = "") (lease : d'.lease = 0) : malformed c d' = false := by
  unfold malformed at formed ⊢
  simp only [Bool.or_eq_false_iff] at formed ⊢
  rw [generation, attempt, worker, token, lease]
  refine ⟨⟨formed.1.1, ?_⟩, by simp⟩
  rw [Bool.and_eq_false_iff]
  exact .inl (by simpa using state)

theorem malformed_fail (formed : malformed c d = false) (reason : String) : malformed c (fail reason d) = false :=
  malformed_cleared formed (by simp [fail]) rfl rfl rfl rfl rfl

/-! ## Claims and settlements -/

theorem unixNano_of_fits (low : -9223372036854775808 ≤ n) (high : n ≤ maxInt64) : unixNano n = n := by
  unfold unixNano maxInt64 at *
  rw [Int.bmod_def]
  omega

theorem unixNano_add {t d : Int} (positive : 0 ≤ unixNano t + d) (fits : unixNano t + d ≤ maxInt64) :
    unixNano (t + d) = unixNano t + d := by
  unfold unixNano maxInt64 at *
  simp only [Int.bmod_def] at positive fits ⊢
  omega

/-- A lease ends after the claim. -/
theorem leaseUntil_pos {expires : Int} (valid : c.Valid) (positive : 0 < unixNano now)
    (representable : unixNano now ≤ maxInt64 - c.leaseTTL) (fits : expires ≤ maxInt64) (early : unixNano now < expires) :
    0 < unixNano (leaseUntil c now expires) := by
  have ttl := valid.lease
  have later : unixNano (now + c.leaseTTL) = unixNano now + c.leaseTTL := unixNano_add (by omega) (by omega)
  unfold leaseUntil
  split
  · rw [unixNano_of_fits (by omega) fits]
    omega
  · omega

theorem malformed_grant {lease : Int} {tokenHash : String}
    (formed : malformed c d = false) (fewer : d.attempt < c.maxAttempts) (named : worker ≠ "")
    (length : tokenHash.length = 64) (positive : 0 < lease) : malformed c (grant lease worker tokenHash d) = false := by
  unfold malformed at formed
  simp only [Bool.or_eq_false_iff, decide_eq_false_iff_not, not_lt] at formed
  unfold malformed grant
  simp only [Bool.or_eq_false_iff, decide_eq_false_iff_not, not_lt, Bool.and_eq_false_iff, bne_self_eq_false, true_or,
    and_true, length, beq_eq_false_iff_ne, named, ne_eq, not_false_eq_true, not_le]
  refine ⟨⟨⟨by omega, by omega⟩, by omega⟩, .inr ⟨⟨by omega, by omega⟩, positive⟩⟩

theorem ne_empty_of_validText {text : String} {n : Nat} (valid : validText text n) : text ≠ "" := by
  rintro rfl
  revert valid
  unfold validText
  simp

theorem Store.Sound.claim {subscription : String}
    {out : Option (Delivery E)} (valid : h.config.Valid) (sound : s.Sound h) (named : validText worker 256)
    (positive : 0 < unixNano now) (representable : unixNano now ≤ maxInt64 - h.config.leaseTTL)
    (taken : candidate s subscription (unixNano now) = some d) (known : s.events.find? d.event = some row)
    (write : ClaimWrite h env s worker now d row s' out) : s'.Sound h := by
  obtain ⟨mem, -, state⟩ := candidate_some taken
  have is_open : d.state.isOpen := by
    rcases state with pending | ⟨claimed, -⟩
    · rw [pending]
      rfl
    · rw [claimed]
      rfl
  have formed := sound.formed d mem
  cases write with
  | failed reason =>
    refine sound.update (key_fail reason) mem (malformed_fail formed reason) ?_ (by omega)
    rw [openWeight_of_open is_open, openWeight_of_settled rfl]
    rfl
  | granted random original read early fewer decoded =>
    obtain ⟨listed, -⟩ := find?_eq_some.1 known
    rw [← updatePending_zero (updateDelivery s d.key _ _) d.subscription]
    refine sound.update _ mem ?_ ?_ (le_refl 0)
    · refine malformed_grant formed fewer (ne_empty_of_validText named) ?_ ?_
      · exact length_hexEncode _
      · exact leaseUntil_pos valid positive representable (sound.expiry row listed).2 early
    · rw [openWeight_of_open is_open, add_zero]
      exact openWeight_of_open rfl

theorem Store.Sound.settle {c : Claim} {ack : Bool} (sound : s.Sound h)
    (found : s.deliveries.find? c.key = some d) (held : holds h c (unixNano now) d) :
    (settleDelivery h s now ack d row).Sound h := by
  obtain ⟨mem, -⟩ := find?_eq_some.1 found
  have claimed : d.state = .claimed := by
    unfold holds at held
    simp only [Bool.and_eq_true, beq_iff_eq] at held
    exact held.1.1.1.1
  have is_open : d.state.isOpen := by
    rw [claimed]
    rfl
  have released : ∀ state reason due, state ≠ .claimed → malformed h.config (release state reason due d) = false :=
    fun state reason due other => malformed_cleared (sound.formed d mem) other rfl rfl rfl rfl rfl
  -- The three ends of a settlement: settled for good, or pending again.
  have settled : ∀ state reason due, state ≠ .claimed → state ≠ .pending →
      (updatePending (updateDelivery s d.key (release state reason due) (key_release state reason due)) d.subscription
        (-1)).Sound h := by
    intro state reason due other ended
    refine sound.update _ mem (released state reason due other) ?_ (by omega)
    have gone : (release state reason due d).state.isOpen = false := by
      cases state with
      | pending => exact absurd rfl ended
      | claimed => exact absurd rfl other
      | acked | failed => rfl
    rw [openWeight_of_open is_open, openWeight_of_settled gone]
    rfl
  have again : ∀ due, (updateDelivery s d.key (release .pending "" due) (key_release .pending "" due)).Sound h := by
    intro due
    rw [← updatePending_zero (updateDelivery s d.key _ _) d.subscription]
    refine sound.update _ mem (released .pending "" due State.noConfusion) ?_ (le_refl 0)
    rw [openWeight_of_open is_open, add_zero]
    exact openWeight_of_open rfl
  unfold settleDelivery settlement
  cases ack with
  | true => exact settled .acked "" _ State.noConfusion State.noConfusion
  | false =>
    dsimp only
    rw [if_neg Bool.false_ne_true]
    split
    · exact settled .failed "delivery_expired" _ State.noConfusion State.noConfusion
    · split
      · exact settled .failed "attempts_exhausted" _ State.noConfusion State.noConfusion
      · exact again _

/-! ## Expire -/

theorem sum_open_eq_count (p : DeliveryRow → Bool) (rows : List DeliveryRow) (i : String) :
    (rows.map fun d => if p d ∧ d.subscription = i then (1 : Int) else 0).sum =
      ((rows.filter p).map (·.subscription)).count i := by
  induction rows with
  | nil => rfl
  | cons d rows ih =>
    rw [map_cons, sum_cons, ih, filter_cons]
    by_cases meets : p d
    · rw [if_pos meets, map_cons, count_cons]
      by_cases same : d.subscription = i
      · simp [meets, same, add_comm]
      · simp [same]
    · simp [meets]

theorem Store.Sound.expireEvent (sound : s.Sound h) (row : EventRow) : (expireEvent s row).Sound h := by
  unfold Durable.expireEvent
  rw [foldl_updatePending]
  refine sound.modify (key_fail _) ?_ ?_ ?_
  · intro d mem _
    exact malformed_fail (sound.formed d mem) _
  · intro i
    rw [total_modify, ← sum_open_eq_count, pendingOf_eq, Relation.total, Relation.total, ← sub_eq_add_neg,
      ← Relation.sum_map_sub]
    refine congrArg List.sum (map_congr_left fun d _ => ?_)
    by_cases matched : d.event = row.key ∧ d.state.isOpen
    · have settled : openWeight i (fail "delivery_expired" d) = 0 := openWeight_of_settled rfl
      simp only [matched.1, matched.2, decide_true, Bool.and_self, if_true, true_and, settled]
      simp [openWeight, matched.2]
    · have kept : (decide (d.event = row.key) && d.state.isOpen) = false := by
        rw [Bool.and_eq_false_iff, decide_eq_false_iff_not]
        by_cases same : d.event = row.key
        · exact .inr (by simpa using fun is_open => matched ⟨same, is_open⟩)
        · exact .inl same
      simp [kept]
  · intro i
    omega

theorem Store.Sound.expire (sound : s.Sound h) (rows : List EventRow) : (rows.foldl Durable.expireEvent s).Sound h := by
  induction rows generalizing s with
  | nil => exact sound
  | cons row rows ih => exact ih (sound.expireEvent row)

/-! ## Purge -/

theorem Store.hasOpen_eq_false : s.hasOpen k = false ↔ ∀ d ∈ s.deliveries, d.event = k → d.state.isOpen = false := by
  unfold Store.hasOpen
  simp

/-- An event whose deliveries are settled is removed with them. -/
theorem Store.Sound.purgeEvent (sound : s.Sound h) (mem : row ∈ s.events)
    (settled : s.hasOpen row.key = false) : (purgeEvent s (row, s.ofEvent row.key fun _ => 1)).Sound h := by
  rw [Store.hasOpen_eq_false] at settled
  have kept : ∀ other ∈ (Durable.purgeEvent s (row, s.ofEvent row.key fun _ => 1)).events,
      other ∈ s.events ∧ other.key ≠ row.key := by
    intro other listed
    obtain ⟨inside, differs⟩ := Relation.mem_filter.1 listed
    exact ⟨inside, by simpa using differs⟩
  have left : ∀ d ∈ (Durable.purgeEvent s (row, s.ofEvent row.key fun _ => 1)).deliveries,
      d ∈ s.deliveries ∧ d.event ≠ row.key := by
    intro d listed
    obtain ⟨inside, differs⟩ := Relation.mem_filter.1 listed
    exact ⟨inside, by simpa using differs⟩
  have deliveries : ∀ w : DeliveryRow → Int, (∀ d ∈ s.deliveries, d.event = row.key → w d = 0) →
      (s.deliveries.filter fun d => d.event ≠ row.key).total w = s.deliveries.total w := by
    intro w nothing
    rw [total_filter]
    refine total_congr fun d inside => ?_
    by_cases same : d.event = row.key
    · simp [same, nothing d inside same]
    · simp [same]
  have events : ∀ w : EventRow → Int, (s.events.filter fun other => other.key ≠ row.key).total w = s.events.total w - w row := by
    intro w
    rw [total_filter, total_change (w := w) mem fun other _ differs => by simp [differs]]
    simp
    ring
  have count : (s.deliveries.filter fun d => d.event ≠ row.key).total (fun _ => 1) =
      (s.deliveries.total fun _ => 1) - s.ofEvent row.key fun _ => 1 := by
    rw [total_filter, Store.ofEvent, Relation.total, Relation.total, Relation.total, ← Relation.sum_map_sub]
    refine congrArg List.sum (map_congr_left fun d _ => ?_)
    by_cases same : d.event = row.key
    · simp [same]
    · simp [same]
  have few : 0 ≤ s.ofEvent row.key fun _ => 1 := total_nonneg fun d _ => by
    dsimp only
    split <;> omega
  have costs := eventCost_nonneg s row
  have rows := sound.rows
  have bytes := sound.bytes
  constructor
  case decoded => exact fun other listed => sound.decoded other (kept other listed).1
  case expiry => exact fun other listed => sound.expiry other (kept other listed).1
  case cost =>
    intro other listed
    obtain ⟨inside, differs⟩ := kept other listed
    rw [sound.cost other inside]
    unfold Store.eventCost
    congr 1
    refine (deliveries _ fun d _ same => ?_).symm
    rw [if_neg fun also => differs (also.symm.trans same)]
  case formed => exact fun d listed => sound.formed d (left d listed).1
  case parent =>
    intro d listed
    obtain ⟨inside, differs⟩ := left d listed
    obtain ⟨other, listed', same⟩ := sound.parent d inside
    exact ⟨other, Relation.mem_filter.2 ⟨listed', by simpa [same] using differs⟩, same⟩
  case pending =>
    intro sub listed
    obtain ⟨counted, bounded⟩ := sound.pending sub listed
    refine ⟨?_, bounded⟩
    rw [counted]
    exact (deliveries _ fun d inside same => openWeight_of_settled (settled d inside same)).symm
  case rows =>
    change s.rows - (1 + s.ofEvent row.key fun _ => 1) =
      ((s.events.filter fun other => other.key ≠ row.key).total fun _ => 1) +
        ((s.deliveries.filter fun d => d.event ≠ row.key).total fun _ => 1)
    rw [events, count]
    omega
  case bytes =>
    change s.bytes - row.cost = (s.events.filter fun other => other.key ≠ row.key).total (·.cost)
    rw [events]
    omega
  case maxRows =>
    change s.rows - (1 + s.ofEvent row.key fun _ => 1) ≤ _
    have := sound.maxRows
    omega
  case maxBytes =>
    change s.bytes - row.cost ≤ _
    have := sound.maxBytes
    rw [sound.cost row mem]
    omega

theorem mem_inOrder (mem : row ∈ inOrder time limit rows) : row ∈ rows :=
  (mergeSort_perm rows _).mem_iff.1 (mem_of_mem_take mem)

theorem nodup_inOrder (nodup : (rows.map EventRow.key).Nodup) :
    ((inOrder time limit rows).map EventRow.key).Nodup := by
  have sorted := ((mergeSort_perm rows fun a b => time a < time b || (time a == time b && (a.source < b.source ||
    (a.source == b.source && a.id ≤ b.id)))).map EventRow.key).nodup_iff.2 nodup
  exact sorted.sublist ((take_sublist _ _).map _)

/-- The loop of `Purge`: each event is still there, with the deliveries that were counted. -/
theorem Store.Sound.purgeEvents (sound : s.Sound h) (nodup : (rows.map EventRow.key).Nodup)
    (mem : ∀ row ∈ rows, row ∈ s.events) (settled : ∀ row ∈ rows, s.hasOpen row.key = false)
    (w : EventRow → Int) (counted : ∀ row ∈ rows, w row = s.ofEvent row.key fun _ => 1) :
    ((rows.map fun row => (row, w row)).foldl Durable.purgeEvent s).Sound h := by
  induction rows generalizing s with
  | nil => exact sound
  | cons row rows ih =>
    obtain ⟨fresh, nodup⟩ := nodup_cons.1 nodup
    have differs : ∀ other ∈ rows, other.key ≠ row.key := fun other listed same => fresh (same ▸ mem_map_of_mem listed)
    rw [map_cons, foldl_cons, counted row mem_cons_self]
    refine ih (sound.purgeEvent (mem row mem_cons_self) (settled row mem_cons_self)) nodup ?_ ?_ ?_
    · intro other listed
      refine Relation.mem_filter.2 ⟨mem other (mem_cons_of_mem _ listed), ?_⟩
      simpa using differs other listed
    · intro other listed
      rw [Store.hasOpen_eq_false]
      intro d inside same
      exact Store.hasOpen_eq_false.1 (settled other (mem_cons_of_mem _ listed)) d (Relation.mem_filter.1 inside).1 same
    · intro other listed
      rw [counted other (mem_cons_of_mem _ listed)]
      change s.ofEvent _ _ = (s.deliveries.filter fun d => d.event ≠ row.key).total _
      rw [total_filter, Store.ofEvent]
      refine total_congr fun d _ => ?_
      by_cases same : d.event = row.key
      · simp [same, Ne.symm (differs other listed)]
      · simp [same]

theorem Store.Sound.purge {before : Int} (sound : s.Sound h) :
    ((purgeable s before limit).foldl Durable.purgeEvent s).Sound h := by
  have listed : ∀ row ∈ inOrder (·.retainUntil) limit (s.events.rows.filter fun row =>
      row.retainUntil ≤ before && !s.hasOpen row.key), row ∈ s.events ∧ s.hasOpen row.key = false := by
    intro row mem
    obtain ⟨inside, meets⟩ := List.mem_filter.1 (mem_inOrder mem)
    simp only [Bool.and_eq_true, Bool.not_eq_true'] at meets
    exact ⟨inside, meets.2⟩
  exact sound.purgeEvents (nodup_inOrder (s.events.unique.sublist (filter_sublist.map _)))
    (fun row mem => (listed row mem).1) (fun row mem => (listed row mem).2) _ fun _ _ => rfl

/-! ## Publish -/

/-- What the loop over the matched subscriptions does. -/
structure Delivered (k : EventKey) (n : Int) (matched : List String) (s s' : Store) : Prop where
  fresh : ∀ sub ∈ matched, ∀ d ∈ s.deliveries, d.key ≠ (sub, k)
  nodup : matched.Nodup
  mem : ∀ d, d ∈ s'.deliveries ↔ d ∈ s.deliveries ∨ ∃ sub ∈ matched, d = newDelivery k n sub
  total : ∀ w, s'.deliveries.total w = s.deliveries.total w + (matched.map fun sub => w (newDelivery k n sub)).sum
  subscriptions : s'.subscriptions = shift s.subscriptions fun i => (matched.count i : Int)
  events : s'.events = s.events
  rows : s'.rows = s.rows
  bytes : s'.bytes = s.bytes

theorem addDelivery_ok {sub : String} (done : addDelivery k.1 k.2 n s sub = .ok s') :
    ∃ deliveries, s.deliveries.insert (newDelivery k n sub) = some deliveries ∧
      s' = { s with deliveries, subscriptions := shift s.subscriptions fun i => if i = sub then 1 else 0 } := by
  unfold addDelivery at done
  split at done
  case h_1 => cases done
  case h_2 deliveries inserted =>
    cases done
    exact ⟨deliveries, inserted, updatePending_eq _ sub 1⟩

theorem addDeliveries_ok {matched : List String}
    (done : matched.foldlM (addDelivery k.1 k.2 n) s = .ok s') : Delivered k n matched s s' := by
  induction matched generalizing s with
  | nil =>
    cases done
    refine ⟨nofun, nodup_nil, fun d => ?_, fun w => ?_, ?_, rfl, rfl, rfl⟩
    · simp
    · simp
    · simp [shift_zero]
  | cons sub matched ih =>
    obtain ⟨middle, turn, done⟩ := of_bind done
    obtain ⟨deliveries, inserted, rfl⟩ := addDelivery_ok turn
    have rest := ih done
    have first : ∀ d ∈ s.deliveries, d.key ≠ (sub, k) := (insert_eq_some inserted).1
    refine ⟨?_, ?_, ?_, ?_, ?_, rest.events, rest.rows, rest.bytes⟩
    · intro other mem d inside
      rcases mem_cons.1 mem with rfl | mem
      · exact first d inside
      · exact rest.fresh other mem d ((mem_insert inserted).2 (.inl inside))
    · refine nodup_cons.2 ⟨fun mem => ?_, rest.nodup⟩
      exact rest.fresh sub mem (newDelivery k n sub) ((mem_insert inserted).2 (.inr rfl)) rfl
    · intro d
      rw [rest.mem, mem_insert inserted, or_assoc, exists_mem_cons_iff]
    · intro w
      rw [rest.total, total_insert inserted, map_cons, sum_cons]
      ring
    · rw [rest.subscriptions, shift_shift]
      congr 1
      funext i
      by_cases same : i = sub
      · simp [same, add_comm]
      · simp [same, Ne.symm same]

/-- New deliveries count for their subscriptions. -/
theorem sum_newDeliveries (k : EventKey) (n : Int) (matched : List String) (i : String) :
    (matched.map fun sub => openWeight i (newDelivery k n sub)).sum = matched.count i := by
  induction matched with
  | nil => rfl
  | cons sub matched ih =>
    rw [map_cons, sum_cons, ih, count_cons]
    by_cases same : sub = i
    · simp [openWeight, newDelivery, State.isOpen, same, add_comm]
    · simp [openWeight, newDelivery, same]

/-- An event that is sealed is read back. -/
theorem sealEvent_decodes {cipher : Cipher} (sealing : sealEvent h env e = .ok cipher) :
    ∃ e', decode h cipher.source cipher.id cipher.digest cipher = .ok e' := by
  obtain ⟨encoded, source, id, digest, short⟩ := sealEvent_ok sealing
  obtain ⟨valid, encoded⟩ := of_refuse encoded
  simp only [Bool.or_eq_false_iff, decide_eq_false_iff_not, not_lt, not_eq_false_iff] at valid
  split at encoded
  case h_1 => cases encoded
  case h_2 raw written =>
    have encoded := past_refuse encoded
    obtain ⟨grammar, encoded⟩ := of_refuse encoded
    cases encoded
    obtain ⟨e', read, valid', source', id'⟩ := h.sdk.reads e cipher.plain valid.2 written
    have event : decodeEvent h.sdk cipher.plain h.config.maxEventBytes = .ok e' := by
      refine refuse_bind_eq_ok.2 ⟨?_, refuse_bind_eq_ok.2 ⟨grammar, ?_⟩⟩
      · simp only [Bool.or_eq_false_iff, decide_eq_false_iff_not, not_lt]
        exact valid.1.1
      · rw [read]
        exact refuse_bind_eq_ok.2 ⟨not_eq_false_iff.2 valid', rfl⟩
    refine ⟨e', refuse_bind_eq_ok.2 ⟨?_, refuse_bind_eq_ok.2 ⟨by simp, refuse_bind_eq_ok.2 ⟨?_, ?_⟩⟩⟩⟩
    · rwa [decide_eq_false_iff_not, not_lt]
    · rw [digest, bne_self_eq_false]
    · rw [event]
      refine refuse_bind_eq_ok.2 ⟨?_, rfl⟩
      rw [source', id', source, id, bne_self_eq_false, bne_self_eq_false]
      rfl

theorem insertEvent_ok (done : insertEvent s row = .ok s') :
    ∃ events, s.events.insert row = some events ∧ s' = { s with events } := by
  unfold insertEvent at done
  split at done
  case h_1 => cases done
  case h_2 events inserted =>
    cases done
    exact ⟨events, inserted, rfl⟩

theorem Store.Sound.publish {r : Receipt} (valid : h.config.Valid) (sound : s.Sound h)
    (write : PublishWrite h env s e s' r) : s'.Sound h := by
  obtain ⟨cipher, sealing, fresh, rowsRoom, bytesRoom, timely, pending, middle, inserted, last, delivered, rfl, -⟩ := write
  obtain ⟨events, entered, rfl⟩ := insertEvent_ok inserted
  have loop := addDeliveries_ok (k := (cipher.source, cipher.id)) delivered
  set kind := h.sdk.kind e
  set matched := h.config.byType kind
  set row := newEvent h env cipher kind with row_def
  -- No delivery of the new event was there before.
  have foreign : ∀ d ∈ s.deliveries, d.event ≠ row.key := by
    intro d inside same
    obtain ⟨parent, listed, its⟩ := sound.parent d inside
    exact Relation.find?_eq_none.1 fresh parent listed (its.trans same)
  have ofEvent : ∀ (k : EventKey) (w : DeliveryRow → Int), last.ofEvent k w = s.ofEvent k w +
      (matched.map fun sub => if row.key = k then w (newDelivery (cipher.source, cipher.id) env.now sub) else 0).sum :=
    fun k w => loop.total _
  have members : ∀ other, other ∈ last.events ↔ other ∈ s.events ∨ other = row := by
    intro other
    rw [loop.events]
    exact mem_insert entered
  have totals : ∀ w, last.events.total w = s.events.total w + w row := by
    intro w
    rw [loop.events]
    exact total_insert entered w
  have others : ∀ other ∈ s.events, other.key ≠ row.key := Relation.find?_eq_none.1 fresh
  have ttl := valid.delivery
  have dedup := valid.dedup
  constructor
  case decoded =>
    intro other mem
    rcases (members other).1 mem with old | rfl
    · exact sound.decoded other old
    · exact sealEvent_decodes sealing
  case expiry =>
    intro other mem
    rcases (members other).1 mem with old | rfl
    · exact sound.expiry other old
    · have low := env.now.2.1
      change -9223372036854775808 ≤ (env.now : Int) + h.config.deliveryTTL ∧ (env.now : Int) + h.config.deliveryTTL ≤ maxInt64
      omega
  case cost =>
    intro other mem
    change other.cost = baseCost other + last.ofEvent other.key deliveryCost
    rw [ofEvent]
    rcases (members other).1 mem with old | rfl
    · rw [sound.cost other old, Store.eventCost]
      simp [Ne.symm (others other old)]
    · have none_before : s.ofEvent row.key deliveryCost = 0 := by
        unfold Store.ofEvent Relation.total
        rw [map_congr_left fun d inside => if_neg (foreign d inside)]
        simp
      rw [none_before, zero_add]
      simp only [if_true]
      rfl
  case formed =>
    intro d mem
    rcases (loop.mem d).1 mem with old | ⟨sub, -, rfl⟩
    · exact sound.formed d old
    · have attempts := valid.attempts
      unfold malformed newDelivery
      simp
      omega
  case parent =>
    intro d mem
    rcases (loop.mem d).1 mem with old | ⟨sub, -, rfl⟩
    · obtain ⟨parent, listed, its⟩ := sound.parent d old
      exact ⟨parent, (members parent).2 (.inl listed), its⟩
    · exact ⟨row, (members row).2 (.inr rfl), rfl⟩
  case pending =>
    intro sub (mem : sub ∈ last.subscriptions)
    rw [loop.subscriptions] at mem
    obtain ⟨old, inside, rfl⟩ := mem_shift.1 mem
    obtain ⟨counted, bounded⟩ := sound.pending old inside
    refine ⟨?_, ?_⟩
    · change old.pending + (matched.count old.id : Int) = last.deliveries.total (openWeight old.id)
      rw [loop.total, counted, pendingOf_eq, sum_newDeliveries]
    · change old.pending + (matched.count old.id : Int) ≤ _
      by_cases listed : old.id ∈ matched
      · obtain ⟨found, is_old, less⟩ := pending old.id listed
        obtain ⟨listed', same⟩ := find?_eq_some.1 is_old
        obtain rfl := eq_of_key inside listed' same.symm
        have once := nodup_iff_count_le_one.1 loop.nodup old.id
        omega
      · rw [count_eq_zero_of_not_mem listed]
        omega
  case rows =>
    rw [loop.rows, totals, loop.total]
    have rows := sound.rows
    simp
    omega
  case bytes =>
    rw [loop.bytes, totals]
    rw [sound.bytes]
  case maxRows =>
    rw [loop.rows]
    exact rowsRoom
  case maxBytes =>
    rw [loop.bytes]
    exact bytesRoom

end Pagnet.Durable
