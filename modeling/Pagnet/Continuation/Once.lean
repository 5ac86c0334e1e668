import Pagnet.Continuation.Run

/-!
# A continuation is executed at most once

Rows only move forward: from pending to claimed to complete, with a snapshot that
stays and a receipt and an outcome that are written once. A fresh claim finds its
row pending and leaves it claimed, so there is one at most, and with it one
object that hands out the snapshot once.
-/

namespace Pagnet.Continuation
open Json List Pagnet.Relation

variable {c : Config} {env : Env} {s s' : Store}

/-! ## Rows move forward -/

/-- The columns that belong to a state. -/
structure Row.Shaped (row : Row) : Prop where
  receipt : row.state = .pending ↔ row.receipt = none
  outcome : row.state = .complete ↔ row.outcome ≠ none

/-- What later states of a row keep. -/
structure Row.Forward (a b : Row) : Prop where
  id : b.id = a.id
  snapshot : b.snapshot = a.snapshot
  digest : b.digest = a.digest
  expires : b.expires = a.expires
  receipt : a.receipt ≠ none → b.receipt = a.receipt
  outcome : a.outcome ≠ none → b.outcome = a.outcome
  settled : a.state ≠ .pending → b.state ≠ .pending ∧ b.revision = a.revision ∧ b.hash = a.hash
  complete : a.state = .complete → b.state = .complete

theorem Row.Forward.refl (a : Row) : a.Forward a :=
  ⟨rfl, rfl, rfl, rfl, fun _ => rfl, fun _ => rfl, fun settled => ⟨settled, rfl, rfl⟩, fun done => done⟩

theorem Row.Forward.trans {a b d : Row} (first : a.Forward b) (second : b.Forward d) : a.Forward d where
  id := second.id.trans first.id
  snapshot := second.snapshot.trans first.snapshot
  digest := second.digest.trans first.digest
  expires := second.expires.trans first.expires
  receipt some := by
    have kept := first.receipt some
    rw [second.receipt (kept ▸ some), kept]
  outcome some := by
    have kept := first.outcome some
    rw [second.outcome (kept ▸ some), kept]
  settled some := by
    obtain ⟨state, revision, hash⟩ := first.settled some
    obtain ⟨state', revision', hash'⟩ := second.settled state
    exact ⟨state', revision'.trans revision, hash'.trans hash⟩
  complete done := second.complete (first.complete done)

/-- No row is lost, and each row goes forward. -/
def Store.Forward (s s' : Store) : Prop := ∀ a ∈ s.continuations, ∃ b ∈ s'.continuations, a.Forward b

theorem Store.Forward.refl (s : Store) : s.Forward s := fun a mem => ⟨a, mem, .refl a⟩

theorem Store.Forward.trans {s s' s'' : Store} (first : s.Forward s') (second : s'.Forward s'') : s.Forward s'' := by
  intro a mem
  obtain ⟨b, mem_b, ab⟩ := first a mem
  obtain ⟨d, mem_d, bd⟩ := second b mem_b
  exact ⟨d, mem_d, ab.trans bd⟩

def Store.Shaped (s : Store) : Prop := ∀ row ∈ s.continuations, row.Shaped

variable {expiry : Timestamp} {revision : Nat} {token : Token} {v : Snapshot} {id claimID : String}
    {call : Call} {row : Row} {p : System} {trace : List CallEvent} {receipt : Receipt}
    {ctx : ExecutionContext}

theorem writeNotification_ok {recipient : Principal}
    (h : writeNotification c env v token revision expiry s recipient = .ok s') : ∃ n : Notification,
      n.id = v.deferralID ∧ n.recipient = notificationRecipient c recipient ∧ n.revision = revision ∧ n.published = false ∧
      notificationSize ⟨1, v.deferralID, recipient, revision, expiry, token⟩ ≤ maxNotificationBytes ∧
      0 < n.payload.length ∧ n.payload.length ≤ maxNotificationBytes + maxSealOverhead ∧
      n.payload.purpose = notificationPurpose (notificationRecipient c recipient) revision ∧ n.payload.id = v.deferralID ∧
      n.payload.plain = ⟨1, v.deferralID, recipient, revision, expiry, token⟩ ∧
      s.bytes + (n.payload.length - ((s.notifications.find? (n.id, n.recipient)).map fun n => n.payload.length).getD 0) ≤
        c.options.maxBytes ∧
      s' = { s with
        bytes := s.bytes +
          (n.payload.length - ((s.notifications.find? (n.id, n.recipient)).map fun n => n.payload.length).getD 0)
        notifications := s.notifications.upsert n } := by
  obtain ⟨fits, h⟩ := of_refuse h
  obtain ⟨cipher, sealing, h⟩ := of_bind h
  obtain ⟨s₁, charged, h⟩ := of_bind h
  cases h
  obtain ⟨size, positive, bound, purpose, id, plain⟩ := sealBlob_ok sealing
  obtain ⟨-, room, rfl⟩ := charge_ok charged
  refine ⟨⟨v.deferralID, notificationRecipient c recipient, revision, cipher, false⟩, rfl, rfl, rfl, rfl, size, positive, ?_,
    purpose, id, plain, room, ?_⟩
  · exact bound.trans (by omega)
  · rw [add_zero]

theorem writeNotifications_continuations
    (h : writeNotifications c env s v token revision expiry = .ok s') : s'.continuations = s.continuations := by
  refine foldlM_keeps (P := fun t : Store => t.continuations = s.continuations) ?_ rfl h
  intro t recipient t' same turn
  obtain ⟨n, -, -, -, -, -, -, -, -, -, -, -, rfl⟩ := writeNotification_ok turn
  exact same

/-- The rows of the database that a call commits. -/
inductive RowWrite (c : Config) (s s' : Store) : Call → Prop where
  | inserted {env : Env} {ctx : ExecutionContext} {v : Snapshot} {expires : Timestamp} {token : Token}
      {sealed : Sealed Snapshot} (drawn : env.secret = some token.secret)
      (rows : s.continuations.insert (newRow c v sealed expires token) = some s'.continuations) :
      RowWrite c s s' ⟨.create ctx v expires, env⟩
  | rotated {env : Env} {ctx : ExecutionContext} {id : String} {expected : Nat} {token : Token}
      (drawn : env.secret = some token.secret) (rows : s'.continuations = s.continuations.modify (isPending id expected)
        (fun row => { row with hash := c.sha256 (List.ofFn token.secret), revision := row.revision + 1 }) fun _ => rfl) :
      RowWrite c s s' ⟨.rotatePendingCapability ctx id expected, env⟩
  | claimed {env : Env} {ctx : ExecutionContext} {token : Token} {claimID : String} {sealed : Sealed Receipt}
      {revision : Int} (rows : s'.continuations = s.continuations.modify (isPending token.id revision)
        (fun row => { row with state := .claimed, receipt := some sealed }) fun _ => rfl) :
      RowWrite c s s' ⟨.claim ctx (some token) claimID, env⟩
  | completed {env : Env} {ctx : ExecutionContext} {receipt : Receipt} {out : Outcome} {sealed : Sealed Outcome}
      (rows : s'.continuations = s.continuations.modify (fun row => row.id = receipt.id && row.state = .claimed)
        (fun row => { row with state := .complete, outcome := some sealed }) fun _ => rfl) :
      RowWrite c s s' ⟨.complete ctx receipt out, env⟩
  | kept {call : Call} (rows : s'.continuations = s.continuations) : RowWrite c s s' call

theorem mint_ok (h : mint env id = .ok token) : token.id = id ∧ env.secret = some token.secret := by
  unfold mint at h
  split at h
  case h_1 => cases h
  case h_2 secret drawn =>
    cases h
    exact ⟨rfl, drawn⟩

theorem Wrote.rows (wrote : Wrote c s call s') : RowWrite c s s' call := by
  cases wrote with
  | @created env ctx v expires token sealed s₁ s₂ s' write =>
    obtain ⟨-, -, rfl⟩ := charge_ok write.charged
    obtain ⟨table, inserted, rfl⟩ := insertRow_ok write.inserted
    have rows : s.continuations.insert (newRow c v sealed expires token) = some s'.continuations := by
      rw [writeNotifications_continuations write.notified]
      exact inserted
    exact .inserted (mint_ok write.minted).2 rows
  | rotated write =>
    obtain ⟨-, rfl⟩ := updateRow_ok write.updated
    have rows := writeNotifications_continuations write.notified
    exact .rotated (mint_ok write.minted).2 (write.revision ▸ rows)
  | claimed write =>
    obtain ⟨-, -, rfl⟩ := charge_ok write.charged
    obtain ⟨-, rfl⟩ := updateRow_ok write.updated
    exact .claimed rfl
  | completed write =>
    obtain ⟨-, -, rfl⟩ := charge_ok write.charged
    obtain ⟨-, rfl⟩ := updateRow_ok write.updated
    exact .completed rfl
  | acknowledged p => exact .kept rfl

theorem isPending_eq {revision : Int} (h : isPending id revision row) :
    row.id = id ∧ row.state = .pending ∧ row.revision = revision := by
  simpa [isPending, and_assoc] using h

/-- An update that takes every row it touches forward. -/
theorem forward_modify {p : Row → Bool} {f : Row → Row} {keeps : ∀ r, (f r).id = r.id}
    (rows : s'.continuations = s.continuations.modify p f keeps) (shaped : s.Shaped)
    (each : ∀ row, row.Shaped → p row → row.Forward (f row) ∧ (f row).Shaped) : s.Forward s' ∧ s'.Shaped := by
  constructor
  · intro a mem
    refine ⟨if p a then f a else a, rows ▸ mem_modify.2 ⟨a, mem, rfl⟩, ?_⟩
    split
    case isTrue meets => exact (each a (shaped a mem) meets).1
    case isFalse => exact .refl a
  · intro b mem
    rw [rows] at mem
    obtain ⟨a, inside, rfl⟩ := mem_modify.1 mem
    split
    case isTrue meets => exact (each a (shaped a inside) meets).2
    case isFalse => exact shaped a inside

theorem RowWrite.forward (write : RowWrite c s s' call) (shaped : s.Shaped) : s.Forward s' ∧ s'.Shaped := by
  cases write with
  | inserted drawn rows =>
    constructor
    · exact fun a mem => ⟨a, (mem_insert rows).2 (.inl mem), .refl a⟩
    · intro b mem
      rcases (mem_insert rows).1 mem with inside | rfl
      · exact shaped b inside
      · exact ⟨by simp [newRow], by simp [newRow]⟩
  | rotated drawn rows =>
    refine forward_modify rows shaped fun row shape meets => ?_
    obtain ⟨-, pending, -⟩ := isPending_eq meets
    exact ⟨⟨rfl, rfl, rfl, rfl, fun _ => rfl, fun _ => rfl, fun settled => absurd pending settled, fun done => done⟩,
      ⟨shape.receipt, shape.outcome⟩⟩
  | claimed rows =>
    refine forward_modify rows shaped fun row shape meets => ?_
    obtain ⟨-, pending, -⟩ := isPending_eq meets
    have empty := shape.receipt.1 pending
    refine ⟨⟨rfl, rfl, rfl, rfl, fun some => absurd empty some, fun _ => rfl, fun settled => absurd pending settled, ?_⟩,
      ⟨by simp, ?_⟩⟩
    · intro done
      rw [pending] at done
      cases done
    · have none_yet := shape.outcome
      rw [pending] at none_yet
      simpa using none_yet
  | completed rows =>
    refine forward_modify rows shaped fun row shape meets => ?_
    simp only [Bool.and_eq_true, decide_eq_true_eq] at meets
    obtain ⟨-, claimed⟩ := meets
    have receipt := shape.receipt
    have outcome := shape.outcome
    rw [claimed] at receipt outcome
    simp only [reduceCtorEq, false_iff, not_not] at receipt outcome
    refine ⟨⟨rfl, rfl, rfl, rfl, fun _ => rfl, fun some => absurd outcome some, fun _ => ⟨by simp, rfl, rfl⟩, fun _ => rfl⟩,
      ⟨?_, by simp⟩⟩
    simpa using receipt
  | kept rows =>
    refine ⟨fun a mem => ⟨a, rows ▸ mem, .refl a⟩, fun b mem => shaped b (rows ▸ mem)⟩

/-- A step writes the rows that its call writes, or none. -/
theorem step_rows (c : Config) (p : System) (call : Call) : RowWrite c p.store (step c p call).1.store call := by
  rcases step_wrote c p call with same | wrote
  · exact .kept (by rw [same])
  · exact wrote.rows

theorem reached_forward {m : System} (shaped : m.store.Shaped)
    (run : Run (step c) m trace p) : m.store.Forward p.store ∧ p.store.Shaped := by
  refine run.invariant (P := fun q : System => m.store.Forward q.store ∧ q.store.Shaped) ⟨.refl _, shaped⟩ ?_
  rintro q call ⟨forward, shaped⟩
  obtain ⟨next, shaped'⟩ := (step_rows c q call).forward shaped
  exact ⟨forward.trans next, shaped'⟩

theorem reached_shaped (run : Reached c trace p) : p.store.Shaped :=
  (reached_forward (fun _ mem => absurd mem (not_mem_empty _)) run).2

/-! ## Fresh claims and what they hand out -/

/-- The receipt that a fresh claim returned. -/
def freshClaim : CallEvent → Option Receipt
  | ⟨_, ⟨.claim _ _ _, _⟩, .ok (.claimed r), _⟩ => if r.fresh then some r.receipt else none
  | _ => none

/-- The continuation whose snapshot was handed out for execution. -/
def consumed : CallEvent → Option String
  | ⟨_, ⟨.consume _ _ _ receipt, _⟩, .ok (.consumed _), _⟩ => some receipt.id
  | _ => none

/-- A fresh claim committed its receipt and remembers it. -/
theorem freshClaim_step
    (h : freshClaim (Event.of (step c) p call) = some receipt) :
    ∃ ctx token claimID env row r v sealed s₁ s', call = ⟨.claim ctx (some token) claimID, env⟩ ∧
      ClaimWrite c env p.store ctx token claimID row r v receipt sealed s₁ s' ∧
      (step c p call).1 = { p with store := s', claims := p.claims ++ [⟨p.handle, receipt, v, false⟩] } := by
  unfold freshClaim at h
  split at h
  case h_2 => cases h
  case h_1 before ctx token claimID env result after is_event =>
    obtain ⟨rfl, rfl, output, rfl⟩ : p = before ∧ call = ⟨.claim ctx token claimID, env⟩ ∧
        (step c p call).2 = .ok (.claimed result) ∧ (step c p call).1 = after := by
      simpa [Event.of] using is_event
    split at h
    case isFalse => cases h
    case isTrue fresh =>
      cases h
      unfold step at output ⊢
      dsimp only at output ⊢
      unfold System.claim at output ⊢
      split at output
      case isTrue => cases output
      case isFalse open_ =>
        rw [if_neg open_]
        have answered : (finish env p.store (claim c env p.store ctx token claimID)).2 = .ok result := by
          cases done : (finish env p.store (claim c env p.store ctx token claimID)).2 with
          | error e =>
            rw [done] at output
            cases output
          | ok a =>
            rw [done] at output
            cases output
            rfl
        rcases Commit.conclude_ok answered with ⟨accepted, -⟩ | ⟨s', accepted, store⟩
        · obtain ⟨t, -, ⟨row, result', again, answer⟩ | ⟨_, _, _, _, _, _, _, -, commit⟩⟩ := claim_ok accepted
          · cases answer
            rw [again.again] at fresh
            cases fresh
          · cases commit
        · obtain ⟨t, rfl, ⟨row, result', again, answer⟩ | ⟨row, r, v, receipt, sealed, s₁, s'', write, commit⟩⟩ :=
            claim_ok accepted
          · cases answer
          · cases commit
            refine ⟨ctx, t, claimID, env, row, r, v, sealed, s₁, s', rfl, write, ?_⟩
            change (finish env p.store _).1 = s' at store
            rw [store, answered]
            rfl

/-- How the claims of the process change. -/
inductive ClaimStep (c : Config) (p : System) (call : Call) : Prop where
  | fresh {receipt : Receipt} {v : Snapshot} (claims : (step c p call).1.claims = p.claims ++ [⟨p.handle, receipt, v, false⟩])
      (given : freshClaim (Event.of (step c) p call) = some receipt) (spent : consumed (Event.of (step c) p call) = none)
  | consume {i : Nat} {claim : FreshClaim} (found : p.claims[i]? = some claim) (unused : claim.used = false)
      (claims : (step c p call).1.claims = p.claims.set i { claim with used := true })
      (given : freshClaim (Event.of (step c) p call) = none)
      (spent : consumed (Event.of (step c) p call) = some claim.receipt.id)
  | kept (claims : (step c p call).1.claims = p.claims) (given : freshClaim (Event.of (step c) p call) = none)
      (spent : consumed (Event.of (step c) p call) = none)

theorem claimStep (c : Config) (p : System) (call : Call) : ClaimStep c p call := by
  cases given : freshClaim (Event.of (step c) p call) with
  | some receipt =>
    obtain ⟨ctx, token, claimID, env, row, r, v, sealed, s₁, s', rfl, write, after⟩ := freshClaim_step given
    exact .fresh (by rw [after]) given rfl
  | none =>
    obtain ⟨op, env⟩ := call
    cases op with
    | create | rotatePendingCapability | complete | acknowledgePrivateNotification =>
      refine .kept ?_ given rfl
      dsimp only [Event.of, step, System.transact]
      split <;> rfl
    | reopen => exact .kept rfl given rfl
    | consume i handle ctx receipt =>
      cases done : p.consume c i handle ctx receipt with
      | error e =>
        have stays : step c p ⟨.consume i handle ctx receipt, env⟩ = (p, .error e) := by simp [step, done]
        exact .kept (by rw [stays]) given (by simp [consumed, Event.of, stays])
      | ok out =>
        obtain ⟨p', v⟩ := out
        obtain ⟨claim, found, unused, rfl, after⟩ := consume_ok done
        have next : step c p ⟨.consume i handle ctx claim.receipt, env⟩ = (p', .ok (.consumed v)) := by
          simp [step, done]
        exact .consume found unused (by rw [next, after]) given (by simp [consumed, Event.of, next])
    | claim ctx token claimID =>
      refine .kept ?_ given rfl
      unfold step
      dsimp only
      unfold System.claim
      split
      · rfl
      case isFalse open_ =>
        unfold System.remember
        split
        case h_2 => rfl
        case h_1 result answered =>
          split
          case isFalse => rfl
          case isTrue fresh =>
            have output : (step c p ⟨.claim ctx token claimID, env⟩).2 = .ok (.claimed result) := by
              unfold step
              dsimp only
              unfold System.claim
              rw [if_neg open_, answered]
              rfl
            simp [freshClaim, Event.of, output, fresh] at given

/-- What the process remembers of the fresh claims of a run. -/
structure Remembers (trace : List CallEvent) (p : System) : Prop where
  fresh : ∀ id, p.claims.countP (fun claim => claim.receipt.id = id) =
    trace.countP fun e => (freshClaim e).map (·.id) = some id
  spent : ∀ id, p.claims.countP (fun claim => claim.used && claim.receipt.id = id) =
    trace.countP fun e => consumed e = some id
  settled : ∀ e ∈ trace, ∀ receipt, freshClaim e = some receipt → ∃ row ∈ p.store.continuations, row.id = receipt.id ∧
    row.receipt.map (·.plain) = some receipt
  once : ∀ id, (trace.countP fun e => (freshClaim e).map (·.id) = some id) ≤ 1

theorem ClaimWrite.claims {r : Opened} {sealed : Sealed Receipt} {s₁ : Store}
    (write : ClaimWrite c env s ctx token claimID row r v receipt sealed s₁ s') :
    ∃ row' ∈ s'.continuations, row'.id = receipt.id ∧ row'.receipt.map (·.plain) = some receipt := by
  obtain ⟨-, -, rfl⟩ := charge_ok write.charged
  obtain ⟨-, rfl⟩ := updateRow_ok write.updated
  have meets : isPending token.id row.revision row := by simp [isPending, write.named, write.pending]
  have named : receipt.id = token.id := by rw [write.receipt_is]
  refine ⟨{ row with state := .claimed, receipt := some sealed }, ?_, ?_, ?_⟩
  · rw [mem_modify]
    exact ⟨row, write.acts.loaded.mem, if_pos meets⟩
  · exact write.named.trans named.symm
  · rw [Option.map_some, (sealBlob_ok write.sealing).2.2.2.2.2]

theorem reached_remembers (run : Reached c trace p) : Remembers trace p := by
  suffices both : p.store.Shaped ∧ Remembers trace p from both.2
  refine run.history (P := fun trace q => q.store.Shaped ∧ Remembers trace q) ?_ ?_
  · exact ⟨fun _ mem => absurd mem (not_mem_empty _), fun _ => rfl, fun _ => rfl,
      fun _ mem => absurd mem not_mem_nil, fun _ => Nat.zero_le _⟩
  rintro trace q call ⟨shaped, memory⟩
  obtain ⟨forward, shaped'⟩ := (step_rows c q call).forward shaped
  -- A receipt that is stored stays where it is.
  have settled : ∀ e ∈ trace, ∀ receipt, freshClaim e = some receipt →
      ∃ row ∈ (step c q call).1.store.continuations, row.id = receipt.id ∧
        row.receipt.map (·.plain) = some receipt := by
    intro e mem receipt given
    obtain ⟨row, inside, named, held⟩ := memory.settled e mem receipt given
    obtain ⟨row', inside', next⟩ := forward row inside
    refine ⟨row', inside', next.id.trans named, ?_⟩
    rw [next.receipt fun empty => by simp [empty] at held]
    exact held
  refine ⟨shaped', ?_⟩
  rcases claimStep c q call with ⟨claims, given, spent⟩ | ⟨found, unused, claims, given, spent⟩ | ⟨claims, given, spent⟩
  case fresh receipt v =>
    obtain ⟨ctx, token, claimID, env, row, r, v, sealed, s₁, s', rfl, write, after⟩ := freshClaim_step given
    refine ⟨fun id => ?_, fun id => ?_, ?_, fun id => ?_⟩
    · rw [claims, countP_append, countP_append, memory.fresh id]
      simp [given]
    · rw [claims, countP_append, countP_append, memory.spent id]
      simp [spent]
    · intro e mem receipt' given'
      rcases mem_append.1 mem with earlier | last
      · exact settled e earlier receipt' given'
      · obtain rfl := mem_singleton.1 last
        cases given.symm.trans given'
        rw [after]
        exact write.claims
    · rw [countP_append]
      by_cases same : receipt.id = id
      · -- A fresh claim found its row pending, so no earlier one left a receipt there.
        have none_before : (trace.countP fun e => (freshClaim e).map (·.id) = some id) = 0 := by
          rw [countP_eq_zero]
          intro e mem again
          obtain ⟨receipt', given', named'⟩ := Option.map_eq_some_iff.1 (of_decide_eq_true again)
          obtain ⟨row', inside, named, held⟩ := memory.settled e mem receipt' given'
          have named_row : row.id = receipt.id := by rw [write.named, write.receipt_is]
          have one : row' = row := eq_of_key inside write.acts.loaded.mem
            (named.trans (named'.trans (same.symm.trans named_row.symm)))
          rw [one, (shaped row write.acts.loaded.mem).receipt.1 write.pending] at held
          cases held
        rw [none_before, Nat.zero_add]
        exact countP_le_length
      · have other : ([Event.of (step c) q ⟨.claim ctx (some token) claimID, env⟩].countP
            fun e => (freshClaim e).map (·.id) = some id) = 0 := by simp [given, same]
        rw [other, Nat.add_zero]
        exact memory.once id
  case consume i claim =>
    obtain ⟨inside, is_claim⟩ := List.getElem?_eq_some_iff.1 found
    refine ⟨fun id => ?_, fun id => ?_, ?_, fun id => ?_⟩
    · rw [claims, countP_set inside, is_claim, countP_append, ← memory.fresh id]
      have counted := countP_pos_iff (p := fun claim : FreshClaim => decide (claim.receipt.id = id))
        (l := q.claims) |>.2
      by_cases same : claim.receipt.id = id
      · have positive := counted ⟨claim, mem_of_getElem? found, decide_eq_true same⟩
        simp only [same, decide_true, if_true, countP_singleton, given, Option.map_none, reduceCtorEq, decide_false,
          Bool.false_eq_true, if_false, Nat.add_zero]
        omega
      · simp [same, given]
    · rw [claims, countP_set inside, is_claim, countP_append, ← memory.spent id]
      simp [unused, spent]
    · intro e mem receipt given'
      rcases mem_append.1 mem with earlier | last
      · exact settled e earlier receipt given'
      · obtain rfl := mem_singleton.1 last
        rw [given] at given'
        cases given'
    · rw [countP_append]
      simpa [given] using memory.once id
  case kept =>
    refine ⟨fun id => ?_, fun id => ?_, ?_, fun id => ?_⟩
    · rw [claims, countP_append, memory.fresh id]
      simp [given]
    · rw [claims, countP_append, memory.spent id]
      simp [spent]
    · intro e mem receipt given'
      rcases mem_append.1 mem with earlier | last
      · exact settled e earlier receipt given'
      · obtain rfl := mem_singleton.1 last
        rw [given] at given'
        cases given'
    · rw [countP_append]
      simpa [given] using memory.once id

/-! ## Capabilities -/

/-- A call drew the secret of a capability revision, and the database after it holds the hash. -/
structure Mints (c : Config) (e : CallEvent) (id : String) (revision : Int) (secret : Bytes32) : Prop where
  drawn : e.input.env.secret = some secret
  op : (∃ ctx v expires, e.input.op = .create ctx v expires ∧ v.deferralID = id ∧ revision = 1) ∨
    ∃ ctx expected, e.input.op = .rotatePendingCapability ctx id expected ∧ revision = expected + 1
  stored : ∃ row ∈ e.after.store.continuations, row.id = id ∧ row.revision = revision ∧
    row.hash = c.sha256 (List.ofFn secret)

/-- The hash in a row is that of the secret minted last for it. -/
def Minted (c : Config) (trace : List CallEvent) (row : Row) : Prop :=
  ∃ m ∈ trace, ∃ secret, Mints c m row.id row.revision secret ∧ row.hash = c.sha256 (List.ofFn secret)

theorem reached_minted (run : Reached c trace p) : ∀ row ∈ p.store.continuations, Minted c trace row := by
  refine run.history (P := fun trace q => ∀ row ∈ q.store.continuations, Minted c trace row)
    (fun _ mem => absurd mem (not_mem_empty _)) ?_
  intro trace q call minted
  have earlier : ∀ row, Minted c trace row → Minted c (trace ++ [Event.of (step c) q call]) row := by
    rintro row ⟨m, mem, secret, mints, hash⟩
    exact ⟨m, mem_append_left _ mem, secret, mints, hash⟩
  have last : ∀ row ∈ (step c q call).1.store.continuations, ∀ secret, call.env.secret = some secret →
      ((∃ ctx v expires, call.op = .create ctx v expires ∧ v.deferralID = row.id ∧ row.revision = 1) ∨
        ∃ ctx expected, call.op = .rotatePendingCapability ctx row.id expected ∧ row.revision = expected + 1) →
      row.hash = c.sha256 (List.ofFn secret) → Minted c (trace ++ [Event.of (step c) q call]) row := by
    intro row mem secret drawn op hash
    exact ⟨_, mem_append_right _ mem_cons_self, secret, ⟨drawn, op, row, mem, rfl, rfl, hash⟩, hash⟩
  intro row mem
  have write := step_rows c q call
  generalize after_is : (step c q call).1.store = after at write mem
  cases write with
  | inserted drawn rows =>
    rcases (mem_insert rows).1 mem with inside | rfl
    · exact earlier row (minted row inside)
    · exact last _ (after_is ▸ mem) _ drawn (.inl ⟨_, _, _, rfl, rfl, rfl⟩) rfl
  | @rotated env ctx id expected token drawn rows =>
    have changed := mem
    rw [rows, mem_modify] at changed
    obtain ⟨a, inside, rfl⟩ := changed
    by_cases meets : isPending id expected a
    · obtain ⟨rfl, -, revision⟩ := isPending_eq meets
      rw [if_pos meets] at mem ⊢
      exact last _ (after_is ▸ mem) _ drawn (.inr ⟨_, _, rfl, by rw [← revision]⟩) rfl
    · rw [if_neg meets]
      exact earlier a (minted a inside)
  | claimed rows | completed rows =>
    rw [rows, mem_modify] at mem
    obtain ⟨a, inside, rfl⟩ := mem
    split
    case isTrue => exact earlier _ (minted a inside)
    case isFalse => exact earlier a (minted a inside)
  | kept rows => exact earlier row (minted row (rows ▸ mem))

/-! ## Calls after the claim -/

/-- A call that fails and changes nothing. -/
def Refused (c : Config) (p : System) (call : Call) : Prop := ∃ e, step c p call = (p, .error e)

theorem claim_refused (shaped : row.Shaped) (mem : row ∈ p.store.continuations)
    (held : row.receipt.map (·.plain) = some receipt)
    (named : row.id = token.id) (other : claimID ≠ receipt.claimID ∨ ctx.principal ≠ receipt.principal) (env : Env) :
    Refused c p ⟨.claim ctx (some token) claimID, env⟩ := by
  cases result : claim c env p.store ctx (some token) claimID with
  | error e =>
    unfold Refused step
    dsimp only
    unfold System.claim
    split
    · exact ⟨_, rfl⟩
    · rw [result]
      exact ⟨e, rfl⟩
  | ok ch =>
    exfalso
    obtain ⟨t, same, ⟨row', answer, again, -⟩ | ⟨row', r, v, receipt', sealed, s₁, s', write, -⟩⟩ := claim_ok result
    · cases same
      obtain rfl := eq_of_key again.mem mem (again.named.trans named.symm)
      have receipts := Option.some.inj (again.held.symm.trans held)
      rcases other with claim | principal
      · exact claim (receipts ▸ again.claim.symm)
      · exact principal (receipts ▸ again.principal.symm)
    · cases same
      obtain rfl := eq_of_key write.acts.loaded.mem mem (write.named.trans named.symm)
      rw [shaped.receipt.1 write.pending] at held
      cases held

theorem complete_refused (shaped : row.Shaped) (mem : row ∈ p.store.continuations)
    (held : row.receipt.map (·.plain) = some receipt) {receipt' : Receipt}
    {out : Outcome} (named : row.id = receipt'.id)
    (other : receipt' ≠ receipt ∨ ∃ stored, row.outcome.map (·.plain) = some stored ∧ out ≠ stored) (env : Env) :
    Refused c p ⟨.complete ctx receipt' out, env⟩ := by
  cases result : complete c env p.store ctx receipt' out with
  | error e =>
    change ∃ e', p.transact env (complete c env p.store ctx receipt' out) _ = (p, .error e')
    rw [result, System.transact]
    split <;> exact ⟨_, rfl⟩
  | ok ch =>
    exfalso
    rcases complete_ok result with ⟨row', inside, named', held', outcome, -⟩ | ⟨row', r, sealed, s₁, s', write, -⟩
    · obtain rfl := eq_of_key inside mem (named'.trans named.symm)
      rcases other with receipts | ⟨stored, is_stored, differs⟩
      · exact receipts (Option.some.inj (held'.symm.trans held))
      · exact differs (Option.some.inj (outcome.symm.trans is_stored))
    · obtain rfl := eq_of_key write.loaded.mem mem (write.named.trans named.symm)
      rcases other with receipts | ⟨stored, is_stored, -⟩
      · exact receipts (Option.some.inj (write.held.symm.trans held))
      · have complete := shaped.outcome.2 fun empty => by simp [empty] at is_stored
        rw [write.claimed] at complete
        cases complete

/-! ## At most once -/

/-- What a fresh claim was entitled by: the row was pending, the caller one of the principals it names, the time
before its expiry, and the token's secret has the hash of the capability that was minted last. -/
def Entitled (c : Config) (before : List CallEvent) (e : CallEvent) (receipt : Receipt) : Prop :=
  ∃ ctx token claimID env row, e.input = ⟨.claim ctx (some token) claimID, env⟩ ∧
    row ∈ e.before.store.continuations ∧ row.id = token.id ∧ row.state = .pending ∧
    allowed row.snapshot.plain ctx.principal ∧
    (∃ expiry, parseTime row.expires = some expiry ∧ after expiry (clock env.now)) ∧
    receipt = ⟨token.id, claimID, ctx.principal, c.audience, row.digest, row.snapshot.plain.planDigest, row.revision.toNat,
      clock env.now⟩ ∧
    ∃ m ∈ before, ∃ secret, Mints c m row.id row.revision secret ∧
      c.sha256 (List.ofFn token.secret) = c.sha256 (List.ofFn secret)

/-- The calls that a stored receipt, and a stored outcome, exclude. -/
structure Excludes (c : Config) (p : System) (row : Row) (receipt : Receipt) : Prop where
  claim : ∀ ctx token claimID env, row.id = token.id →
    claimID ≠ receipt.claimID ∨ ctx.principal ≠ receipt.principal → Refused c p ⟨.claim ctx (some token) claimID, env⟩
  complete : ∀ ctx receipt' out env, row.id = receipt'.id →
    receipt' ≠ receipt ∨ (∃ stored, row.outcome.map (·.plain) = some stored ∧ out ≠ stored) →
    Refused c p ⟨.complete ctx receipt' out, env⟩

theorem executed_at_most_once {trace : List CallEvent} {p : System} (run : Reached c trace p) :
    (∀ id, (trace.countP fun e => (freshClaim e).map (·.id) = some id) ≤ 1) ∧
    (∀ id, (trace.countP fun e => consumed e = some id) ≤ 1) ∧
    (∀ e ∈ trace, ∀ receipt, freshClaim e = some receipt → ∃ before later, trace = before ++ e :: later ∧
      Entitled c before e receipt) ∧
    (∀ e ∈ trace, ∀ receipt, freshClaim e = some receipt → ∃ row ∈ p.store.continuations, row.id = receipt.id ∧
      row.receipt.map (·.plain) = some receipt) ∧
    (∀ row ∈ p.store.continuations, ∀ receipt, row.receipt.map (·.plain) = some receipt → Excludes c p row receipt) ∧
    ∀ e ∈ trace, e.before.store.Forward p.store := by
  have memory := reached_remembers run
  refine ⟨memory.once, fun id => ?_, fun e mem receipt given => ?_, memory.settled, fun row mem receipt held => ?_,
    fun e mem => ?_⟩
  · rw [← memory.spent id]
    refine le_trans (countP_mono_left fun claim _ used => ?_) ((memory.fresh id).trans_le (memory.once id))
    exact (Bool.and_eq_true_iff.1 used).2
  · obtain ⟨before, later, rfl, reached, is_step, -⟩ := run.split mem
    rw [is_step] at given
    obtain ⟨ctx, token, claimID, env, row, r, v, sealed, s₁, s', input, write, -⟩ := freshClaim_step given
    obtain ⟨m, inside, secret, mints, hash⟩ := reached_minted reached row write.acts.loaded.mem
    have opened := openRow_ok write.acts.loaded.opened
    have decoded := (snapshot_ok write.acts.decoded).1
    rw [opened] at decoded
    subst decoded
    exact ⟨before, later, rfl, ctx, token, claimID, env, row, input, write.acts.loaded.mem, write.named, write.pending,
      write.acts.allowed, write.unexpired, write.receipt_is, m, inside, secret, mints, write.hash.trans hash⟩
  · have shaped := reached_shaped run row mem
    exact ⟨fun _ _ _ env named other => claim_refused shaped mem held named other env,
      fun _ _ _ env named other => complete_refused shaped mem held named other env⟩
  · obtain ⟨before, later, rfl, reached, is_step, rest⟩ := run.split mem
    have shaped := reached_shaped reached
    obtain ⟨next, shaped'⟩ := (step_rows c e.before e.input).forward shaped
    have after_is : e.after = (step c e.before e.input).1 := by
      rw [is_step]
      rfl
    rw [← after_is] at next shaped'
    exact next.trans (reached_forward shaped' rest).1

/-! A continuation that is created, rotated, claimed, handed out and completed before the database is opened again. -/

def sampleOptions : Options := ⟨4, 1000000, 100000, 10000, 1000000, 1000000000, 64, 4096⟩

def sampleConfig : Config := ⟨sampleOptions, "a", sampleDigest⟩

def sampleID : String := String.ofList (List.replicate 64 '0')

def samplePrincipal : Principal := ⟨"p", "a.b", "i"⟩

def sampleContext : ExecutionContext := ⟨samplePrincipal, true, "a", fun _ => true⟩

def sampleSnapshot : Snapshot :=
  ⟨1, sampleID, [0], samplePrincipal, [samplePrincipal], "1", "1", sampleConfig.digest ['1'], ['1'], ['1'], []⟩

def sampleExpiry : Timestamp := clock 1000000000

def sampleEnv (secret : UInt8) : Env := ⟨0, some fun _ => secret, fun _ => some 1, .made⟩

def sampleReceipt : Receipt :=
  ⟨sampleID, sampleID, samplePrincipal, "a", sampleConfig.digest sampleSnapshot.toJson.render, sampleSnapshot.planDigest,
    2, clock 0⟩

def sampleCreate : Call := ⟨.create sampleContext sampleSnapshot sampleExpiry, sampleEnv 1⟩

def sampleCalls : List Call :=
  [sampleCreate, ⟨.rotatePendingCapability sampleContext sampleID 1, sampleEnv 2⟩,
    ⟨.claim sampleContext (some ⟨sampleID, fun _ => 2⟩) sampleID, sampleEnv 3⟩,
    ⟨.consume 0 0 sampleContext sampleReceipt, sampleEnv 3⟩,
    ⟨.complete sampleContext sampleReceipt ⟨.completed, ['1']⟩, sampleEnv 3⟩, ⟨.reopen, sampleEnv 3⟩]

theorem executed_at_most_once_sample :
    ((traceOf (step sampleConfig) System.initial sampleCalls).countP fun e => (freshClaim e).map (·.id) = some sampleID) = 1 ∧
    ((traceOf (step sampleConfig) System.initial sampleCalls).countP fun e => consumed e = some sampleID) = 1 := by
  obtain ⟨fresh, spent, -⟩ := executed_at_most_once (Run.start.inputs sampleCalls)
  have happen : 1 ≤ ((traceOf (step sampleConfig) System.initial sampleCalls).countP
        fun e => (freshClaim e).map (·.id) = some sampleID) ∧
      1 ≤ ((traceOf (step sampleConfig) System.initial sampleCalls).countP fun e => consumed e = some sampleID) := by
    decide +kernel
  exact ⟨le_antisymm (fresh sampleID) happen.1, le_antisymm (spent sampleID) happen.2⟩

end Pagnet.Continuation
