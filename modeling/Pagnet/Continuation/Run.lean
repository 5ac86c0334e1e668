import Pagnet.Continuation.Store
import Pagnet.Data.Run

/-!
# Runs of the continuation store

The store's mutex makes each call one step. A process holds one store at a time:
`reopen` closes it and opens another one, which the opener's checks may refuse,
and a call on a closed store fails. A fresh claim is an object of the process
that made it and remembers the store it came from.
-/

namespace Pagnet.Continuation
open Json

/-- `FreshClaim`. -/
structure FreshClaim where
  handle : Nat
  receipt : Receipt
  snapshot : Snapshot
  used : Bool

structure System where
  store : Store
  handle : Nat
  closed : Bool
  claims : List FreshClaim

def System.initial : System := ⟨.initial, 0, false, []⟩

inductive Op where
  | create (ctx : ExecutionContext) (v : Snapshot) (expires : Timestamp)
  | rotatePendingCapability (ctx : ExecutionContext) (id : String) (expected : Nat)
  | claim (ctx : ExecutionContext) (token : Option Token) (claimID : String)
  /-- `FreshClaim.Consume` of a claim of the process, with one of its stores. -/
  | consume (claim handle : Nat) (ctx : ExecutionContext) (receipt : Receipt)
  | complete (ctx : ExecutionContext) (receipt : Receipt) (out : Outcome)
  | acknowledgePrivateNotification (ctx : ExecutionContext) (token : Option Token) (revision : Nat)
  | reopen

structure Call where
  op : Op
  env : Env

inductive Answer where
  | issued (issued : Issued)
  | claimed (result : ClaimResult)
  | consumed (v : Snapshot)
  | completed (out : Outcome)
  | done

/-- The end of a transaction. -/
def finish {α : Type} (env : Env) (s : Store) : Except Error (Change α) → Store × Except Error α :=
  env.commit.conclude .internal s

/-- A call that only works on the database. -/
def System.transact {α : Type} (s : System) (env : Env) (result : Except Error (Change α)) (answer : α → Answer) :
    System × Except Error Answer :=
  if s.closed then (s, .error .internal)
  else ({ s with store := (finish env s.store result).1 }, (finish env s.store result).2.map answer)

/-- The claims of the process after a call of `Claim`. -/
def System.remember (s : System) : Except Error ClaimResult → List FreshClaim
  | .ok r => if r.fresh then s.claims ++ [⟨s.handle, r.receipt, r.snapshot, false⟩] else s.claims
  | .error _ => s.claims

def System.claim (s : System) (env : Env) (result : Except Error (Change ClaimResult)) : System × Except Error Answer :=
  if s.closed then (s, .error .internal)
  else ({ s with store := (finish env s.store result).1, claims := s.remember (finish env s.store result).2 },
    (finish env s.store result).2.map .claimed)

/-- `FreshClaim.Consume`. -/
def System.consume (c : Config) (s : System) (i handle : Nat) (ctx : ExecutionContext) (receipt : Receipt) :
    Except Error (System × Snapshot) :=
  match s.claims[i]? with
  | none => .error .stale
  | some p => do
    refuse (p.used || p.handle != handle || !ctx.verified || ctx.audience != c.audience ||
      receipt.principal != ctx.principal || receipt.audience != c.audience) .stale
    refuse (receipt != p.receipt) .stale
    refuse (s.closed || handle != s.handle) .internal
    let r ← load c s.store receipt.id
    refuse (r.state != .claimed || r.receipt != some p.receipt || r.snapshot != p.snapshot ||
      r.digest != receipt.snapshotDigest) .stale
    let v ← Continuation.snapshot c p.snapshot
    return ({ s with claims := s.claims.set i { p with used := true } }, v)

/-- A step of the process. -/
def step (c : Config) (s : System) (call : Call) : System × Except Error Answer :=
  match call.op with
  | .create ctx v expires => s.transact call.env (create c call.env s.store ctx v expires) .issued
  | .rotatePendingCapability ctx id expected =>
    s.transact call.env (rotatePendingCapability c call.env s.store ctx id expected) .issued
  | .claim ctx token claimID => s.claim call.env (claim c call.env s.store ctx token claimID)
  | .consume i handle ctx receipt =>
    match s.consume c i handle ctx receipt with
    | .ok (s', v) => (s', .ok (.consumed v))
    | .error e => (s, .error e)
  | .complete ctx receipt out => s.transact call.env (complete c call.env s.store ctx receipt out) .completed
  | .acknowledgePrivateNotification ctx token revision =>
    s.transact call.env (acknowledgePrivateNotification c call.env s.store ctx token revision) fun _ => .done
  | .reopen =>
    ({ s with handle := s.handle + 1, closed := !(verify c s.store).isOk }, (verify c s.store).map fun _ => .done)

abbrev CallEvent := Event System Call (Except Error Answer)

/-- The runs from an empty store. -/
abbrev Reached (c : Config) (trace : List CallEvent) (s : System) : Prop := Run (step c) System.initial trace s

/-! ## What a transaction writes -/

variable {c : Config} {env : Env} {s s' : Store}

theorem charge_ok {records bytes : Int} (h : charge c s records bytes = .ok s') :
    s.records + records ≤ c.options.maxRecords ∧ s.bytes + bytes ≤ c.options.maxBytes ∧
      s' = { s with records := s.records + records, bytes := s.bytes + bytes } := by
  obtain ⟨room, h⟩ := of_refuse h
  cases h
  simp only [Bool.not_eq_false', Bool.and_eq_true, decide_eq_true_eq] at room
  exact ⟨room.1, room.2, rfl⟩

variable {id purpose : String} {max : Int} {e : Error} {row : Row} {r : Opened} {token : Option Token}
    {ch : Change Issued} {ctx : ExecutionContext} {v : Snapshot} {receipt : Receipt}

theorem sealBlob_ok {α : Type} {cipher : Option Int} {plain : α} {size : Int}
    {sealed : Sealed α} (h : sealBlob cipher purpose id plain size max = .ok sealed) :
    size ≤ max ∧ 0 < sealed.length ∧ sealed.length ≤ size + maxSealOverhead ∧ sealed.purpose = purpose ∧
      sealed.id = id ∧ sealed.plain = plain := by
  obtain ⟨fits, h⟩ := of_refuse h
  cases cipher with
  | none => cases h
  | some length =>
    obtain ⟨bounds, h⟩ := of_refuse h
    cases h
    simp only [Bool.or_eq_false_iff, decide_eq_false_iff_not, not_le, not_lt] at fits bounds
    exact ⟨fits, bounds.1, bounds.2, rfl, rfl, rfl⟩

theorem openBlob_ok {α : Type} {sealed : Sealed α} {size : α → Int} {plain : α} :
    openBlob sealed purpose id size max = .ok plain ↔ 0 < sealed.length ∧ sealed.length ≤ max + maxSealOverhead ∧
      sealed.purpose = purpose ∧ sealed.id = id ∧ size sealed.plain ≤ max ∧ sealed.plain = plain := by
  unfold openBlob
  simp only [refuse_bind_eq_ok, Bool.or_eq_false_iff, decide_eq_false_iff_not, not_le, not_lt, bne_eq_false_iff_eq,
    and_assoc]
  refine and_congr_right fun _ => and_congr_right fun _ => and_congr_right fun _ => and_congr_right fun _ =>
    and_congr_right fun _ => ?_
  exact ⟨Except.ok.inj, congrArg Except.ok⟩

/-- Opening is refused with an internal error only. -/
theorem openBlob_error {α : Type} {sealed : Sealed α} {size : α → Int}
    (h : openBlob sealed purpose id size max = .error e) : e = .internal := by
  unfold openBlob refuse at h
  split_ifs at h <;> cases h <;> rfl

theorem updateRow_ok {p : Row → Bool} {f : Row → Row} {keeps : ∀ r, (f r).id = r.id}
    (h : updateRow s p f keeps = .ok s') :
    (∃ row ∈ s.continuations, p row) ∧ s' = { s with continuations := s.continuations.modify p f keeps } := by
  obtain ⟨some_row, h⟩ := of_refuse h
  cases h
  rw [Bool.not_eq_false', List.any_eq_true] at some_row
  exact ⟨some_row, rfl⟩

theorem insertRow_ok (h : insertRow s row = .ok s') :
    ∃ table, s.continuations.insert row = some table ∧ s' = { s with continuations := table } := by
  unfold insertRow at h
  split at h
  case h_1 => cases h
  case h_2 table inserted => exact ⟨table, inserted, (Except.ok.inj h).symm⟩

/-- A row that was loaded, and what it held. -/
structure Loaded (c : Config) (s : Store) (row : Row) (r : Opened) : Prop where
  mem : row ∈ s.continuations
  opened : openRow c row = .ok r

theorem openOption_ok {α : Type} {column : Option (Sealed α)} {size : α → Int}
    {plain : Option α} (h : openOption column purpose id size max = .ok plain) :
    plain = column.map (·.plain) ∧ 0 ≤ (column.map (·.length)).getD 0 := by
  cases column with
  | none =>
    cases h
    exact ⟨rfl, le_refl 0⟩
  | some sealed =>
    change (openBlob sealed purpose id size max).map some = .ok plain at h
    cases opened : openBlob sealed purpose id size max with
    | error e =>
      rw [opened] at h
      cases h
    | ok a =>
      rw [opened] at h
      cases h
      obtain ⟨positive, -, -, -, -, same⟩ := openBlob_ok.1 opened
      exact ⟨congrArg some same.symm, positive.le⟩

theorem openRow_ok (h : openRow c row = .ok r) :
    r = ⟨row.snapshot.plain, row.digest, row.expires, row.hash, row.revision, row.state, row.receipt.map (·.plain),
      row.outcome.map (·.plain)⟩ := by
  obtain ⟨v, opened, h⟩ := of_bind h
  have h := past_refuse h
  obtain ⟨receipt, first, h⟩ := of_bind h
  obtain ⟨outcome, second, h⟩ := of_bind h
  cases h
  rw [(openOption_ok first).1, (openOption_ok second).1, (openBlob_ok.1 opened).2.2.2.2.2]

theorem load_ok (h : load c s id = .ok r) : ∃ row, row.id = id ∧ Loaded c s row r := by
  unfold load at h
  split at h
  case h_1 => cases h
  case h_2 row found =>
    obtain ⟨mem, same⟩ := Relation.find?_eq_some.1 found
    exact ⟨row, same, mem, h⟩

theorem openOption_error {α : Type} {column : Option (Sealed α)} {size : α → Int}
    (h : openOption column purpose id size max = .error e) : e = .internal := by
  cases column with
  | none => cases h
  | some sealed =>
    change (openBlob sealed purpose id size max).map some = .error e at h
    cases opened : openBlob sealed purpose id size max with
    | error e' =>
      rw [opened] at h
      cases h
      exact openBlob_error opened
    | ok a =>
      rw [opened] at h
      cases h

/-- Only an identity without a row is stale to `load`. -/
theorem load_stale (h : load c s id = .error .stale) : s.continuations.find? id = none := by
  unfold load at h
  split at h
  case h_1 missing => exact missing
  case h_2 row found =>
    exfalso
    rcases bind_eq_error.1 h with failed | ⟨v, -, h⟩
    · cases openBlob_error failed
    rcases bind_eq_error.1 h with failed | ⟨_, -, h⟩
    · obtain ⟨-, other⟩ := refuse_eq_error.1 failed
      cases other
    rcases bind_eq_error.1 h with failed | ⟨receipt, -, h⟩
    · cases openOption_error failed
    rcases bind_eq_error.1 h with failed | ⟨outcome, -, h⟩
    · cases openOption_error failed
    · cases h

/-- A pending row of a revision. -/
def isPending (id : String) (revision : Int) (row : Row) : Bool :=
  row.id = id && row.state = .pending && row.revision = revision

/-- What is known of a row that a caller may act on. -/
structure Acts (c : Config) (s : Store) (ctx : ExecutionContext) (row : Row) (r : Opened) (v : Snapshot) : Prop where
  loaded : Loaded c s row r
  decoded : snapshot c r.snapshot = .ok v
  allowed : allowed v ctx.principal

/-- The row a new continuation gets. -/
def newRow (c : Config) (v : Snapshot) (sealed : Sealed Snapshot) (expires : Timestamp) (token : Token) : Row :=
  ⟨v.deferralID, sealed, c.digest v.toJson.render, expires.utc, c.sha256 (List.ofFn token.secret), 1, .pending, none, none⟩

/-- A continuation that is new. -/
structure CreateWrite (c : Config) (env : Env) (s : Store) (ctx : ExecutionContext) (v : Snapshot) (expires : Timestamp)
    (token : Token) (sealed : Sealed Snapshot) (s₁ s₂ s' : Store) : Prop where
  checked : checkCreate c ctx v = .ok ()
  fresh : s.continuations.find? v.deferralID = none
  nonzero : expires.isZero = false
  later : after expires (clock env.now)
  minted : mint env v.deferralID = .ok token
  sealing : sealBlob (env.cipher "snapshot") "snapshot" v.deferralID v (snapshotSize v) c.options.maxSnapshotBytes =
    .ok sealed
  charged : charge c s 1 sealed.length = .ok s₁
  inserted : insertRow s₁ (newRow c v sealed expires token) = .ok s₂
  notified : writeNotifications c env s₂ v token 1 expires.utc = .ok s'

/-- A pending continuation with another capability. -/
structure RotateWrite (c : Config) (env : Env) (s : Store) (ctx : ExecutionContext) (id : String) (expected : Nat)
    (row : Row) (r : Opened) (v : Snapshot) (token : Token) (s₁ s' : Store) : Prop where
  named : row.id = id
  acts : Acts c s ctx row r v
  pending : row.state = .pending
  revision : row.revision = expected
  minted : mint env id = .ok token
  updated : updateRow s (isPending id row.revision)
    (fun row => { row with hash := c.sha256 (List.ofFn token.secret), revision := row.revision + 1 }) (fun _ => rfl) =
      .ok s₁
  notified : writeNotifications c env s₁ v token (expected + 1) row.expires = .ok s'

/-- A pending continuation that is claimed. -/
structure ClaimWrite (c : Config) (env : Env) (s : Store) (ctx : ExecutionContext) (token : Token) (claimID : String)
    (row : Row) (r : Opened) (v : Snapshot) (receipt : Receipt) (sealed : Sealed Receipt) (s₁ s' : Store) : Prop where
  named : row.id = token.id
  acts : Acts c s ctx row r v
  pending : row.state = .pending
  identity : hexID claimID
  hash : c.sha256 (List.ofFn token.secret) = row.hash
  unexpired : ∃ expiry, parseTime row.expires = some expiry ∧ after expiry (clock env.now)
  receipt_is : receipt =
    ⟨token.id, claimID, ctx.principal, c.audience, row.digest, v.planDigest, row.revision.toNat, clock env.now⟩
  encodable : receipt.encodable
  sealing : sealBlob (env.cipher "receipt") "receipt" token.id receipt (receiptSize receipt) maxReceiptBytes = .ok sealed
  charged : charge c s 0 sealed.length = .ok s₁
  updated : updateRow s₁ (isPending token.id row.revision)
    (fun row => { row with state := .claimed, receipt := some sealed }) (fun _ => rfl) = .ok s'

/-- A claimed continuation that gets its outcome. -/
structure CompleteWrite (c : Config) (env : Env) (s : Store) (ctx : ExecutionContext) (receipt : Receipt) (out : Outcome)
    (row : Row) (r : Opened) (sealed : Sealed Outcome) (s₁ s' : Store) : Prop where
  checked : checkComplete c ctx receipt out = .ok ()
  named : row.id = receipt.id
  loaded : Loaded c s row r
  claimed : row.state = .claimed
  held : row.receipt.map (·.plain) = some receipt
  sealing : sealBlob (env.cipher "outcome") "outcome" receipt.id out (outcomeSize out) c.options.maxOutcomeBytes =
    .ok sealed
  charged : charge c s 0 sealed.length = .ok s₁
  updated : updateRow s₁ (fun row => row.id = receipt.id && row.state = .claimed)
    (fun row => { row with state := .complete, outcome := some sealed }) (fun _ => rfl) = .ok s'

/-- The databases that a call may commit. -/
inductive Wrote (c : Config) (s : Store) : Call → Store → Prop where
  | created {env : Env} {ctx : ExecutionContext} {v : Snapshot} {expires : Timestamp} {token : Token}
      {sealed : Sealed Snapshot} {s₁ s₂ s' : Store} (write : CreateWrite c env s ctx v expires token sealed s₁ s₂ s') :
      Wrote c s ⟨.create ctx v expires, env⟩ s'
  | rotated {env : Env} {ctx : ExecutionContext} {id : String} {expected : Nat} {row : Row} {r : Opened} {v : Snapshot}
      {token : Token} {s₁ s' : Store} (write : RotateWrite c env s ctx id expected row r v token s₁ s') :
      Wrote c s ⟨.rotatePendingCapability ctx id expected, env⟩ s'
  | claimed {env : Env} {ctx : ExecutionContext} {token : Token} {claimID : String} {row : Row} {r : Opened}
      {v : Snapshot} {receipt : Receipt} {sealed : Sealed Receipt} {s₁ s' : Store}
      (write : ClaimWrite c env s ctx token claimID row r v receipt sealed s₁ s') :
      Wrote c s ⟨.claim ctx (some token) claimID, env⟩ s'
  | completed {env : Env} {ctx : ExecutionContext} {receipt : Receipt} {out : Outcome} {row : Row} {r : Opened}
      {sealed : Sealed Outcome} {s₁ s' : Store} (write : CompleteWrite c env s ctx receipt out row r sealed s₁ s') :
      Wrote c s ⟨.complete ctx receipt out, env⟩ s'
  | acknowledged {env : Env} {ctx : ExecutionContext} {token : Token} {revision : Nat} (p : Notification → Bool) :
      Wrote c s ⟨.acknowledgePrivateNotification ctx (some token) revision, env⟩ { s with
        notifications := s.notifications.modify p (fun n => { n with published := true }) fun _ => rfl }

/-! ## What each operation commits or answers -/

theorem orInternal_ok {α : Type} {x : Except Error α} {a : α} (h : orInternal x = .ok a) : x = .ok a := by
  cases x with
  | error e => cases h
  | ok b => exact h

theorem storedTime_ok {t t' : Timestamp} (h : storedTime t = .ok t') : parseTime t = some t' := by
  unfold storedTime at h
  split at h
  case h_1 => cases h
  case h_2 parsed =>
    cases h
    exact parsed

theorem parseToken_ok {hash : Bytes32} (h : parseToken c token = .ok (id, hash)) :
    ∃ t, token = some t ∧ t.id = id ∧ hexID t.id ∧ c.sha256 (List.ofFn t.secret) = hash := by
  cases token with
  | none => cases h
  | some t =>
    obtain ⟨hex, h⟩ := of_refuse h
    cases h
    exact ⟨t, rfl, rfl, not_eq_false_iff.1 hex, rfl⟩

theorem create_ok {expires : Timestamp}
    (h : create c env s ctx v expires = .ok ch) : (∃ issued, ch = .answer issued ∧ issued.token = none) ∨
      ∃ token sealed s₁ s₂ s', CreateWrite c env s ctx v expires token sealed s₁ s₂ s' ∧
        ch = .commit s' ⟨v.deferralID, 1, true, some token⟩ := by
  obtain ⟨⟨⟩, checked, h⟩ := of_bind h
  split at h
  case h_1 prior loaded =>
    have h := past_refuse h
    cases h
    exact .inl ⟨_, rfl, rfl⟩
  case h_2 missing =>
    obtain ⟨time, h⟩ := of_refuse h
    obtain ⟨token, minted, h⟩ := of_bind h
    obtain ⟨sealed, sealing, h⟩ := of_bind h
    obtain ⟨s₁, charged, h⟩ := of_bind h
    obtain ⟨s₂, inserted, h⟩ := of_bind h
    obtain ⟨s', notified, h⟩ := of_bind h
    cases h
    simp only [Bool.or_eq_false_iff, Bool.not_eq_false'] at time
    exact .inr ⟨token, sealed, s₁, s₂, s', ⟨checked, load_stale missing, time.1.1, time.1.2, minted, sealing, charged,
      inserted, notified⟩, rfl⟩
  case h_3 => cases h

theorem rotate_ok {expected : Nat} (h : rotatePendingCapability c env s ctx id expected = .ok ch) :
    ∃ row r v token s₁ s', RotateWrite c env s ctx id expected row r v token s₁ s' ∧
      ch = .commit s' ⟨id, expected + 1, false, some token⟩ := by
  obtain ⟨⟨⟩, -, h⟩ := of_bind h
  have h := past_refuse h
  obtain ⟨r, loading, h⟩ := of_bind h
  obtain ⟨v, decoded, h⟩ := of_bind h
  obtain ⟨expiry, -, h⟩ := of_bind h
  obtain ⟨guards, h⟩ := of_refuse h
  obtain ⟨token, minted, h⟩ := of_bind h
  obtain ⟨s₁, updated, h⟩ := of_bind h
  obtain ⟨s', notified, h⟩ := of_bind h
  cases h
  obtain ⟨row, named, loaded⟩ := load_ok loading
  simp only [Bool.or_eq_false_iff, Bool.not_eq_false', bne_eq_false_iff_eq] at guards
  obtain rfl := openRow_ok loaded.opened
  exact ⟨row, _, v, token, s₁, s', ⟨named, ⟨loaded, orInternal_ok decoded, guards.1.1.1⟩, guards.1.1.2, guards.1.2, minted,
    updated, notified⟩, rfl⟩

/-- A claim of a continuation that was claimed before, with the same identity by the same principal. -/
structure ClaimRepeat (c : Config) (s : Store) (ctx : ExecutionContext) (token : Token) (claimID : String)
    (row : Row) (result : ClaimResult) : Prop where
  mem : row ∈ s.continuations
  named : row.id = token.id
  hash : c.sha256 (List.ofFn token.secret) = row.hash
  settled : row.state ≠ .pending
  held : row.receipt.map (·.plain) = some result.receipt
  claim : result.receipt.claimID = claimID
  principal : result.receipt.principal = ctx.principal
  stored : result.snapshot = row.snapshot.plain ∧ result.outcome = row.outcome.map (·.plain)
  again : result.fresh = false

theorem snapshot_ok {v' : Snapshot} (h : snapshot c v = .ok v') : v' = v ∧
    decodesValue (c.privateLimits c.options.maxSnapshotBytes) v.toJson ∧ validateSnapshot c v = .ok () := by
  obtain ⟨decodes, h⟩ := of_refuse h
  obtain ⟨⟨⟩, valid, h⟩ := of_bind h
  exact ⟨(Except.ok.inj h).symm, not_eq_false_iff.1 decodes, valid⟩

theorem decodeOutcome_ok {stored out : Option Outcome} (h : decodeOutcome c stored = .ok out) : out = stored := by
  cases stored with
  | none =>
    cases h
    rfl
  | some o =>
    change (decodeStored Outcome.toJson _ o).map some = .ok out at h
    unfold decodeStored at h
    cases decodes : decodesValue (plainLimits c.options.maxOutcomeBytes) o.toJson with
    | false =>
      rw [decodes] at h
      cases h
    | true =>
      rw [decodes] at h
      cases h
      rfl

theorem claim_ok {claimID : String} {ch : Change ClaimResult}
    (h : claim c env s ctx token claimID = .ok ch) : ∃ t, token = some t ∧
      ((∃ row result, ClaimRepeat c s ctx t claimID row result ∧ ch = .answer result) ∨
        ∃ row r v receipt sealed s₁ s', ClaimWrite c env s ctx t claimID row r v receipt sealed s₁ s' ∧
          ch = .commit s' ⟨receipt, v, .claimed, true, none⟩) := by
  obtain ⟨⟨⟩, -, h⟩ := of_bind h
  obtain ⟨⟨id, hash⟩, parsed, h⟩ := of_bind h
  obtain ⟨t, rfl, rfl, -, hashed⟩ := parseToken_ok parsed
  obtain ⟨identity, h⟩ := of_refuse h
  obtain ⟨r, loading, h⟩ := of_bind h
  obtain ⟨v, decoding, h⟩ := of_bind h
  obtain ⟨guards, h⟩ := of_refuse h
  obtain ⟨row, named, loaded⟩ := load_ok loading
  have decoded := orInternal_ok decoding
  obtain rfl := openRow_ok loaded.opened
  simp only [Bool.or_eq_false_iff, Bool.not_eq_false', bne_eq_false_iff_eq] at guards
  refine ⟨t, rfl, ?_⟩
  split at h
  case isTrue pending =>
    obtain ⟨expiry, stored, h⟩ := of_bind h
    obtain ⟨unexpired, h⟩ := of_refuse h
    obtain ⟨bounds, h⟩ := of_refuse h
    obtain ⟨sealed, sealing, h⟩ := of_bind h
    obtain ⟨s₁, charged, h⟩ := of_bind h
    obtain ⟨s', updated, h⟩ := of_bind h
    cases h
    simp only [Bool.or_eq_false_iff, Bool.not_eq_false'] at bounds
    exact .inr ⟨row, _, v, _, sealed, s₁, s', ⟨named, ⟨loaded, decoded, guards.1⟩, pending, not_eq_false_iff.1 identity,
      hashed.trans guards.2, ⟨expiry, storedTime_ok stored, not_eq_false_iff.1 unexpired⟩, rfl, bounds.1, sealing,
      charged, updated⟩, rfl⟩
  case isFalse settled =>
    unfold claimAgain at h
    split at h
    case h_1 => cases h
    case h_2 receipt held =>
      obtain ⟨receipt', decoded_receipt, h⟩ := of_bind h
      obtain ⟨same, h⟩ := of_refuse h
      obtain ⟨outcome, decoded_outcome, h⟩ := of_bind h
      cases h
      obtain ⟨-, read⟩ := of_refuse decoded_receipt
      cases read
      simp only [Bool.or_eq_false_iff, bne_eq_false_iff_eq] at same
      exact .inl ⟨row, _, ⟨loaded.mem, named, hashed.trans guards.2, settled, held, same.1.1, same.1.2,
        ⟨(snapshot_ok decoded).1, decodeOutcome_ok decoded_outcome⟩, rfl⟩, rfl⟩

theorem complete_ok {out : Outcome} {ch : Change Outcome} (h : complete c env s ctx receipt out = .ok ch) :
    (∃ row ∈ s.continuations, row.id = receipt.id ∧ row.receipt.map (·.plain) = some receipt ∧
      row.outcome.map (·.plain) = some out ∧ ch = .answer out) ∨
      ∃ row r sealed s₁ s', CompleteWrite c env s ctx receipt out row r sealed s₁ s' ∧ ch = .commit s' out := by
  obtain ⟨⟨⟩, checked, h⟩ := of_bind h
  obtain ⟨r, loading, h⟩ := of_bind h
  obtain ⟨guards, h⟩ := of_refuse h
  obtain ⟨row, named, loaded⟩ := load_ok loading
  obtain rfl := openRow_ok loaded.opened
  simp only [Bool.or_eq_false_iff, beq_eq_false_iff_ne, bne_eq_false_iff_eq] at guards
  obtain ⟨settled, held⟩ := guards
  split at h
  case isTrue done =>
    obtain ⟨same, h⟩ := of_refuse h
    cases h
    exact .inl ⟨row, loaded.mem, named, held, bne_eq_false_iff_eq.1 same, rfl⟩
  case isFalse open_ =>
    obtain ⟨sealed, sealing, h⟩ := of_bind h
    obtain ⟨s₁, charged, h⟩ := of_bind h
    obtain ⟨s', updated, h⟩ := of_bind h
    cases h
    have claimed : row.state = .claimed := by
      cases state : row.state with
      | pending => exact absurd state settled
      | claimed => rfl
      | complete => exact absurd state open_
    exact .inr ⟨row, _, sealed, s₁, s', ⟨checked, named, loaded, claimed, held, sealing, charged, updated⟩, rfl⟩

theorem acknowledge_ok {revision : Nat} {ch : Change Unit}
    (h : acknowledgePrivateNotification c env s ctx token revision = .ok ch) :
    ∃ s', Wrote c s ⟨.acknowledgePrivateNotification ctx token revision, env⟩ s' ∧ ch = .commit s' () := by
  obtain ⟨⟨id, hash⟩, parsed, rest⟩ := of_bind h
  obtain ⟨t, rfl, -⟩ := parseToken_ok parsed
  obtain ⟨-, h⟩ := of_refuse rest
  obtain ⟨r, -, h⟩ := of_bind h
  have h := past_refuse h
  have h := past_refuse h
  have h := past_refuse h
  cases h
  exact ⟨_, .acknowledged _, rfl⟩

/-! ## Steps -/

theorem finish_store {α : Type} (env : Env) (s : Store) (result : Except Error (Change α)) :
    (finish env s result).1 = s ∨ ∃ s' a, result = .ok (.commit s' a) ∧ (finish env s result).1 = s' := by
  unfold finish
  obtain same | ⟨s', a, computed, written, -⟩ := env.commit.conclude_state Error.internal s result
  · exact .inl same
  · exact .inr ⟨s', a, computed, written⟩

theorem transact_store {α : Type} (p : System) (env : Env) (result : Except Error (Change α)) (answer : α → Answer) :
    (p.transact env result answer).1.store = p.store ∨
      ∃ s' a, result = .ok (.commit s' a) ∧ (p.transact env result answer).1.store = s' := by
  unfold System.transact
  split
  · exact .inl rfl
  · exact finish_store env p.store result

theorem consume_ok {p p' : System} {i handle : Nat}
    (h : p.consume c i handle ctx receipt = .ok (p', v)) :
    ∃ claim, p.claims[i]? = some claim ∧ claim.used = false ∧ claim.receipt = receipt ∧
      p' = { p with claims := p.claims.set i { claim with used := true } } := by
  unfold System.consume at h
  split at h
  case h_1 => cases h
  case h_2 claim found =>
    obtain ⟨guards, h⟩ := of_refuse h
    obtain ⟨same, h⟩ := of_refuse h
    have h := past_refuse h
    obtain ⟨r, -, h⟩ := of_bind h
    have h := past_refuse h
    obtain ⟨v', -, h⟩ := of_bind h
    cases h
    simp only [Bool.or_eq_false_iff] at guards
    exact ⟨claim, found, guards.1.1.1.1.1, (bne_eq_false_iff_eq.1 same).symm, rfl⟩

/-- A step leaves the database as it is or commits what its call writes. -/
theorem step_wrote (c : Config) (p : System) (call : Call) :
    (step c p call).1.store = p.store ∨ Wrote c p.store call (step c p call).1.store := by
  obtain ⟨op, env⟩ := call
  unfold step
  cases op with
  | create ctx v expires =>
    rcases transact_store p env (create c env p.store ctx v expires) .issued with same | ⟨s', a, result, store⟩
    · exact .inl same
    · rcases create_ok result with ⟨issued, answer, -⟩ | ⟨token, sealed, s₁, s₂, s'', write, commit⟩
      · cases answer
      · cases commit
        exact .inr (store ▸ .created write)
  | rotatePendingCapability ctx id expected =>
    rcases transact_store p env (rotatePendingCapability c env p.store ctx id expected) .issued with
      same | ⟨s', a, result, store⟩
    · exact .inl same
    · obtain ⟨row, r, v, token, s₁, s'', write, commit⟩ := rotate_ok result
      cases commit
      exact .inr (store ▸ .rotated write)
  | claim ctx token claimID =>
    dsimp only
    unfold System.claim
    split
    · exact .inl rfl
    · rcases finish_store env p.store (claim c env p.store ctx token claimID) with same | ⟨s', a, result, store⟩
      · exact .inl same
      · obtain ⟨t, rfl, ⟨row, again, -, answer⟩ | ⟨row, r, v, receipt, sealed, s₁, s'', write, commit⟩⟩ := claim_ok result
        · cases answer
        · cases commit
          exact .inr (store ▸ .claimed write)
  | consume i handle ctx receipt =>
    dsimp only
    split
    case h_1 p' v consumed =>
      obtain ⟨claim, -, -, -, rfl⟩ := consume_ok consumed
      exact .inl rfl
    case h_2 => exact .inl rfl
  | complete ctx receipt out =>
    rcases transact_store p env (complete c env p.store ctx receipt out) .completed with same | ⟨s', a, result, store⟩
    · exact .inl same
    · rcases complete_ok result with ⟨row, -, -, -, -, answer⟩ | ⟨row, r, sealed, s₁, s'', write, commit⟩
      · cases answer
      · cases commit
        exact .inr (store ▸ .completed write)
  | acknowledgePrivateNotification ctx token revision =>
    rcases transact_store p env (acknowledgePrivateNotification c env p.store ctx token revision) (fun _ => .done) with
      same | ⟨s', a, result, store⟩
    · exact .inl same
    · obtain ⟨s'', wrote, commit⟩ := acknowledge_ok result
      cases commit
      exact .inr (store ▸ wrote)
  | reopen => exact .inl rfl

end Pagnet.Continuation
