import Pagnet.Continuation.Documents
import Pagnet.Continuation.Once

/-!
# What every database of the store holds

Each row passes the opener's checks, each notification is one of its row's
capability for one of its principals, and the budget counts them. A transaction
keeps all of it, provided a new snapshot is within the limits that it will be
read back with.
-/

namespace Pagnet.Continuation
open Json List Pagnet.Relation

variable {c : Config} {env : Env} {s s' : Store}

/-- What a row holds, opened. -/
def Row.contents (row : Row) : Opened :=
  ⟨row.snapshot.plain, row.digest, row.expires, row.hash, row.revision, row.state, row.receipt.map (·.plain),
    row.outcome.map (·.plain)⟩

/-- A row that the opener accepts. -/
structure RowOk (c : Config) (row : Row) : Prop where
  sealed : openBlob row.snapshot "snapshot" row.id snapshotSize c.options.maxSnapshotBytes = .ok row.snapshot.plain
  digest : row.digest = c.digest row.snapshot.plain.toJson.render
  receipt : openOption row.receipt "receipt" row.id receiptSize maxReceiptBytes = .ok (row.receipt.map (·.plain))
  outcome : openOption row.outcome "outcome" row.id outcomeSize c.options.maxOutcomeBytes =
    .ok (row.outcome.map (·.plain))
  decoded : snapshot c row.snapshot.plain = .ok row.snapshot.plain
  named : row.snapshot.plain.deferralID = row.id
  hex : hexID row.id
  parsed : row.expires.encodable
  nonzero : row.expires.isZero = false
  utc : row.expires.utc = row.expires
  revision : 1 ≤ row.revision
  state : verifyState c row.id row.contents row.snapshot.plain row.expires
  small : oversized c row = false

/-- A notification of a row's capability. -/
structure NoteFor (c : Config) (row : Row) (n : Notification) : Prop where
  id : n.id = row.id
  revision : n.revision = row.revision
  recipient : ∃ p ∈ row.snapshot.plain.allowedResumePrincipals, n.recipient = notificationRecipient c p ∧
    n.payload.plain.recipient = p
  format : n.payload.plain.format = 1
  named : n.payload.plain.id = n.id
  revised : (n.payload.plain.revision : Int) = n.revision
  expiry : n.payload.plain.expiry = row.expires
  token : n.payload.plain.token.id = n.id ∧ c.sha256 (List.ofFn n.payload.plain.token.secret) = row.hash
  opened : openBlob n.payload (notificationPurpose n.recipient n.revision) n.id notificationSize maxNotificationBytes =
    .ok n.payload.plain

def noteBytes (n : Notification) : Int := n.payload.length

def principalCount (row : Row) : Int := row.snapshot.plain.allowedResumePrincipals.length

/-- A database that the opener accepts. -/
structure Store.Sound (c : Config) (s : Store) : Prop where
  rows : ∀ row ∈ s.continuations, RowOk c row
  notes : ∀ n ∈ s.notifications, ∃ row ∈ s.continuations, NoteFor c row n
  cover : ∀ row ∈ s.continuations, ∀ p ∈ row.snapshot.plain.allowedResumePrincipals,
    ∃ n ∈ s.notifications, n.id = row.id ∧ n.recipient = notificationRecipient c p
  records : s.records = s.continuations.total fun _ => 1
  bytes : s.bytes = s.continuations.total rowBytes + s.notifications.total noteBytes
  count : (s.notifications.total fun _ => 1) = s.continuations.total principalCount
  maxRecords : s.records ≤ c.options.maxRecords
  maxBytes : s.bytes ≤ c.options.maxBytes

theorem sound_initial (valid : c.options.Valid) : Store.initial.Sound c where
  rows _ mem := absurd mem (not_mem_empty _)
  notes _ mem := absurd mem (not_mem_empty _)
  cover _ mem := absurd mem (not_mem_empty _)
  records := rfl
  bytes := rfl
  count := rfl
  maxRecords := valid.records.le
  maxBytes := valid.bytes.le

/-! ## Notifications -/

/-- A notification as `writeNotification` makes it. -/
structure Written (c : Config) (v : Snapshot) (token : Token) (revision : Nat) (expiry : Timestamp) (p : Principal)
    (n : Notification) : Prop where
  id : n.id = v.deferralID
  recipient : n.recipient = notificationRecipient c p
  revised : n.revision = revision
  plain : n.payload.plain = ⟨1, v.deferralID, p, revision, expiry, token⟩
  opened : openBlob n.payload (notificationPurpose n.recipient n.revision) n.id notificationSize maxNotificationBytes =
    .ok n.payload.plain

/-- What writing the notifications of a list of principals does. -/
structure Notified (c : Config) (v : Snapshot) (token : Token) (revision : Nat) (expiry : Timestamp)
    (principals : List Principal) (s s' : Store) : Prop where
  continuations : s'.continuations = s.continuations
  records : s'.records = s.records
  bytes : s'.bytes - s'.notifications.total noteBytes = s.bytes - s.notifications.total noteBytes
  bound : s.bytes ≤ c.options.maxBytes → s'.bytes ≤ c.options.maxBytes
  notes : ∀ n ∈ s'.notifications, (∃ p ∈ principals, Written c v token revision expiry p n) ∨
    n ∈ s.notifications ∧ ∀ p ∈ principals, (n.id, n.recipient) ≠ (v.deferralID, notificationRecipient c p)
  kept : ∀ n ∈ s.notifications, ∃ n' ∈ s'.notifications, n'.id = n.id ∧ n'.recipient = n.recipient
  cover : ∀ p ∈ principals, ∃ n ∈ s'.notifications, n.id = v.deferralID ∧ n.recipient = notificationRecipient c p
  /-- Notifications that are there already are replaced. -/
  replaced : (∀ p ∈ principals, ∃ n ∈ s.notifications, n.id = v.deferralID ∧ n.recipient = notificationRecipient c p) →
    (s'.notifications.total fun _ => 1) = s.notifications.total fun _ => 1
  /-- Those of a new continuation are added. -/
  added : (principals.map (notificationRecipient c)).Nodup →
    (∀ p ∈ principals, ∀ n ∈ s.notifications, (n.id, n.recipient) ≠ (v.deferralID, notificationRecipient c p)) →
    (s'.notifications.total fun _ => 1) = (s.notifications.total fun _ => 1) + principals.length

variable {v : Snapshot} {token : Token} {revision : Nat} {expiry : Timestamp}

variable {p : Principal} {ctx : ExecutionContext} {expires : Timestamp} {sealed : Sealed Snapshot}
    {s₁ s₂ : Store} {row : Row} {r : Opened} {receipt : Receipt} {out : Outcome} {n : Notification}

/-- One notification, whatever is behind it. -/
theorem writeNotification_turn (h : writeNotification c env v token revision expiry s p = .ok s') :
    ∃ n, Written c v token revision expiry p n ∧ s'.notifications = s.notifications.upsert n ∧
      s'.continuations = s.continuations ∧ s'.records = s.records ∧
      s'.bytes = s.bytes + (noteBytes n - ((s.notifications.find? (n.id, n.recipient)).map noteBytes).getD 0) ∧
      s'.bytes ≤ c.options.maxBytes := by
  obtain ⟨n, id, recipient, revision_is, -, size, positive, bound, purpose, payload_id, plain, room, rfl⟩ :=
    writeNotification_ok h
  refine ⟨n, ⟨id, recipient, revision_is, plain, openBlob_ok.2 ⟨positive, bound, ?_, ?_, ?_, rfl⟩⟩, rfl, rfl, rfl, rfl, room⟩
  · rw [purpose, recipient, revision_is]
  · rw [payload_id, id]
  · rw [plain]
    exact size

theorem writeNotifications_notified {principals : List Principal}
    (h : principals.foldlM (writeNotification c env v token revision expiry) s = .ok s') :
    Notified c v token revision expiry principals s s' := by
  induction principals generalizing s with
  | nil =>
    cases h
    exact ⟨rfl, rfl, rfl, fun le => le, fun n mem => .inr ⟨mem, nofun⟩,
      fun n mem => ⟨n, mem, rfl, rfl⟩, nofun, fun _ => rfl, fun _ _ => by simp⟩
  | cons p rest ih =>
    obtain ⟨s₁, turn, h⟩ := of_bind h
    obtain ⟨n₀, written, notes, continuations, records, bytes, room⟩ := writeNotification_turn turn
    have tail := ih h
    -- What the first turn does to the table of notifications.
    have mem_notes : ∀ n, n ∈ s₁.notifications ↔
        n = n₀ ∨ n ∈ s.notifications ∧ (n.id, n.recipient) ≠ (n₀.id, n₀.recipient) := by
      intro n
      rw [notes]
      exact mem_upsert
    have key : (n₀.id, n₀.recipient) = (v.deferralID, notificationRecipient c p) := by
      rw [written.id, written.recipient]
    have stays : ∀ n ∈ s.notifications, ∃ n' ∈ s₁.notifications, n'.id = n.id ∧ n'.recipient = n.recipient := by
      intro n mem
      by_cases same : (n.id, n.recipient) = (n₀.id, n₀.recipient)
      · rw [Prod.mk.injEq] at same
        exact ⟨n₀, (mem_notes n₀).2 (.inl rfl), same.1.symm, same.2.symm⟩
      · exact ⟨n, (mem_notes n).2 (.inr ⟨mem, same⟩), rfl, rfl⟩
    refine ⟨tail.continuations.trans continuations, tail.records.trans records, ?_, fun _ => tail.bound room, ?_, ?_, ?_, ?_,
      ?_⟩
    · rw [tail.bytes, bytes, notes, total_upsert]
      ring
    · intro n mem
      rcases tail.notes n mem with ⟨q, inside, is_new⟩ | ⟨earlier, others⟩
      · exact .inl ⟨q, mem_cons_of_mem _ inside, is_new⟩
      · rcases (mem_notes n).1 earlier with rfl | ⟨old, differs⟩
        · exact .inl ⟨p, mem_cons_self, written⟩
        · refine .inr ⟨old, fun q inside => ?_⟩
          rcases mem_cons.1 inside with rfl | inside
          · rwa [← key]
          · exact others q inside
    · intro n mem
      obtain ⟨n₁, mem₁, id₁, recipient₁⟩ := stays n mem
      obtain ⟨n₂, mem₂, id₂, recipient₂⟩ := tail.kept n₁ mem₁
      exact ⟨n₂, mem₂, id₂.trans id₁, recipient₂.trans recipient₁⟩
    · intro q inside
      rcases mem_cons.1 inside with rfl | inside
      · obtain ⟨n, mem, id, recipient⟩ := tail.kept n₀ ((mem_notes n₀).2 (.inl rfl))
        exact ⟨n, mem, id.trans written.id, recipient.trans written.recipient⟩
      · exact tail.cover q inside
    · intro present
      obtain ⟨n, mem, id, recipient⟩ := present p mem_cons_self
      have found : s.notifications.find? (n₀.id, n₀.recipient) = some n :=
        find?_eq_some.2 ⟨mem, by rw [id, recipient, written.id, written.recipient]⟩
      have same : (s₁.notifications.total fun _ => 1) = s.notifications.total fun _ => 1 := by
        rw [notes, total_upsert, found]
        simp
      rw [tail.replaced fun q inside => ?_, same]
      obtain ⟨m, mem_m, id_m, recipient_m⟩ := present q (mem_cons_of_mem _ inside)
      obtain ⟨m', mem_m', id', recipient'⟩ := stays m mem_m
      exact ⟨m', mem_m', id'.trans id_m, recipient'.trans recipient_m⟩
    · intro distinct fresh
      obtain ⟨first, distinct⟩ := nodup_cons.1 distinct
      have missing : s.notifications.find? (n₀.id, n₀.recipient) = none :=
        Relation.find?_eq_none.2 fun n mem => key ▸ fresh p mem_cons_self n mem
      have one_more : (s₁.notifications.total fun _ => 1) = (s.notifications.total fun _ => 1) + 1 := by
        rw [notes, total_upsert, missing]
        simp
      have fresh' : ∀ q ∈ rest, ∀ n ∈ s₁.notifications,
          (n.id, n.recipient) ≠ (v.deferralID, notificationRecipient c q) := by
        intro q inside n mem
        rcases (mem_notes n).1 mem with rfl | ⟨old, -⟩
        · rw [key]
          intro same
          rw [Prod.mk.injEq] at same
          exact first (mem_map.2 ⟨q, inside, same.2.symm⟩)
        · exact fresh q (mem_cons_of_mem _ inside) n old
      rw [tail.added distinct fresh', one_more, length_cons]
      push_cast
      ring

/-! ## Rows -/

/-- What a new continuation must have room for, where it is read back. -/
structure Admits (c : Config) (v : Snapshot) (expires : Timestamp) : Prop where
  depth : 3 ≤ c.options.maxJSONDepth
  members : (v.memberCount : Int) ≤ c.options.maxJSONMembers
  expiry : expires.utc.encodable
  recipients : (v.allowedResumePrincipals.map (notificationRecipient c)).Nodup

theorem checkCreate_ok (h : checkCreate c ctx v = .ok ()) :
    validateSnapshot c v = .ok () ∧ snapshotSize v ≤ c.options.maxSnapshotBytes := by
  obtain ⟨⟨⟩, -, h⟩ := of_bind h
  have h := past_refuse h
  have h := past_refuse h
  have h := past_refuse h
  obtain ⟨⟨⟩, checked, h⟩ := of_bind h
  rw [refuse_eq_ok, decide_eq_false_iff_not, not_lt] at h
  exact ⟨checked, h⟩

theorem validateSnapshot_hex (h : validateSnapshot c v = .ok ()) : hexID v.deferralID := by
  obtain ⟨fields, -⟩ := of_refuse h
  simp only [Bool.or_eq_false_iff, Bool.not_eq_false'] at fields
  exact fields.1.1.1.1.1.1.1.2

theorem rowOk_new (valid : c.options.Valid)
    (write : CreateWrite c env s ctx v expires token sealed s₁ s₂ s') (admits : Admits c v expires) :
    RowOk c (newRow c v sealed expires token) := by
  obtain ⟨checked, size⟩ := checkCreate_ok write.checked
  obtain ⟨-, positive, bound, purpose, id, plain⟩ := sealBlob_ok write.sealing
  have fits : sealed.length ≤ c.options.maxSnapshotBytes + maxSealOverhead := by omega
  refine ⟨openBlob_ok.2 ⟨positive, fits, purpose, id, ?_, rfl⟩, ?_, rfl, rfl, ?_, ?_, ?_, admits.expiry, write.nonzero, rfl,
    le_refl 1, rfl, ?_⟩
  · change snapshotSize sealed.plain ≤ _
    rw [plain]
    exact size
  · change c.digest v.toJson.render = c.digest sealed.plain.toJson.render
    rw [plain]
  · change snapshot c sealed.plain = .ok sealed.plain
    rw [plain]
    exact snapshot_decodes valid checked size admits.depth admits.members
  · change sealed.plain.deferralID = v.deferralID
    rw [plain]
  · exact validateSnapshot_hex checked
  · simpa [oversized, newRow] using fits

theorem verifyState_pending {expiry : Timestamp} (pending : row.state = .pending)
    (h : verifyState c row.id row.contents v expiry) : row.receipt = none ∧ row.outcome = none := by
  unfold verifyState Row.contents at h
  rw [pending] at h
  cases receipt : row.receipt with
  | some r =>
    rw [receipt] at h
    cases h
  | none =>
    cases outcome : row.outcome with
    | some o =>
      rw [receipt, outcome] at h
      cases h
    | none => exact ⟨rfl, rfl⟩

theorem verifyState_claimed {expiry : Timestamp} (claimed : row.state = .claimed)
    (h : verifyState c row.id row.contents v expiry) : row.outcome = none ∧
      ∃ sealed, row.receipt = some sealed ∧ validReceipt c row.id row.contents v expiry sealed.plain ∧
        sealed.plain.encodable := by
  unfold verifyState at h
  cases receipt : row.receipt with
  | none => simp [Row.contents, claimed, receipt] at h
  | some sealed =>
    cases outcome : row.outcome with
    | some o => simp [Row.contents, claimed, receipt, outcome] at h
    | none =>
      simp only [Row.contents, claimed, receipt, outcome, Option.map_some, Option.map_none, Bool.and_eq_true] at h
      refine ⟨rfl, sealed, rfl, ?_, h.2⟩
      simpa [validReceipt, Row.contents, claimed, receipt, outcome] using h.1

/-- A pending row with another capability. -/
theorem rowOk_rotated (ok : RowOk c row) (pending : row.state = .pending) (hash : Bytes32) :
    RowOk c { row with hash := hash, revision := row.revision + 1 } := by
  obtain ⟨receipt, outcome⟩ := verifyState_pending pending ok.state
  have revision := ok.revision
  have small := ok.small
  refine ⟨ok.sealed, ok.digest, ok.receipt, ok.outcome, ok.decoded, ok.named, ok.hex, ok.parsed, ok.nonzero, ok.utc, ?_, ?_,
    ?_⟩
  · dsimp only
    omega
  · simp [verifyState, Row.contents, pending, receipt, outcome]
  · simp only [oversized, Bool.or_eq_false_iff, decide_eq_false_iff_not] at small ⊢
    exact ⟨small.1, by omega⟩

theorem rowOk_claimed {claimID : String}
    {sealed : Sealed Receipt} (ok : RowOk c row)
    (write : ClaimWrite c env s ctx token claimID row r v receipt sealed s₁ s') :
    RowOk c { row with state := .claimed, receipt := some sealed } := by
  obtain ⟨-, outcome⟩ := verifyState_pending write.pending ok.state
  obtain ⟨size, positive, bound, purpose, id, plain⟩ := sealBlob_ok write.sealing
  have fits : sealed.length ≤ maxReceiptBytes + maxSealOverhead := by omega
  have small := ok.small
  have revision := ok.revision
  have opened : openBlob sealed "receipt" row.id receiptSize maxReceiptBytes = .ok sealed.plain :=
    openBlob_ok.2 ⟨positive, fits, purpose, id.trans write.named.symm, by rw [plain]; exact size, rfl⟩
  have stored : v = row.snapshot.plain := by
    have decoded := (snapshot_ok write.acts.decoded).1
    rw [openRow_ok write.acts.loaded.opened] at decoded
    exact decoded
  obtain ⟨expiry, parsed, later⟩ := write.unexpired
  rw [parseTime, if_pos ok.parsed] at parsed
  cases parsed
  have nonzero : (clock env.now).isZero = false := by
    simp only [clock, Timestamp.isZero, unixEpoch, beq_eq_false_iff_ne]
    omega
  refine ⟨ok.sealed, ok.digest, ?_, ok.outcome, ok.decoded, ok.named, ok.hex, ok.parsed, ok.nonzero, ok.utc, ok.revision, ?_,
    ?_⟩
  · change (openBlob sealed "receipt" row.id receiptSize maxReceiptBytes).map some = _
    rw [opened]
    rfl
  · have revised : ((row.revision.toNat : Nat) : Int) = row.revision := Int.toNat_of_nonneg (by omega)
    have decodes := decodes_plain (by decide) size receipt.shape.1.le receipt.shape.2.1.le receipt.shape.2.2
    have encodable := write.encodable
    have allowed := write.acts.allowed
    simp only [verifyState, Row.contents, Option.map_some, outcome, Option.map_none, Bool.and_eq_true]
    rw [plain]
    refine ⟨?_, encodable⟩
    rw [write.receipt_is] at decodes ⊢
    subst stored
    simp [validReceipt, decodes, write.named, write.identity, allowed, revised, nonzero, later]
  · simp only [oversized, Bool.or_eq_false_iff, decide_eq_false_iff_not, Option.any_some, not_lt] at small ⊢
    exact ⟨⟨⟨small.1.1.1, fits⟩, small.1.2⟩, small.2⟩

theorem checkComplete_ok (h : checkComplete c ctx receipt out = .ok ()) : validOutcome c out := by
  obtain ⟨⟨⟩, -, h⟩ := of_bind h
  have h := past_refuse h
  obtain ⟨effect, h⟩ := of_refuse h
  obtain ⟨decodes, -⟩ := of_refuse h
  rw [validOutcome, not_eq_false_iff.1 decodes, Bool.and_true, bne, effect]
  rfl

theorem rowOk_completed (valid : c.options.Valid) {sealed : Sealed Outcome} (ok : RowOk c row)
    (write : CompleteWrite c env s ctx receipt out row r sealed s₁ s') :
    RowOk c { row with state := .complete, outcome := some sealed } := by
  obtain ⟨-, held, is_held, valid_receipt, encodable⟩ := verifyState_claimed write.claimed ok.state
  obtain ⟨size, positive, bound, purpose, id, plain⟩ := sealBlob_ok write.sealing
  have fits : sealed.length ≤ c.options.maxOutcomeBytes + maxSealOverhead := by omega
  have small := ok.small
  have opened : openBlob sealed "outcome" row.id outcomeSize c.options.maxOutcomeBytes = .ok sealed.plain :=
    openBlob_ok.2 ⟨positive, fits, purpose, id.trans write.named.symm, by rw [plain]; exact size, rfl⟩
  refine ⟨ok.sealed, ok.digest, ok.receipt, ?_, ok.decoded, ok.named, ok.hex, ok.parsed, ok.nonzero, ok.utc, ok.revision, ?_,
    ?_⟩
  · change (openBlob sealed "outcome" row.id outcomeSize c.options.maxOutcomeBytes).map some = _
    rw [opened]
    rfl
  · simp only [verifyState, Row.contents, is_held, Option.map_some, Bool.and_eq_true]
    rw [plain]
    exact ⟨⟨⟨valid_receipt, encodable⟩, decodes_outcome valid size⟩, checkComplete_ok write.checked⟩
  · simp only [oversized, Bool.or_eq_false_iff, decide_eq_false_iff_not, Option.any_some, not_lt] at small ⊢
    exact ⟨⟨small.1.1, fits⟩, small.2⟩

/-! ## Databases -/

/-- What a written notification says of its row. -/
theorem Written.noteFor (written : Written c v token revision expiry p n)
    (id : row.id = v.deferralID) (revised : row.revision = revision) (expires : row.expires = expiry)
    (listed : p ∈ row.snapshot.plain.allowedResumePrincipals) (named : token.id = v.deferralID)
    (hash : c.sha256 (List.ofFn token.secret) = row.hash) : NoteFor c row n where
  id := written.id.trans id.symm
  revision := written.revised.trans revised.symm
  recipient := ⟨p, listed, written.recipient, by rw [written.plain]⟩
  format := by rw [written.plain]
  named := by rw [written.plain, written.id]
  revised := by rw [written.plain, written.revised]
  expiry := by rw [written.plain, expires]
  token := by
    rw [written.plain, written.id]
    exact ⟨named, hash⟩
  opened := written.opened

/-- The facts of a row that its notifications repeat. -/
theorem NoteFor.of_same {row' : Row} (note : NoteFor c row n) (id : row'.id = row.id)
    (snapshot : row'.snapshot = row.snapshot) (revision : row'.revision = row.revision)
    (expires : row'.expires = row.expires) (hash : row'.hash = row.hash) : NoteFor c row' n where
  id := note.id.trans id.symm
  revision := note.revision.trans revision.symm
  recipient := snapshot ▸ note.recipient
  format := note.format
  named := note.named
  revised := note.revised
  expiry := note.expiry.trans expires.symm
  token := hash ▸ note.token
  opened := note.opened

theorem Store.Sound.create (valid : c.options.Valid) (sound : s.Sound c)
    (write : CreateWrite c env s ctx v expires token sealed s₁ s₂ s') (admits : Admits c v expires) : s'.Sound c := by
  have ok := rowOk_new valid write admits
  have plain : sealed.plain = v := (sealBlob_ok write.sealing).2.2.2.2.2
  obtain ⟨records, bytes, rfl⟩ := charge_ok write.charged
  obtain ⟨table, inserted, rfl⟩ := insertRow_ok write.inserted
  have notified := writeNotifications_notified write.notified
  have rows : s'.continuations = table := notified.continuations
  have unknown : ∀ n ∈ s.notifications, n.id ≠ v.deferralID := by
    intro n mem same
    obtain ⟨row, inside, note⟩ := sound.notes n mem
    exact Relation.find?_eq_none.1 write.fresh row inside (note.id.symm.trans same)
  have listed : (newRow c v sealed expires token).snapshot.plain.allowedResumePrincipals = v.allowedResumePrincipals := by
    change sealed.plain.allowedResumePrincipals = _
    rw [plain]
  refine ⟨fun row mem => ?_, fun n mem => ?_, fun row mem p inside => ?_, ?_, ?_, ?_, ?_, ?_⟩
  · rw [rows] at mem
    rcases (mem_insert inserted).1 mem with old | rfl
    · exact sound.rows row old
    · exact ok
  · rw [rows]
    rcases notified.notes n mem with ⟨p, inside, written⟩ | ⟨old, -⟩
    · refine ⟨newRow c v sealed expires token, (mem_insert inserted).2 (.inr rfl), ?_⟩
      exact written.noteFor rfl rfl rfl (listed.symm ▸ inside) (mint_ok write.minted).1 rfl
    · obtain ⟨row, inside, note⟩ := sound.notes n old
      exact ⟨row, (mem_insert inserted).2 (.inl inside), note⟩
  · rw [rows] at mem
    rcases (mem_insert inserted).1 mem with old | rfl
    · obtain ⟨n, mem_n, id, recipient⟩ := sound.cover row old p inside
      obtain ⟨n', mem_n', id', recipient'⟩ := notified.kept n mem_n
      exact ⟨n', mem_n', id'.trans id, recipient'.trans recipient⟩
    · exact notified.cover p (listed ▸ inside)
  · rw [notified.records, rows, total_insert inserted]
    exact congrArg (· + 1) sound.records
  · have budget := notified.bytes
    have before := sound.bytes
    have weight : rowBytes (newRow c v sealed expires token) = sealed.length := by simp [rowBytes, newRow]
    rw [rows, total_insert inserted, weight]
    linarith
  · have distinct := notified.added admits.recipients fun p _ n mem same => unknown n mem (Prod.mk.inj same).1
    have weight : principalCount (newRow c v sealed expires token) = v.allowedResumePrincipals.length := by
      rw [principalCount, listed]
    rw [distinct, rows, total_insert inserted, weight]
    exact congrArg (· + (v.allowedResumePrincipals.length : Int)) sound.count
  · rw [notified.records]
    exact records
  · exact notified.bound bytes

theorem Store.Sound.rotate (sound : s.Sound c) {id : String} {expected : Nat}
    (write : RotateWrite c env s ctx id expected row r v token s₁ s') : s'.Sound c := by
  obtain ⟨-, rfl⟩ := updateRow_ok write.updated
  have mem_row := write.acts.loaded.mem
  have ok := sound.rows row mem_row
  have stored : v = row.snapshot.plain := by
    have decoded := (snapshot_ok write.acts.decoded).1
    rw [openRow_ok write.acts.loaded.opened] at decoded
    exact decoded
  subst stored
  have meets : isPending id row.revision row := by simp [isPending, write.named, write.pending]
  have only : ∀ x ∈ s.continuations, isPending id row.revision x → x.id = row.id := by
    intro x _ matched
    exact (isPending_eq matched).1.trans write.named.symm
  have notified := writeNotifications_notified write.notified
  generalize changed_is : ({ row with hash := c.sha256 (List.ofFn token.secret), revision := row.revision + 1 } : Row) =
    changed
  have ok' : RowOk c changed := changed_is ▸ rowOk_rotated ok write.pending _
  have id' : changed.id = row.id := by rw [← changed_is]
  have snapshot' : changed.snapshot = row.snapshot := by rw [← changed_is]
  have mem_rows : ∀ x, x ∈ s'.continuations ↔ x = changed ∨ x ∈ s.continuations ∧ x.id ≠ row.id := by
    intro x
    rw [notified.continuations, ← changed_is, mem_modify_one mem_row meets only]
  have total_rows : ∀ w : Row → Int, s'.continuations.total w = s.continuations.total w + (w changed - w row) := by
    intro w
    rw [notified.continuations, ← changed_is, total_modify_one mem_row meets only]
  have named : row.snapshot.plain.deferralID = row.id := ok.named
  refine ⟨fun x mem => ?_, fun n mem => ?_, fun x mem p inside => ?_, ?_, ?_, ?_, ?_, ?_⟩
  · rcases (mem_rows x).1 mem with rfl | ⟨old, -⟩
    · exact ok'
    · exact sound.rows x old
  · rcases notified.notes n mem with ⟨p, inside, written⟩ | ⟨old, others⟩
    · refine ⟨changed, (mem_rows _).2 (.inl rfl), ?_⟩
      refine written.noteFor (id'.trans named.symm) ?_ ?_ (snapshot' ▸ inside) ?_ ?_
      · rw [← changed_is]
        rw [write.revision]
        rfl
      · rw [← changed_is]
      · exact (mint_ok write.minted).1.trans (write.named.symm.trans named.symm)
      · rw [← changed_is]
    · obtain ⟨x, mem_x, note⟩ := sound.notes n old
      by_cases same : x.id = row.id
      · -- The old notifications of this row were all replaced.
        obtain rfl := eq_of_key mem_x mem_row same
        obtain ⟨p, inside, recipient, -⟩ := note.recipient
        exact absurd (by rw [note.id, recipient, named]) (others p inside)
      · exact ⟨x, (mem_rows x).2 (.inr ⟨mem_x, same⟩), note⟩
  · rcases (mem_rows x).1 mem with rfl | ⟨old, -⟩
    · obtain ⟨n, mem_n, id_n, recipient⟩ := notified.cover p (snapshot' ▸ inside)
      exact ⟨n, mem_n, id_n.trans (named.trans id'.symm), recipient⟩
    · obtain ⟨n, mem_n, id_n, recipient⟩ := sound.cover x old p inside
      obtain ⟨n', mem_n', id_n', recipient'⟩ := notified.kept n mem_n
      exact ⟨n', mem_n', id_n'.trans id_n, recipient'.trans recipient⟩
  · rw [notified.records, total_rows]
    simpa using sound.records
  · have budget := notified.bytes
    have before := sound.bytes
    have weight : rowBytes changed = rowBytes row := by rw [← changed_is]; rfl
    rw [total_rows, weight]
    linarith
  · have weight : principalCount changed = principalCount row := by rw [principalCount, snapshot']; rfl
    rw [total_rows, weight, sub_self, add_zero, ← sound.count]
    refine notified.replaced fun p inside => ?_
    obtain ⟨n, mem_n, id_n, recipient⟩ := sound.cover row mem_row p inside
    exact ⟨n, mem_n, id_n.trans named.symm, recipient⟩
  · rw [notified.records]
    exact sound.maxRecords
  · exact notified.bound sound.maxBytes

/-- A row that gets another column, which its notifications do not mention. -/
theorem Store.Sound.settle (sound : s.Sound c) (mem_row : row ∈ s.continuations) {p : Row → Bool}
    {f : Row → Row} (keeps : ∀ r, (f r).id = r.id) (meets : p row)
    (only : ∀ x ∈ s.continuations, p x → x.id = row.id) (ok : RowOk c (f row))
    (same : (f row).snapshot = row.snapshot ∧ (f row).revision = row.revision ∧ (f row).expires = row.expires ∧
      (f row).hash = row.hash) {k : Int} (weight : rowBytes (f row) = rowBytes row + k)
    (room : s.bytes + k ≤ c.options.maxBytes) :
    ({ s with continuations := s.continuations.modify p f keeps, bytes := s.bytes + k } : Store).Sound c := by
  obtain ⟨snapshot, revision, expires, hash⟩ := same
  have mem_rows : ∀ x, x ∈ s.continuations.modify p f keeps ↔ x = f row ∨ x ∈ s.continuations ∧ x.id ≠ row.id :=
    fun x => mem_modify_one mem_row meets only
  refine ⟨fun x mem => ?_, fun n mem => ?_, fun x mem q inside => ?_, ?_, ?_, ?_, sound.maxRecords, room⟩
  · rcases (mem_rows x).1 mem with rfl | ⟨old, -⟩
    · exact ok
    · exact sound.rows x old
  · obtain ⟨x, mem_x, note⟩ := sound.notes n mem
    by_cases is_row : x.id = row.id
    · obtain rfl := eq_of_key mem_x mem_row is_row
      exact ⟨f x, (mem_rows _).2 (.inl rfl), note.of_same (keeps x) snapshot revision expires hash⟩
    · exact ⟨x, (mem_rows x).2 (.inr ⟨mem_x, is_row⟩), note⟩
  · rcases (mem_rows x).1 mem with rfl | ⟨old, -⟩
    · obtain ⟨n, mem_n, id, recipient⟩ := sound.cover row mem_row q (snapshot ▸ inside)
      exact ⟨n, mem_n, id.trans (keeps row).symm, recipient⟩
    · exact sound.cover x old q inside
  · rw [total_modify_one mem_row meets only, sub_self, add_zero]
    exact sound.records
  · rw [total_modify_one mem_row meets only, weight, sound.bytes]
    ring
  · have count : principalCount (f row) = principalCount row := by rw [principalCount, snapshot]; rfl
    rw [total_modify_one mem_row meets only, count, sub_self, add_zero]
    exact sound.count

/-- Publication of a notification. -/
theorem Store.Sound.acknowledge (sound : s.Sound c) (p : Notification → Bool) : ({ s with
    notifications := s.notifications.modify p (fun n => { n with published := true }) fun _ => rfl } : Store).Sound c := by
  have weights : ∀ w : Notification → Int, (∀ n : Notification, w { n with published := true } = w n) →
      (s.notifications.modify p (fun n => { n with published := true }) fun _ => rfl).total w = s.notifications.total w := by
    intro w same
    rw [total_modify]
    refine total_congr fun n _ => ?_
    rw [same, ite_self]
  refine ⟨sound.rows, fun n mem => ?_, fun row mem q inside => ?_, sound.records, ?_, ?_, sound.maxRecords, sound.maxBytes⟩
  · rw [mem_modify] at mem
    obtain ⟨a, mem_a, rfl⟩ := mem
    obtain ⟨row, mem_row, note⟩ := sound.notes a mem_a
    refine ⟨row, mem_row, ?_⟩
    split
    · exact ⟨note.id, note.revision, note.recipient, note.format, note.named, note.revised, note.expiry, note.token,
        note.opened⟩
    · exact note
  · obtain ⟨n, mem_n, id, recipient⟩ := sound.cover row mem q inside
    refine ⟨if p n then { n with published := true } else n, ?_, ?_, ?_⟩
    · rw [mem_modify]
      exact ⟨n, mem_n, rfl⟩
    · split <;> exact id
    · split <;> exact recipient
  · rw [weights noteBytes fun _ => rfl]
    exact sound.bytes
  · rw [weights _ fun _ => rfl]
    exact sound.count

theorem Store.Sound.wrote (valid : c.options.Valid) (sound : s.Sound c) {call : Call} (wrote : Wrote c s call s')
    (admits : ∀ ctx v expires, call.op = .create ctx v expires → Admits c v expires) : s'.Sound c := by
  cases wrote with
  | created write => exact sound.create valid write (admits _ _ _ rfl)
  | rotated write => exact sound.rotate write
  | @claimed env ctx token claimID row r v receipt sealed s₁ s' write =>
    have mem := write.acts.loaded.mem
    have ok := sound.rows row mem
    obtain ⟨receipt_none, -⟩ := verifyState_pending write.pending ok.state
    obtain ⟨-, room, rfl⟩ := charge_ok write.charged
    obtain ⟨-, rfl⟩ := updateRow_ok write.updated
    have next := sound.settle (k := sealed.length) mem (p := isPending token.id row.revision)
      (f := fun row => { row with state := .claimed, receipt := some sealed }) (fun _ => rfl)
      (by simp [isPending, write.named, write.pending])
      (fun x _ matched => (isPending_eq matched).1.trans write.named.symm) (rowOk_claimed ok write) ⟨rfl, rfl, rfl, rfl⟩
      (by simp [rowBytes, receipt_none]; ring) room
    simpa using next
  | @completed env ctx receipt out row r sealed s₁ s' write =>
    have mem := write.loaded.mem
    have ok := sound.rows row mem
    obtain ⟨outcome_none, -⟩ := verifyState_claimed write.claimed ok.state
    obtain ⟨-, room, rfl⟩ := charge_ok write.charged
    obtain ⟨-, rfl⟩ := updateRow_ok write.updated
    have next := sound.settle (k := sealed.length) mem (p := fun row => row.id = receipt.id && row.state = .claimed)
      (f := fun row => { row with state := .complete, outcome := some sealed }) (fun _ => rfl)
      (by simp [write.named, write.claimed])
      (fun x _ matched => by
        simp only [Bool.and_eq_true, decide_eq_true_eq] at matched
        exact matched.1.trans write.named.symm) (rowOk_completed valid ok write) ⟨rfl, rfl, rfl, rfl⟩
      (by simp [rowBytes, outcome_none]) room
    simpa using next
  | acknowledged p => exact sound.acknowledge p

end Pagnet.Continuation
