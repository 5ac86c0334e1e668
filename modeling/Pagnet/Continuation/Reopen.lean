import Pagnet.Continuation.Sound

/-!
# The store opens what it wrote

`Store.verify` accepts every sound database, so a run whose new snapshots are
within the limits of the opener can be reopened in every state. Without that
condition it cannot: `Create` bounds the two documents inside a snapshot and not
the snapshot that is stored.
-/

namespace Pagnet.Continuation
open Json List

variable {c : Config} {s : Store}

/-! ## The opener's loops -/

variable {row : Row} {counted : Counted} {count total : Int}

theorem RowOk.rowBytes_nonneg (ok : RowOk c row) : 0 ≤ rowBytes row := by
  have snapshot := (openBlob_ok.1 ok.sealed).1
  have receipt := (openOption_ok ok.receipt).2
  have outcome := (openOption_ok ok.outcome).2
  unfold rowBytes
  omega

theorem RowOk.openRow (ok : RowOk c row) : openRow c row = .ok row.contents := by
  refine bind_eq_ok.2 ⟨_, ok.sealed, refuse_bind_eq_ok.2 ⟨?_, bind_eq_ok.2 ⟨_, ok.receipt, bind_eq_ok.2 ⟨_, ok.outcome, rfl⟩⟩⟩⟩
  rw [ok.digest, bne_self_eq_false]

theorem storedTime_of_encodable {t : Timestamp} (h : t.encodable) : storedTime t = .ok t := by
  unfold storedTime parseTime
  rw [if_pos h]

/-- A turn of the loop over the continuations. -/
theorem verifyRow_ok (ok : RowOk c row)
    (room : counted.total + rowBytes row ≤ c.options.maxBytes) (few : counted.count + 1 ≤ c.options.maxRecords) :
    verifyRow c counted row =
      .ok ⟨counted.count + 1, counted.total + rowBytes row, counted.notifications + principalCount row⟩ := by
  refine refuse_bind_eq_ok.2 ⟨?_, bind_eq_ok.2 ⟨row.contents, ok.openRow, refuse_bind_eq_ok.2 ⟨?_, bind_eq_ok.2
    ⟨row.snapshot.plain, ?_, refuse_bind_eq_ok.2 ⟨?_, bind_eq_ok.2 ⟨row.expires, ?_, refuse_bind_eq_ok.2 ⟨?_,
      refuse_bind_eq_ok.2 ⟨?_, rfl⟩⟩⟩⟩⟩⟩⟩⟩
  · simp only [Bool.or_eq_false_iff, decide_eq_false_iff_not, not_lt]
    constructor <;> omega
  · simp only [Bool.or_eq_false_iff, decide_eq_false_iff_not, not_lt, bne_eq_false_iff_eq]
    exact ⟨ok.revision, ok.digest⟩
  · change orInternal (snapshot c row.snapshot.plain) = _
    rw [ok.decoded]
    rfl
  · rw [bne_eq_false_iff_eq]
    exact ok.named
  · exact storedTime_of_encodable ok.parsed
  · rw [Bool.or_eq_false_iff, bne_eq_false_iff_eq]
    exact ⟨ok.nonzero, ok.utc⟩
  · rw [ok.state]
    rfl

theorem verifyRows_ok {rows : List Row} (ok : ∀ row ∈ rows, RowOk c row)
    (room : counted.total + (rows.map rowBytes).sum ≤ c.options.maxBytes)
    (few : counted.count + rows.length ≤ c.options.maxRecords) :
    rows.foldlM (verifyRow c) counted = .ok ⟨counted.count + rows.length, counted.total + (rows.map rowBytes).sum,
      counted.notifications + (rows.map principalCount).sum⟩ := by
  induction rows generalizing counted with
  | nil => simp [pure, Except.pure]
  | cons row rest ih =>
    have rest_ok : ∀ x ∈ rest, RowOk c x := fun x mem => ok x (mem_cons_of_mem _ mem)
    have positive : 0 ≤ (rest.map rowBytes).sum :=
      sum_nonneg (by simpa using fun x mem => (rest_ok x mem).rowBytes_nonneg)
    simp only [map_cons, sum_cons, length_cons, Nat.cast_add, Nat.cast_one] at room few ⊢
    rw [foldlM_cons, verifyRow_ok (ok row mem_cons_self) (by omega) (by omega), ok_bind,
      ih rest_ok (by dsimp only; omega) (by dsimp only; omega)]
    congr 2 <;> ring

/-- A turn of the loop over the notifications. -/
theorem verifyNotification_ok (sound : s.Sound c) {n : Notification} (mem : n ∈ s.notifications)
    (room : total + noteBytes n ≤ c.options.maxBytes) (few : count + 1 ≤ 64 * c.options.maxRecords) :
    verifyNotification c s (count, total) n = .ok (count + 1, total + noteBytes n) := by
  obtain ⟨row, mem_row, note⟩ := sound.notes n mem
  have ok := sound.rows row mem_row
  have found : s.continuations.find? n.id = some row := Relation.find?_eq_some.2 ⟨mem_row, note.id.symm⟩
  obtain ⟨p, -, recipient, is_recipient⟩ := note.recipient
  have decoded : decodeNotification c n = .ok n.payload.plain := by
    refine bind_eq_ok.2 ⟨_, note.opened, refuse_bind_eq_ok.2 ⟨?_, rfl⟩⟩
    have shape := n.payload.plain.shape
    rw [decodes_plain (by decide) (openBlob_ok.1 note.opened).2.2.2.2.1 shape.1.le (shape.2.1.le.trans (by decide)) shape.2.2,
      note.format, note.named, note.revised, is_recipient, recipient]
    simp
  have hex : hexID n.payload.plain.token.id := by
    rw [note.token.1, note.id]
    exact ok.hex
  have parsed : parseToken c (some n.payload.plain.token) = .ok (n.id, row.hash) := by
    refine refuse_bind_eq_ok.2 ⟨?_, ?_⟩
    · rw [hex]
      rfl
    · rw [note.token.1, note.token.2]
      rfl
  refine refuse_bind_eq_ok.2 ⟨?_, ?_⟩
  · simp only [Bool.or_eq_false_iff, decide_eq_false_iff_not, not_lt]
    unfold noteBytes at room
    constructor <;> omega
  rw [found]
  refine refuse_bind_eq_ok.2 ⟨?_, bind_eq_ok.2 ⟨_, decoded, refuse_bind_eq_ok.2 ⟨?_, bind_eq_ok.2
    ⟨(n.id, row.hash), ?_, refuse_bind_eq_ok.2 ⟨?_, rfl⟩⟩⟩⟩⟩
  · rw [note.revision, bne_self_eq_false]
  · rw [note.expiry, bne_self_eq_false]
  · rw [parsed]
    rfl
  · simp

theorem verifyNotifications_ok (sound : s.Sound c) {notes : List Notification} (listed : ∀ n ∈ notes, n ∈ s.notifications)
    (room : total + (notes.map noteBytes).sum ≤ c.options.maxBytes)
    (few : count + notes.length ≤ 64 * c.options.maxRecords) : notes.foldlM (verifyNotification c s) (count, total) =
      .ok (count + notes.length, total + (notes.map noteBytes).sum) := by
  induction notes generalizing count total with
  | nil => simp [pure, Except.pure]
  | cons n rest ih =>
    have rest_listed : ∀ x ∈ rest, x ∈ s.notifications := fun x mem => listed x (mem_cons_of_mem _ mem)
    have positive : 0 ≤ (rest.map noteBytes).sum := by
      refine sum_nonneg fun x inside => ?_
      obtain ⟨m, mem, rfl⟩ := mem_map.1 inside
      obtain ⟨row, -, note⟩ := sound.notes m (rest_listed m mem)
      exact (openBlob_ok.1 note.opened).1.le
    simp only [map_cons, sum_cons, length_cons, Nat.cast_add, Nat.cast_one] at room few ⊢
    rw [foldlM_cons, verifyNotification_ok sound (listed n mem_cons_self) (by omega) (by omega), ok_bind,
      ih rest_listed (by omega) (by omega)]
    congr 2 <;> ring

/-! ## The opener -/

theorem RowOk.few_principals (ok : RowOk c row) : principalCount row ≤ 64 := by
  obtain ⟨-, -, valid⟩ := snapshot_ok ok.decoded
  obtain ⟨fields, -⟩ := of_refuse valid
  simp only [Bool.or_eq_false_iff, decide_eq_false_iff_not, not_lt] at fields
  unfold principalCount
  omega

theorem total_one {α κ : Type} {key : α → κ} (t : Relation α κ key) : (t.total fun _ => 1) = t.rows.length := by
  simp [Relation.total]

theorem Store.Sound.few_notifications (sound : s.Sound c) : (s.notifications.rows.length : Int) ≤ 64 * s.records := by
  rw [← total_one, sound.count, sound.records, total_one]
  have sums : ∀ rows : List Row, (∀ row ∈ rows, RowOk c row) → (rows.map principalCount).sum ≤ 64 * (rows.length : Int) := by
    intro rows ok
    induction rows with
    | nil => exact le_refl 0
    | cons row rest ih =>
      have first := (ok row mem_cons_self).few_principals
      have others := ih fun x mem => ok x (mem_cons_of_mem _ mem)
      simp only [map_cons, sum_cons, length_cons, Nat.cast_add, Nat.cast_one]
      omega
  exact sums s.continuations.rows sound.rows

/-- The opener accepts every sound database. -/
theorem Store.Sound.verify (sound : s.Sound c) : verify c s = .ok () := by
  have bytes := sound.bytes
  have maxBytes := sound.maxBytes
  have maxRecords := sound.maxRecords
  have few := sound.few_notifications
  have records := sound.records
  have count := sound.count
  rw [total_one] at records count
  have notes_positive : 0 ≤ s.notifications.total noteBytes := Relation.total_nonneg fun n mem => by
    obtain ⟨row, -, note⟩ := sound.notes n mem
    exact (openBlob_ok.1 note.opened).1.le
  unfold Relation.total at bytes count notes_positive
  refine refuse_bind_eq_ok.2 ⟨?_, bind_eq_ok.2 ⟨_, verifyRows_ok sound.rows ?_ ?_, bind_eq_ok.2
    ⟨_, verifyNotifications_ok sound (fun _ mem => mem) ?_ ?_, refuse_bind_eq_ok.2 ⟨?_, ?_⟩⟩⟩⟩
  · rw [any_eq_false]
    intro row mem
    rw [(sound.rows row mem).small]
    exact Bool.false_ne_true
  · dsimp only
    omega
  · dsimp only
    omega
  · dsimp only
    omega
  · omega
  · dsimp only
    rw [bne_eq_false_iff_eq, zero_add, zero_add]
    exact count
  · simp only [refuse_eq_ok, Bool.or_eq_false_iff, bne_eq_false_iff_eq]
    constructor <;> omega

/-! ## Runs -/

/-- A call may create a continuation only if its snapshot is within the limits of the opener, its expiry is a time
that is read back, and the recipients of its notifications have different digests. -/
def Call.Admissible (c : Config) (p : System) (call : Call) : Prop :=
  ∀ ctx v expires, call.op = .create ctx v expires → p.store.continuations.find? v.deferralID = none → Admits c v expires

theorem step_sound (valid : c.options.Valid) {p : System} {call : Call} (sound : p.store.Sound c)
    (admissible : call.Admissible c p) : (step c p call).1.store.Sound c := by
  rcases step_wrote c p call with same | wrote
  · rw [same]
    exact sound
  · refine sound.wrote valid wrote fun ctx v expires op => admissible ctx v expires op ?_
    obtain ⟨_, env⟩ := call
    cases op
    cases wrote with
    | created write => exact write.fresh

/-- Exactly one notification for each principal of a row, of its current capability. -/
def Announced (c : Config) (s : Store) (row : Row) : Prop :=
  ∀ p ∈ row.snapshot.plain.allowedResumePrincipals, ∃ n ∈ s.notifications, n.recipient = notificationRecipient c p ∧
    NoteFor c row n ∧ ∀ n' ∈ s.notifications, n'.id = row.id → n'.recipient = notificationRecipient c p → n' = n

theorem Store.Sound.announced (sound : s.Sound c) (mem : row ∈ s.continuations) : Announced c s row := by
  intro p inside
  obtain ⟨n, mem_n, id, recipient⟩ := sound.cover row mem p inside
  obtain ⟨row', mem', note⟩ := sound.notes n mem_n
  obtain rfl := Relation.eq_of_key mem' mem (note.id.symm.trans id)
  refine ⟨n, mem_n, recipient, note, fun n' mem_n' id' recipient' => ?_⟩
  exact Relation.eq_of_key mem_n' mem_n (by rw [id, recipient, id', recipient'])

/-- Every state of a run whose creations are admissible can be reopened. -/
theorem reached_verifies {trace : List CallEvent} {p : System} (valid : c.options.validate = .ok ())
    (run : Reached c trace p) (admissible : ∀ e ∈ trace, e.input.Admissible c e.before) :
    verify c p.store = .ok () ∧ p.store.records = p.store.continuations.rows.length ∧
    p.store.bytes = p.store.continuations.total rowBytes + p.store.notifications.total noteBytes ∧
    (∀ n ∈ p.store.notifications, ∃ row ∈ p.store.continuations, NoteFor c row n) ∧
    ∀ row ∈ p.store.continuations, Announced c p.store row ∧ snapshot c row.snapshot.plain = .ok row.snapshot.plain := by
  have sound : p.store.Sound c := run.guarded (P := fun q : System => q.store.Sound c)
    (G := fun q call => call.Admissible c q) (sound_initial (Options.validate_ok valid))
    (fun q call sound admissible => step_sound (Options.validate_ok valid) sound admissible) admissible
  refine ⟨sound.verify, ?_, sound.bytes, sound.notes, fun row mem => ⟨sound.announced mem, (sound.rows row mem).decoded⟩⟩
  rw [← total_one]
  exact sound.records

theorem sample_admits : Admits sampleConfig sampleSnapshot sampleExpiry :=
  ⟨by decide, by decide, by decide +kernel, by decide +kernel⟩

theorem reached_verifies_sample :
    verify sampleConfig (finalState (step sampleConfig) System.initial sampleCalls).store = .ok () ∧
    (finalState (step sampleConfig) System.initial sampleCalls).store.continuations.rows.map (·.state) = [.complete] := by
  have valid : sampleConfig.options.validate = .ok () := by decide
  obtain ⟨verified, -⟩ := reached_verifies valid (Run.start.inputs sampleCalls) fun e mem ctx v expires op _ => by
    simp only [sampleCalls, traceOf, nil_append, mem_cons, not_mem_nil, or_false] at mem
    rcases mem with rfl | rfl | rfl | rfl | rfl | rfl <;> cases op
    exact sample_admits
  exact ⟨verified, by decide +kernel⟩

/-- Limits that the store accepts and under which no snapshot is read back: it has documents inside documents. -/
def shallowConfig : Config := { sampleConfig with options := { sampleOptions with maxJSONDepth := 2 } }

/-- `Create` succeeds and leaves a database that cannot be opened again. -/
theorem shallow_create_not_verified :
    shallowConfig.options.validate = .ok () ∧ (step shallowConfig System.initial sampleCreate).2.isOk = true ∧
    verify shallowConfig (step shallowConfig System.initial sampleCreate).1.store = .error .internal := by
  decide +kernel

end Pagnet.Continuation
