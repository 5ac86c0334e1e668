import Mathlib.Data.List.Nodup
import Pagnet.Data.Run
import Pagnet.Inbox.Store

/-!
# What the inbox keeps

A writer bounds the payload and the key of a record, a reader the size of its file. As
long as the files that are written are not too large for the reader, the directory and
the store that owns it are one list of records, to which `Put` appends.
-/

namespace Pagnet.Inbox

open Json List

/-! ## Reading what was written -/

variable {aad : Text} {key : Key}

theorem keyData_ok (h : keyData key = .ok aad) : aad = key.toJson.render ∧
    (key.networkID.isValid ∧ key.networkID.byteLength ≤ 1024) ∧
    (key.principalID.isValid ∧ key.principalID.byteLength ≤ 1024) ∧
    key.messageID.isValid ∧ key.messageID.byteLength ≤ 1024 := by
  unfold keyData at h
  split at h
  · cases h
  next valid =>
    simp only [any_cons, any_nil, Bool.or_eq_true, not_or, Bool.not_eq_true', Bool.not_eq_false, decide_eq_true_eq,
      not_lt] at valid
    cases h
    exact ⟨rfl, ⟨valid.1.1.2, valid.1.1.1.2⟩, ⟨valid.2.1.1.2, valid.2.1.1.1.2⟩, valid.2.2.1.1.2, valid.2.2.1.1.1.2⟩

theorem Key.ofJson_toJson (h : keyData key = .ok aad) : Key.ofJson key.toJson = some key := by
  obtain ⟨-, ⟨network, -⟩, ⟨principal, -⟩, message, -⟩ := keyData_ok h
  simp [Key.toJson, Value.ofFields, Key.ofJson, field_cons_ne, goString?_valid network, goString?_valid principal,
    goString?_valid message]

theorem Key.toJson_formed (key : Key) : key.toJson.WellFormed ∧ key.toJson.depth ≤ 1 := by
  constructor
  · exact ofFields_wellFormed (by simp [ofGoString_wellFormed])
  · exact depth_ofFields_le (by simp [Value.ofGoString, Value.depth])

theorem ofSlice_formed (bytes : Bytes) : (Value.ofSlice bytes).WellFormed ∧ (Value.ofSlice bytes).depth ≤ 1 := by
  unfold Value.ofSlice
  split
  · exact ⟨trivial, Nat.zero_le 1⟩
  · exact ⟨ofBytes_wellFormed bytes, Nat.zero_le 1⟩

theorem unmarshal_render {r : DiskRecord} (h : keyData r.key = .ok aad) : unmarshal r.toJson.render = some r := by
  have formed : r.toJson.WellFormed := ofFields_wellFormed (by simp [r.key.toJson_formed.1, (ofSlice_formed r.sealed).1])
  have shallow : r.toJson.depth ≤ 2 := depth_ofFields_le (by simp [r.key.toJson_formed.2, (ofSlice_formed r.sealed).2])
  have deep : r.toJson.depth ≤ maxNestingDepth := shallow.trans (by decide)
  unfold unmarshal
  rw [parse_render formed, Option.filter_some, if_pos (by simpa using deep), Option.bind_some]
  simp [DiskRecord.toJson, Value.ofFields, DiskRecord.ofJson, field_cons_ne, Key.ofJson_toJson h, bytes?_ofSlice]

variable {c : Crypto} {given l : Limits}

theorem openRecord_sealRecord {payload : Bytes} {nonce : Nonce} (h : keyData key = .ok aad) :
    openRecord c (recordName c aad) (sealRecord c key payload nonce aad) = .ok (key, payload) := by
  unfold openRecord sealRecord
  rw [unmarshal_render h]
  dsimp only
  rw [h]
  dsimp only
  rw [take_left' nonce.2, drop_left' nonce.2, c.decrypt_encrypt, if_neg]
  simp only [ne_eq, not_true_eq_false, length_append, nonce.2, c.length_encrypt, false_or]
  omega

/-! ## The records -/

/-- A record that was written. -/
structure Entry where
  key : Key
  payload : Bytes
  nonce : Nonce

namespace Entry

def name (c : Crypto) (e : Entry) : String := recordName c e.key.toJson.render

def file (c : Crypto) (e : Entry) : String × Text :=
  (e.name c, sealRecord c e.key e.payload e.nonce e.key.toJson.render)

/-- What the store knows of a record. -/
def row (c : Crypto) (e : Entry) : Key × String := (e.key, e.name c)

/-- A record that `read` accepts. -/
structure Readable (c : Crypto) (l : Limits) (e : Entry) : Prop where
  key : keyData e.key = .ok e.key.toJson.render
  payload : (e.payload.length : Int) ≤ l.maxPayloadBytes
  file : size (sealRecord c e.key e.payload e.nonce e.key.toJson.render) ≤ recordLimit l

end Entry

def plainBytes (entries : List Entry) : Int := (entries.map fun e => (e.payload.length : Int)).sum

/-- The directory is this list of records. -/
structure Stored (c : Crypto) (l : Limits) (disk : Disk) (entries : List Entry) : Prop where
  files : disk = entries.map (Entry.file c)
  readable : ∀ e ∈ entries, e.Readable c l
  names : (entries.map (Entry.name c)).Nodup
  count : (entries.length : Int) ≤ l.maxRecords
  total : plainBytes entries ≤ l.maxTotalBytes

/-- A store that has read these records. -/
structure Knows (c : Crypto) (l : Limits) (st : Store) (entries : List Entry) : Prop where
  limits : st.limits = l
  keys : st.keys.Perm (entries.map (Entry.row c))
  total : st.total = plainBytes entries

structure Holds (c : Crypto) (l : Limits) (s : System) (entries : List Entry) : Prop where
  stored : Stored c l s.disk entries
  knows : ∀ st, s.store = some st → st.failed = false → Knows c l st entries

section
variable {disk : Disk} {entries : List Entry} {e : Entry} {st : Store} {s : System}

section

variable (h : Stored c l disk entries)
include h

theorem Stored.same {e e' : Entry} (mem : e ∈ entries) (mem' : e' ∈ entries) (key : e.key = e'.key) : e = e' :=
  inj_on_of_nodup_map h.names mem mem' (by rw [Entry.name, Entry.name, key])

theorem Stored.read (mem : e ∈ entries) : read c l disk (e.name c) = .ok (e.key, e.payload) := by
  have found : disk.find? (·.1 = e.name c) = some (e.file c) := by
    rw [h.files, find?_map]
    obtain ⟨e', is⟩ : ∃ e', entries.find? ((fun f => decide (f.1 = e.name c)) ∘ Entry.file c) = some e' :=
      Option.isSome_iff_exists.1 (find?_isSome.2 ⟨e, mem, by simp [Entry.file]⟩)
    have same : e' = e := inj_on_of_nodup_map h.names (mem_of_find?_eq_some is) mem
      (of_decide_eq_true (p := e'.name c = e.name c) (find?_some is :))
    rw [is, same, Option.map_some]
  have r := h.readable e mem
  unfold Inbox.read readPrivate
  rw [found]
  dsimp only [Entry.file]
  rw [if_neg (not_lt.2 r.file), ok_bind, Entry.name, openRecord_sealRecord r.key, ok_bind,
    show decide (l.maxPayloadBytes < e.payload.length) = false from decide_eq_false (not_lt.2 r.payload)]
  rfl

/-- The entry of a key in the store, if there is a record of the key. -/
theorem find_cases (knows : Knows c l st entries) (key : Key) :
    (∃ row, ∃ e ∈ entries, e.key = key ∧ st.keys.find? (·.1 = key) = some row ∧
      read c st.limits disk row.2 = .ok (e.key, e.payload)) ∨
    st.keys.find? (·.1 = key) = none ∧ ∀ e ∈ entries, e.key ≠ key := by
  cases found : st.keys.find? (·.1 = key) with
  | some row =>
    obtain ⟨e, mem, rfl⟩ := mem_map.1 (knows.keys.subset (mem_of_find?_eq_some found))
    have same : e.key = key := of_decide_eq_true (p := e.key = key) (find?_some found :)
    exact .inl ⟨_, e, mem, same, rfl, knows.limits ▸ h.read mem⟩
  | none =>
    refine .inr ⟨rfl, fun e mem same => ?_⟩
    have row := List.find?_eq_none.1 found _ (knows.keys.symm.subset (mem_map_of_mem mem))
    simp [Entry.row, same] at row

end

theorem plainBytes_append (a b : List Entry) : plainBytes (a ++ b) = plainBytes a + plainBytes b := by
  simp [plainBytes]

theorem plainBytes_nonneg (entries : List Entry) : 0 ≤ plainBytes entries :=
  sum_nonneg (by simp)

/-- The loop of `Open` over records that can be read. -/
theorem load_all (h : Stored c l disk entries) (front rest : List Entry) (perm : (front ++ rest).Perm entries) :
    (rest.map (Entry.name c)).foldlM (Store.load c disk) ⟨l, front.map (Entry.row c), plainBytes front, false⟩ =
      .ok ⟨l, (front ++ rest).map (Entry.row c), plainBytes (front ++ rest), false⟩ := by
  induction rest generalizing front with
  | nil => simp [pure, Except.pure]
  | cons e rest ih =>
    have mem : e ∈ entries := perm.subset (by simp)
    have fresh : (front.map (Entry.row c)).any (·.1 = e.key) = false := by
      have nodup := (perm.map (Entry.name c)).nodup_iff.2 h.names
      rw [map_append, map_cons, nodup_append] at nodup
      simp only [any_map, any_eq_false, Function.comp_apply, decide_eq_true_eq]
      intro e' before same
      refine nodup.2.2 _ (mem_map_of_mem before) _ mem_cons_self ?_
      rw [Entry.name, Entry.name, show e'.key = e.key from same]
    have count : ((front ++ [e]).length : Int) ≤ l.maxRecords := by
      have whole : (front ++ [e]).length ≤ entries.length := by
        rw [← perm.length_eq]
        simp only [length_append, length_cons, length_nil]
        omega
      exact (Int.ofNat_le.2 whole).trans h.count
    have total : plainBytes (front ++ [e]) ≤ l.maxTotalBytes := by
      have same : plainBytes (front ++ e :: rest) = plainBytes entries := (perm.map _).sum_eq
      rw [append_cons, plainBytes_append] at same
      linarith [plainBytes_nonneg rest, h.total]
    have turn : Store.load c disk ⟨l, front.map (Entry.row c), plainBytes front, false⟩ (e.name c) =
        .ok ⟨l, (front ++ [e]).map (Entry.row c), plainBytes (front ++ [e]), false⟩ := by
      unfold Store.load
      rw [h.read mem, ok_bind, fresh, refuse_false, ok_bind]
      have sum : plainBytes (front ++ [e]) = plainBytes front + e.payload.length := by simp [plainBytes]
      have rows : (front ++ [e]).map (Entry.row c) = front.map (Entry.row c) ++ [(e.key, e.name c)] := by
        simp [Entry.row]
      rw [← rows, ← sum]
      dsimp only
      rw [length_map, decide_eq_false (not_lt.2 count), decide_eq_false (not_lt.2 total)]
      rfl
    rw [map_cons, foldlM_cons, turn, ok_bind, ih (front ++ [e]) (by simpa using perm)]
    simp

/-- `Open` reads every record. -/
theorem openStore_ok (accepted : normalizeLimits given = .ok l) (h : Stored c l s.disk entries) (closed : s.store = none) :
    ∃ st, openStore c given s = .ok st ∧ Knows c l st entries := by
  let sorted := entries.mergeSort fun a b => decide (a.name c ≤ b.name c)
  have perm : sorted.Perm entries := mergeSort_perm entries _
  have names : directoryNames s.disk = sorted.map (Entry.name c) := by
    rw [directoryNames, h.files, map_map]
    symm
    exact map_mergeSort fun a _ b _ => (rfl : decide (a.name c ≤ b.name c) = _)
  refine ⟨⟨l, sorted.map (Entry.row c), plainBytes sorted, false⟩, ?_, ⟨rfl, perm.map _, (perm.map _).sum_eq⟩⟩
  unfold openStore
  rw [accepted, ok_bind, closed, Option.isSome_none, refuse_false, ok_bind, names]
  exact load_all h [] sorted perm

/-! ## Steps -/

def System.usable (s : System) : Bool := s.store.any fun st => !st.failed

/-- How an event treats a record that was stored before. -/
structure Keeps (key : Key) (payload : Bytes) (e : Event System Action Answer) : Prop where
  get : e.input = .get key →
    e.output = .get (.ok payload) ∨ e.before.usable = false ∧ e.output = .get (.error errClosed) := by nofun
  list : e.input = .list → (∃ keys, e.output = .list (.ok keys) ∧ key ∈ keys) ∨
    e.before.usable = false ∧ e.output = .list (.error errClosed) := by nofun
  opens : e.input = .opens → e.output = .opens (.ok ()) → ∃ st, e.after.store = some st ∧ key ∈ st.keys.map (·.1) := by nofun
  put : ∀ other nonce write, e.input = .put key other nonce write → other ≠ payload →
    e.after = e.before ∧ ∃ error, e.output = .put (.error error) := by nofun

/-- The file that a `Put` writes is not too large for the reader. -/
def Fits (c : Crypto) (l : Limits) : Action → Prop
  | .put key payload nonce _ => ∀ aad, keyData key = .ok aad → (payload.length : Int) ≤ l.maxPayloadBytes →
    size (sealRecord c key payload nonce aad) ≤ recordLimit l
  | _ => True

/-- Unless payloads are limited to less than 3300 bytes, every file that is written can be read. -/
theorem fits_of_large (large : 3300 ≤ l.maxPayloadBytes) (a : Action) : Fits c l a := by
  cases a with
  | put key payload nonce write =>
    intro aad valid small
    obtain ⟨rfl, network, principal, message⟩ := keyData_ok valid
    have network := (size_ofGoString_le key.networkID).trans (by omega : _ ≤ 6 * 1024 + 2)
    have principal := (size_ofGoString_le key.principalID).trans (by omega : _ ≤ 6 * 1024 + 2)
    have message := (size_ofGoString_le key.messageID).trans (by omega : _ ≤ 6 * 1024 + 2)
    have names : size (quote "networkId") + size (quote "principalId") + size (quote "messageId") + size (quote "key") +
      size (quote "sealed") = 38 := by decide
    have outer : size (sealRecord c key payload nonce key.toJson.render) ≤ _ := size_ofFields_le _
    have inner : key.toJson.size ≤ _ := size_ofFields_le _
    have slice := three_size_ofSlice_le (nonce.val ++ c.encrypt nonce.val payload key.toJson.render)
    simp only [length_append, nonce.2, c.length_encrypt, map_cons, map_nil, sum_cons, sum_nil]
      at slice inner outer
    unfold recordLimit
    omega
  | _ => trivial

/-- What an event adds to the records, and what it answers. -/
structure Effect (c : Crypto) (l : Limits) (entries : List Entry) (e : Event System Action Answer)
    (added : List Entry) : Prop where
  holds : Holds c l e.after (entries ++ added)
  stored : ∀ key payload nonce write created, e.input = .put key payload nonce write → e.output = .put (.ok created) →
    ∃ r ∈ entries ++ added, r.key = key ∧ r.payload = payload := by nofun
  keeps : ∀ r ∈ entries, Keeps r.key r.payload e := by exact fun _ _ => { }
  opens : e.input = .opens → e.before.store = none → e.output = .opens (.ok ()) := by nofun

/-- Nothing is stored. -/
theorem Holds.effect {s' : System} {a : Action} {out : Answer} (after : Holds c l s' entries)
    (keeps : ∀ r ∈ entries, Keeps r.key r.payload ⟨s, a, out, s'⟩)
    (stored : ∀ created, out ≠ .put (.ok created) := by nofun)
    (opens : a = .opens → s.store = none → out = .opens (.ok ()) := by nofun) :
    ∃ added, Effect c l entries ⟨s, a, out, s'⟩ added :=
  ⟨[], (append_nil entries).symm ▸ after, fun _ _ _ _ created _ is => absurd is (stored created), keeps, opens⟩

variable {key : Key} {nonce : Nonce} {payload : Bytes} {write : Write}

/-- An event that only reports an error. -/
theorem Holds.refused (h : Holds c l s entries) (error : String) :
    ∃ added, Effect c l entries ⟨s, .put key payload nonce write, .put (.error error), s⟩ added :=
  h.effect fun _ _ => { put := fun _ _ _ _ _ => ⟨rfl, error, rfl⟩ }

section

variable (h : Stored c l disk entries)
include h

theorem Stored.append (r : e.Readable c l)
    (fresh : ¬ disk.any (·.1 = e.name c)) (count : (entries.length : Int) < l.maxRecords)
    (total : plainBytes entries + e.payload.length ≤ l.maxTotalBytes) :
    Stored c l (disk ++ [e.file c]) (entries ++ [e]) where
  files := by rw [h.files, map_append, map_singleton]
  readable := by simpa [or_imp, forall_and] using ⟨h.readable, r⟩
  names := by
    rw [map_append, nodup_append]
    refine ⟨h.names, nodup_singleton _, ?_⟩
    rintro _ before _ last rfl
    obtain ⟨e', mem, same⟩ := mem_map.1 before
    refine fresh (any_eq_true.2 ⟨e'.file c, h.files ▸ mem_map_of_mem mem, ?_⟩)
    exact decide_eq_true (same.trans (mem_singleton.1 last))
  count := by simpa using Int.add_one_le_of_lt count
  total := by simpa [plainBytes] using total

/-- `Put` on a store that is usable. -/
theorem put_effect (knows : Knows c l st entries) (usable : st.failed = false)
    (fits : Fits c l (.put key payload nonce write)) :
    ∃ added, Effect c l entries ⟨⟨disk, st⟩, .put key payload nonce write,
      (st.put c disk key payload nonce write).2, (st.put c disk key payload nonce write).1⟩ added := by
  have before : Holds c l ⟨disk, st⟩ entries := ⟨h, by rintro _ ⟨⟩ -; exact knows⟩
  unfold Store.put
  rw [if_neg (by rw [usable]; decide)]
  split
  · exact before.refused _
  rename_i aad is_key
  split
  · exact before.refused _
  rename_i small
  rcases find_cases h knows key with ⟨row, r, mem, rfl, found, reads⟩ | ⟨found, other⟩
  · rw [found]
    dsimp only
    rw [reads]
    dsimp only
    split
    next same =>
      refine ⟨[], (append_nil entries).symm ▸ before, ?_, fun r' mem' => { put := ?_ }, nofun⟩
      · rintro _ _ _ _ _ ⟨⟩ -
        exact ⟨r, mem_append_left _ mem, rfl, same⟩
      · rintro _ _ _ input differs
        obtain ⟨same_key, rfl, -, -⟩ := Action.put.inj input
        rw [h.same mem' mem same_key.symm] at differs
        exact absurd same.symm differs
    · exact before.refused _
  rw [found]
  dsimp only
  split
  · exact before.refused _
  rename_i room
  obtain rfl := (keyData_ok is_key).1
  rw [not_or, not_le, not_lt, knows.limits, knows.total, knows.keys.length_eq, length_map] at room
  have small : (payload.length : Int) ≤ l.maxPayloadBytes := knows.limits ▸ not_lt.1 small
  have readable : (Entry.mk key payload nonce).Readable c l := ⟨is_key, small, fits _ is_key small⟩
  have keeps {out : Answer} {s' : System} : ∀ r ∈ entries,
      Keeps r.key r.payload ⟨⟨disk, st⟩, .put key payload nonce write, out, s'⟩ :=
    fun r mem => { put := fun _ _ _ input => absurd (Action.put.inj input).1.symm (other r mem) }
  -- a store that failed, or died, knows nothing
  have lost {s' : System} {out : Answer} {added : List Entry} (stored : Stored c l s'.disk (entries ++ added))
      (unusable : ∀ st, s'.store = some st → st.failed) (no_success : ∀ created, out ≠ .put (.ok created)) :
      ∃ added, Effect c l entries ⟨⟨disk, st⟩, .put key payload nonce write, out, s'⟩ added :=
    ⟨added, ⟨stored, fun st is usable => by rw [unusable st is] at usable; cases usable⟩,
      fun _ _ _ _ created _ is => absurd is (no_success created), keeps, nofun⟩
  have unchanged : Stored c l disk (entries ++ []) := (append_nil entries).symm ▸ h
  cases write with
  | beforeRename error =>
    cases error with
    | none => exact lost unchanged nofun nofun
    | some e => exact lost unchanged (by rintro _ ⟨⟩; rfl) nofun
  | afterRename result =>
    by_cases taken : disk.any (·.1 = recordName c key.toJson.render)
    · simp only [writeAtomic, if_pos taken]
      exact lost unchanged (by rintro _ ⟨⟩; rfl) nofun
    simp only [writeAtomic, if_neg taken]
    have stored := h.append readable taken room.1 (by linarith [room.2])
    match result with
    | none => exact lost stored nofun nofun
    | some (.error e) => exact lost stored (by rintro _ ⟨⟩; rfl) nofun
    | some (.ok _) =>
      refine ⟨[⟨key, payload, nonce⟩], ⟨stored, ?_⟩, ?_, keeps, nofun⟩
      · rintro _ ⟨⟩ -
        refine ⟨knows.limits, ?_, ?_⟩
        · rw [map_append]
          exact knows.keys.append_right _
        · rw [plainBytes_append, ← knows.total]
          simp [plainBytes]
      · rintro _ _ _ _ _ ⟨⟩ -
        exact ⟨_, mem_append_right _ mem_cons_self, rfl, rfl⟩

/-- `Get` on a store that is usable. -/
theorem get_effect (knows : Knows c l st entries) (usable : st.failed = false) (key : Key) :
    ∃ added, Effect c l entries ⟨⟨disk, st⟩, .get key, (st.get c disk key).2, (st.get c disk key).1⟩ added := by
  have before : Holds c l ⟨disk, st⟩ entries := ⟨h, by rintro _ ⟨⟩ -; exact knows⟩
  unfold Store.get
  rw [if_neg (by rw [usable]; decide)]
  rcases find_cases h knows key with ⟨row, e, mem, rfl, found, reads⟩ | ⟨found, other⟩
  · rw [found]
    dsimp only
    rw [reads]
    refine before.effect fun r mem' => { get := fun input => .inl ?_ }
    rw [h.same mem' mem (Action.get.inj input).symm]
  · rw [found]
    exact before.effect fun r mem => { get := fun input => absurd (Action.get.inj input).symm (other r mem) }

end

theorem Knows.listed (knows : Knows c l st entries) (mem : e ∈ entries) : e.key ∈ st.keys.map (·.1) :=
  mem_map.2 ⟨e.row c, knows.keys.symm.subset (mem_map_of_mem mem), rfl⟩

/-- One step of the inbox. -/
theorem step_effect (accepted : normalizeLimits given = .ok l) (h : Holds c l s entries) (a : Action) (fits : Fits c l a) :
    ∃ added, Effect c l entries (Event.of (System.step c given) s a) added := by
  obtain ⟨disk, store⟩ := s
  unfold Event.of
  cases a with
  | opens =>
    unfold System.step
    cases store with
    | none =>
      obtain ⟨st, opened, knows⟩ := openStore_ok accepted h.stored rfl
      rw [opened]
      exact Holds.effect ⟨h.stored, by rintro _ ⟨⟩ -; exact knows⟩
        (fun r mem => { opens := fun _ _ => ⟨st, rfl, knows.listed mem⟩ }) nofun fun _ _ => rfl
    | some st =>
      have locked : openStore c given ⟨disk, some st⟩ = .error errLocked := by
        unfold openStore
        rw [accepted]
        rfl
      rw [locked]
      exact h.effect fun r mem => { opens := nofun }
  | close => exact Holds.effect ⟨h.stored, nofun⟩ fun r mem => { }
  | put key payload nonce write =>
    cases store with
    | none => exact h.refused _
    | some st =>
      cases failed : st.failed with
      | false => exact put_effect h.stored (h.knows st rfl failed) failed fits
      | true =>
        unfold System.step Store.put
        dsimp only
        rw [if_pos failed]
        exact h.refused _
  | get key =>
    cases store with
    | none => exact h.effect fun r mem => { get := fun _ => .inr ⟨rfl, rfl⟩ }
    | some st =>
      cases failed : st.failed with
      | false => exact get_effect h.stored (h.knows st rfl failed) failed key
      | true =>
        unfold System.step Store.get
        dsimp only
        rw [if_pos failed]
        exact h.effect fun r mem => { get := fun _ => .inr ⟨by simp [System.usable, failed], rfl⟩ }
  | list =>
    cases store with
    | none => exact h.effect fun r mem => { list := fun _ => .inr ⟨rfl, rfl⟩ }
    | some st =>
      unfold System.step Store.list
      dsimp only
      split
      next failed => exact h.effect fun r mem => { list := fun _ => .inr ⟨by simp [System.usable, failed], rfl⟩ }
      next usable =>
        have knows := h.knows st rfl (by simpa using usable)
        exact h.effect fun r mem => { list := fun _ => .inl ⟨_, rfl, mem_mergeSort.2 (knows.listed mem)⟩ }

/-! ## Runs -/

abbrev Trace := List (Event System Action Answer)

/-- The plaintext bytes of all files. -/
def storedBytes (c : Crypto) (disk : Disk) : Int :=
  (disk.map fun file => (openRecord c file.1 file.2).toOption.elim 0 fun found => (found.2.length : Int)).sum

/-- The inbox after these events. -/
structure Durable (c : Crypto) (l : Limits) (trace : Trace) (s : System) : Prop where
  kept : ∀ front e back, trace = front ++ e :: back → ∀ key payload nonce write created,
    e.input = .put key payload nonce write → e.output = .put (.ok created) → ∀ e' ∈ back, Keeps key payload e'
  opens : ∀ e ∈ trace, e.input = .opens → e.before.store = none → e.output = .opens (.ok ())
  grows : ∀ e ∈ trace, e.before.disk <+: e.after.disk
  counted : ∀ st, s.store = some st → st.failed = false →
    st.keys.length = s.disk.length ∧ st.total = storedBytes c s.disk
  bounded : s.disk.length ≤ l.maxRecords ∧ storedBytes c s.disk ≤ l.maxTotalBytes

theorem Stored.bytes (h : Stored c l disk entries) : storedBytes c disk = plainBytes entries := by
  unfold storedBytes plainBytes
  rw [h.files, map_map]
  refine congrArg List.sum (map_congr_left fun e mem => ?_)
  show (openRecord c (e.name c) (e.file c).2).toOption.elim 0 _ = _
  rw [Entry.name, Entry.file, openRecord_sealRecord (h.readable e mem).key]
  rfl

theorem initial_holds (accepted : normalizeLimits given = .ok l) : Holds c l .initial [] := by
  unfold normalizeLimits at accepted
  dsimp only at accepted
  split at accepted
  · cases accepted
  rename_i inside
  simp only [not_or, not_lt] at inside
  cases accepted
  exact ⟨⟨rfl, nofun, nodup_nil, (by decide : (0 : Int) ≤ 1).trans inside.1,
    (by decide : (0 : Int) ≤ 1).trans inside.2.2.2.2.1⟩, nofun⟩

section
variable {s₀ : System} {first : List Entry} {trace : Trace} (accepted : normalizeLimits given = .ok l)
  (start : Holds c l s₀ first) (run : Run (System.step c given) s₀ trace s)
  (fits : ∀ e ∈ trace, Fits c l e.input)
include accepted start run fits

/-- The records of a run are those it started with, and more. -/
theorem run_holds : ∃ more, Holds c l s (first ++ more) := by
  refine run.guarded (P := fun s => ∃ more, Holds c l s (first ++ more)) (G := fun _ a => Fits c l a) ?_ ?_ fits
  · exact ⟨[], by rwa [append_nil]⟩
  · rintro s a ⟨more, h⟩ fits
    obtain ⟨added, effect⟩ := step_effect accepted h a fits
    exact ⟨more ++ added, append_assoc first more added ▸ effect.holds⟩

theorem event_effect {e : Event System Action Answer} (mem : e ∈ trace) :
    ∃ more added, Holds c l e.before (first ++ more) ∧ Effect c l (first ++ more) e added := by
  obtain ⟨front, back, rfl, before, is, -⟩ := run.split mem
  obtain ⟨more, h⟩ := run_holds accepted start before fun e mem => fits e (mem_append_left _ mem)
  obtain ⟨added, effect⟩ := step_effect accepted h e.input (fits e mem)
  exact ⟨more, added, h, is ▸ effect⟩

end

/-- Every run that writes no file too large for the reader. -/
theorem inbox_durable {trace : Trace} (accepted : normalizeLimits given = .ok l)
    (run : Run (System.step c given) .initial trace s) (fits : ∀ e ∈ trace, Fits c l e.input) :
    Durable c l trace s where
  kept := by
    rintro front e back rfl key payload nonce write created input output e' mem
    obtain ⟨more, added, -, effect⟩ := event_effect accepted (initial_holds accepted) run fits
      (mem_append_right front mem_cons_self)
    obtain ⟨r, stored, rfl, rfl⟩ := effect.stored key payload nonce write created input output
    obtain ⟨-, -, rest⟩ := run.place
    obtain ⟨more, added, -, effect⟩ := event_effect accepted effect.holds rest
      (fun e mem => fits e (mem_append_right _ (mem_cons_of_mem _ mem))) mem
    exact effect.keeps r (mem_append_left _ stored)
  opens e mem := by
    obtain ⟨more, added, -, effect⟩ := event_effect accepted (initial_holds accepted) run fits mem
    exact effect.opens
  grows e mem := by
    obtain ⟨more, added, h, effect⟩ := event_effect accepted (initial_holds accepted) run fits mem
    rw [h.stored.files, effect.holds.stored.files]
    exact (prefix_append _ added).map _
  counted st is usable := by
    obtain ⟨entries, h⟩ := run_holds accepted (initial_holds accepted) run fits
    have knows := h.knows st is usable
    rw [knows.keys.length_eq, knows.total, h.stored.bytes, h.stored.files, length_map, length_map]
    exact ⟨rfl, rfl⟩
  bounded := by
    obtain ⟨entries, h⟩ := run_holds accepted (initial_holds accepted) run fits
    rw [h.stored.bytes, h.stored.files, length_map]
    exact ⟨h.stored.count, h.stored.total⟩

def sampleCrypto : Crypto where
  sha256 := sampleDigest
  encrypt _ plain _ := plain ++ List.replicate 16 0
  decrypt _ sealed _ := some (sealed.take (sealed.length - 16))
  length_encrypt _ plain _ := by simp
  decrypt_encrypt _ plain _ := by simp

def sampleNonce : Nonce := ⟨List.replicate 12 0, rfl⟩

def sampleKey (text : List Char) : Key := ⟨text.map .inl, text.map .inl, text.map .inl⟩

def sampleActions (key : Key) (payload : Bytes) : List Action :=
  [.opens, .put key payload sampleNonce (.afterRename (some (.ok ()))), .get key, .close, .opens]

abbrev sampleTrace (given : Limits) (key : Key) (payload : Bytes) : Trace :=
  traceOf (System.step sampleCrypto given) .initial (sampleActions key payload)

theorem inbox_durable_sample : (∃ s, Durable sampleCrypto ⟨1024, 2 ^ 20, 64 * 2 ^ 20⟩
      (sampleTrace ⟨0, 0, 0⟩ (sampleKey ['a']) [7]) s) ∧
    (sampleTrace ⟨0, 0, 0⟩ (sampleKey ['a']) [7]).map (·.output) =
      [.opens (.ok ()), .put (.ok true), .get (.ok [7]), .close, .opens (.ok ())] :=
  ⟨⟨_, inbox_durable (rfl : normalizeLimits ⟨0, 0, 0⟩ = _) (Run.start.inputs (sampleActions _ _))
    fun e _ => fits_of_large (by decide) e.input⟩, by decide +kernel⟩

/-- A message that is accepted and cannot be read again: three ids of 1024 characters that JSON escapes. -/
theorem inbox_unreadable : (sampleTrace ⟨1, 1, 1⟩ (sampleKey (List.replicate 1024 '<')) []).map (·.output) =
    [.opens (.ok ()), .put (.ok true), .get (.error errCorrupt), .close, .opens (.error errCorrupt)] := by
  decide +kernel

end

end Pagnet.Inbox
