import Mathlib.Algebra.BigOperators.Group.List.Basic
import Pagnet.Sdk.Invocation

/-!
# The cache of completed invocations

`lruMap` of `sdk/dispatch.go`: values, their sizes and the order of their last
use are three structures, with a running total of the sizes. `set` evicts from
the front of the order until both bounds hold. The client's model has one list of
entries in their place, `Pagnet.LruMap`; the two are connected call by call.
-/

namespace Pagnet.Sdk.Completed
open List Function

variable {ρ α : Type}

/-- What the cache holds: results of invocations, or anything else. -/
inductive Value (ρ α : Type) where
  | completedInvocation (result : ρ) (encodedBytes : Int)
  | other (value : α)
  deriving DecidableEq

/-- What a value counts for. A result that cannot be encoded has no bytes. -/
def size (marshal : ρ → List UInt8) : Value ρ α → Int
  | .completedInvocation result encodedBytes => if encodedBytes = 0 then (marshal result).length else encodedBytes
  | .other _ => 1

structure LruMap (ν : Type) where
  maxBytes : Int
  bytes : Int
  sizes : String → Option Int
  cap : Nat
  items : String → Option ν
  order : List String

variable {ν : Type}

def newLRUMap (cap : Int) : LruMap ν where
  maxBytes := Invocation.maxCompletedInvocationBytes
  bytes := 0
  sizes := fun _ => none
  cap := if cap ≤ 0 then defaultSeenCap else cap.toNat
  items := fun _ => none
  order := []

/-- The key at the end of the order. -/
def use (order : List String) (key : String) : List String := order.erase key ++ [key]

namespace LruMap

def touchLocked (order : List String) (key : String) : List String := if key ∈ order then use order key else order

def full (m : LruMap ν) : Bool := m.cap < m.order.length || m.maxBytes < m.bytes

/-- One round of the eviction. -/
def drop (m : LruMap ν) (old : String) (rest : List String) : LruMap ν :=
  { m with
    order := rest
    bytes := m.bytes - (m.sizes old).getD 0
    sizes := update m.sizes old none
    items := update m.items old none }

/-- The eviction loop over the order; it panics if there is nothing to evict. -/
def evict (m : LruMap ν) : List String → Option (LruMap ν)
  | [] => if m.full then none else some m
  | old :: rest => if m.full then evict (m.drop old rest) rest else some m

/-- The entry of a key, before the eviction. -/
def write (m : LruMap ν) (key : String) (v : ν) (size : Int) : LruMap ν :=
  { m with
    bytes := m.bytes - (m.sizes key).getD 0 + size
    sizes := update m.sizes key (some size)
    items := update m.items key (some v)
    order := if (m.items key).isSome then touchLocked m.order key else m.order ++ [key] }

def set (size : ν → Int) (m : LruMap ν) (key : String) (v : ν) : Option (LruMap ν) :=
  let m := m.write key v (size v)
  m.evict m.order

def get (m : LruMap ν) (key : String) : Option ν × LruMap ν :=
  (m.items key, if (m.items key).isSome then { m with order := touchLocked m.order key } else m)

/-- What is kept under a key. -/
def entryAt (m : LruMap ν) (key : String) : Option (LruEntry String ν) :=
  (m.items key).bind fun v => (m.sizes key).map fun size => ⟨key, v, size⟩

/-- The cache as one list of entries. -/
def toLru (m : LruMap ν) : Pagnet.LruMap String ν := ⟨m.cap, m.maxBytes, m.order.filterMap m.entryAt⟩

/-- The keys are within both bounds. -/
def Fits (m : LruMap ν) (keys : List String) : Prop :=
  keys.length ≤ m.cap ∧ (keys.map fun key => (m.sizes key).getD 0).sum ≤ m.maxBytes

/-- The three structures agree. -/
structure Sound (m : LruMap ν) : Prop where
  nodup : m.order.Nodup
  items : ∀ key, (m.items key).isSome ↔ key ∈ m.order
  sizes : ∀ key, (m.sizes key).isSome ↔ key ∈ m.order
  bytes : m.bytes = (m.order.map fun key => (m.sizes key).getD 0).sum

variable {m : LruMap ν} {key : String} {v : ν}

/-- The sizes of other keys do not change. -/
theorem map_update {sizes : String → Option Int} {size : Option Int} {keys : List String} (fresh : key ∉ keys) :
    keys.map (fun other => (update sizes key size other).getD 0) = keys.map fun other => (sizes other).getD 0 :=
  map_congr_left fun other mem => by rw [update_of_ne (ne_of_mem_of_not_mem mem fresh)]

/-- Dropping the oldest entry keeps them in agreement. -/
theorem Sound.drop {old : String} {rest : List String} (sound : m.Sound) (order : m.order = old :: rest) :
    (m.drop old rest).Sound := by
  obtain ⟨fresh, nodup⟩ := nodup_cons.1 (order ▸ sound.nodup)
  have keyed : ∀ {β : Type} (f : String → Option β), (∀ key, (f key).isSome ↔ key ∈ m.order) →
      ∀ key, (update f old none key).isSome ↔ key ∈ rest := by
    intro β f keys key
    rw [update_apply]
    split
    next same => simp [same, fresh]
    next other => simp [keys, order, other]
  refine ⟨nodup, keyed _ sound.items, keyed _ sound.sizes, ?_⟩
  simp only [LruMap.drop, map_update fresh, sound.bytes, order, map_cons, sum_cons]
  omega

theorem Sound.full_iff (sound : m.Sound) : m.full ↔ ¬ m.Fits m.order := by
  simp only [full, Fits, sound.bytes, Bool.or_eq_true, decide_eq_true_eq, not_and_or, not_le]

/-- What an eviction leaves of a cache: the longest end of its order that is within both bounds. -/
structure Evicted (m m' : LruMap ν) : Prop where
  suffix : m'.order <:+ m.order
  longest : ∀ keys, keys <:+ m.order → m.Fits keys → keys <:+ m'.order
  room : m'.full = false
  cap : m'.cap = m.cap
  maxBytes : m'.maxBytes = m.maxBytes
  items : ∀ key ∈ m'.order, m'.items key = m.items key
  entries : m'.toLru.entries = Pagnet.LruMap.trim m.cap m.maxBytes m.toLru.entries

theorem Sound.entries_cons {old : String} {rest : List String} (sound : m.Sound) (order : m.order = old :: rest) :
    ∃ e, m.toLru.entries = e :: (m.drop old rest).toLru.entries ∧
      e.size = (m.sizes old).getD 0 := by
  obtain ⟨v, item⟩ := Option.isSome_iff_exists.1 ((sound.items old).2 (order ▸ mem_cons_self))
  obtain ⟨size, sized⟩ := Option.isSome_iff_exists.1 ((sound.sizes old).2 (order ▸ mem_cons_self))
  have fresh := (nodup_cons.1 (order ▸ sound.nodup)).1
  refine ⟨⟨old, v, size⟩, ?_, by simp [sized]⟩
  have same : (m.drop old rest).toLru.entries = rest.filterMap m.entryAt := by
    refine filterMap_congr fun key mem => ?_
    have other := ne_of_mem_of_not_mem mem fresh
    simp [entryAt, LruMap.drop, update_of_ne other]
  rw [same, toLru, order]
  simp [entryAt, item, sized]

/-- The running total is that of the entries. -/
theorem Sound.bytes_entries (sound : m.Sound) :
    m.toLru.entries.length = m.order.length ∧ Pagnet.LruMap.bytes m.toLru.entries = m.bytes := by
  generalize order : m.order = keys
  induction keys generalizing m with
  | nil => simp [toLru, order, Pagnet.LruMap.bytes, sound.bytes]
  | cons old rest ih =>
    obtain ⟨e, entries, size⟩ := sound.entries_cons order
    obtain ⟨length, bytes⟩ := ih (sound.drop order) rfl
    have total : (m.drop old rest).bytes = m.bytes - (m.sizes old).getD 0 := rfl
    simp only [Pagnet.LruMap.bytes] at bytes ⊢
    simp only [entries, length_cons, length, map_cons, sum_cons, bytes, size, total, true_and]
    omega

/-- The eviction ends, and drops no key while both bounds hold. -/
theorem Sound.evict (sound : m.Sound) (positive : 0 ≤ m.maxBytes) :
    ∃ m', m.evict m.order = some m' ∧ m'.Sound ∧ Evicted m m' := by
  generalize order : m.order = keys
  induction keys generalizing m with
  | nil =>
    have room : m.full = false := by simp [full, order, sound.bytes, positive]
    refine ⟨m, by simp [LruMap.evict, room], sound, suffix_rfl, fun _ suffix _ => suffix, room, rfl, rfl,
      fun _ _ => rfl, ?_⟩
    simp [toLru, order, Pagnet.LruMap.trim]
  | cons old rest ih =>
    obtain ⟨e, entries, -⟩ := sound.entries_cons order
    obtain ⟨length, bytes⟩ := sound.bytes_entries
    rw [entries] at length bytes
    unfold LruMap.evict
    split
    next exceeds =>
      obtain ⟨m', evicted, sound', left⟩ := ih (sound.drop order) positive rfl
      have fresh := (nodup_cons.1 (order ▸ sound.nodup)).1
      refine ⟨m', evicted, sound', ?_, fun keys suffix fits => ?_, left.room, left.cap, left.maxBytes,
        fun key mem => ?_, ?_⟩
      · exact order ▸ left.suffix.trans (suffix_cons old rest)
      · -- The whole order is over a bound, so what fits is an end of the rest.
        rw [order] at suffix
        rcases suffix_cons_iff.1 suffix with rfl | inside
        · exact absurd (order ▸ fits) (sound.full_iff.1 exceeds)
        · refine left.longest keys inside ?_
          unfold Fits at fits ⊢
          rwa [LruMap.drop, map_update fun mem => fresh (inside.mem mem)]
      · rw [left.items key mem]
        exact update_of_ne (ne_of_mem_of_not_mem (left.suffix.mem mem) fresh) ..
      · rw [left.entries, entries, Pagnet.LruMap.trim, if_pos]
        · rfl
        · simpa [full, length, bytes] using exceeds
    next room =>
      refine ⟨m, rfl, sound, suffix_rfl, fun _ suffix _ => suffix, by simpa using room, rfl, rfl, fun _ _ => rfl, ?_⟩
      rw [entries, Pagnet.LruMap.trim, if_neg]
      simpa [full, length, bytes] using room

theorem mem_use {order : List String} {other : String} : other ∈ use order key ↔ other = key ∨ other ∈ order := by
  by_cases same : other = key
  · simp [use, same]
  · simp [use, same, mem_erase_of_ne same]

theorem nodup_use {order : List String} (nodup : order.Nodup) : (use order key).Nodup :=
  nodup_append.2 ⟨nodup.erase key, nodup_singleton key, by
    intro a mem b last same
    rw [mem_singleton.1 last] at same
    exact nodup.not_mem_erase (same ▸ mem)⟩

/-- A use of a known key moves it only. -/
theorem use_perm {order : List String} (mem : key ∈ order) : (use order key).Perm order :=
  (perm_append_singleton ..).trans (perm_cons_erase mem).symm

theorem write_order (sound : m.Sound) (size : Int) : (m.write key v size).order = use m.order key := by
  simp only [write, touchLocked]
  split
  next known => rw [if_pos ((sound.items key).1 known)]
  next unknown =>
    have fresh := mt (sound.items key).2 unknown
    simp [use, erase_of_not_mem fresh]

/-- A written entry keeps the structures in agreement. -/
theorem Sound.write (sound : m.Sound) (key : String) (v : ν) (size : Int) : (m.write key v size).Sound := by
  have order := @write_order _ m key v sound size
  have keyed : ∀ {β : Type} (f : String → Option β) (b : β), (∀ other, (f other).isSome ↔ other ∈ m.order) →
      ∀ other, (update f key (some b) other).isSome ↔ other ∈ use m.order key := by
    intro β f b keys other
    rw [update_apply, mem_use]
    split
    next same => simp [same]
    next other => simp [keys, other]
  refine ⟨order ▸ nodup_use sound.nodup, order ▸ keyed _ v sound.items, order ▸ keyed _ size sound.sizes, ?_⟩
  have before : m.bytes = (m.sizes key).getD 0 + ((m.order.erase key).map fun other => (m.sizes other).getD 0).sum := by
    rw [sound.bytes]
    by_cases mem : key ∈ m.order
    · exact ((perm_cons_erase mem).map _).sum_eq
    · have unsized : m.sizes key = none := by simpa using mt (sound.sizes key).1 mem
      simp [unsized, erase_of_not_mem mem]
  rw [order, use, map_append, sum_append]
  simp only [LruMap.write, map_update sound.nodup.not_mem_erase, before, map_singleton, sum_singleton, update_self, Option.getD_some]
  omega

theorem filter_entries (p : String → Bool) :
    m.toLru.entries.filter (fun e => p e.key) = (m.order.filter p).filterMap m.entryAt := by
  rw [toLru, filter_filterMap, filterMap_filter]
  refine filterMap_congr fun key _ => ?_
  unfold entryAt
  cases m.items key <;> cases m.sizes key <;> cases keeps : p key <;> simp [keeps]

theorem Sound.erase_entries (sound : m.Sound) :
    (m.order.erase key).filterMap m.entryAt = m.toLru.entries.filter fun e => e.key ≠ key := by
  rw [filter_entries fun other => decide (other ≠ key), sound.nodup.erase_eq_filter]
  exact congrArg _ (filter_congr fun other _ => Bool.eq_iff_iff.2 (by simp))

/-- A key that is written stands last, and the other entries keep theirs. -/
theorem entries_write (sound : m.Sound) (size : Int) :
    (m.write key v size).toLru.entries = m.toLru.grown key v size := by
  have others : (m.order.erase key).filterMap (m.write key v size).entryAt = (m.order.erase key).filterMap m.entryAt :=
    filterMap_congr fun other mem => by
      simp [entryAt, write, update_of_ne (ne_of_mem_of_not_mem mem sound.nodup.not_mem_erase)]
  rw [toLru, write_order sound, use, filterMap_append, others, sound.erase_entries, Pagnet.LruMap.grown]
  simp [entryAt, write]

/-- A key that is found becomes the most recent one. -/
theorem get_toLru (sound : m.Sound) (key : String) : (m.get key).2.toLru = (m.toLru.get key).2 := by
  by_cases mem : key ∈ m.order
  · have found := (sound.items key).2 mem
    obtain ⟨v, item⟩ := Option.isSome_iff_exists.1 found
    obtain ⟨size, sized⟩ := Option.isSome_iff_exists.1 ((sound.sizes key).2 mem)
    have one : m.toLru.entries.filter (fun e => e.key = key) = [⟨key, v, size⟩] := by
      rw [filter_entries fun other => decide (other = key), filter_eq, count_eq_one_of_mem sound.nodup mem]
      simp [entryAt, item, sized]
    have known : m.toLru.find? key = some v := by
      rw [Pagnet.LruMap.find?, ← head?_filter, one]
      rfl
    have moved : (use m.order key).filterMap m.entryAt = (m.toLru.touch key).entries := by
      rw [use, filterMap_append, sound.erase_entries, Pagnet.LruMap.touch, one]
      simp [entryAt, item, sized]
    simp only [get, touchLocked, item, Pagnet.LruMap.get, known, mem, Option.isSome_some, if_true]
    exact congrArg _ moved
  · have absent : m.items key = none := by simpa using mt (sound.items key).1 mem
    have unknown : m.toLru.find? key = none := by
      rw [Pagnet.LruMap.find?, ← head?_filter, filter_entries fun other => decide (other = key), filter_eq,
        count_eq_zero_of_not_mem mem]
      rfl
    simp [get, absent, Pagnet.LruMap.get, unknown]

end LruMap

/-- A call of the cache. -/
inductive Call (ν : Type) where
  | set (key : String) (v : ν)
  | get (key : String)

/-- What the calls so far did, whatever was evicted: all keys by their last
use, and the value last set for each. A `get` that finds nothing is no use. -/
structure Usage (ν : Type) where
  recent : List String
  last : String → Option ν

def step (size : ν → Int) (s : LruMap ν × Usage ν) : Call ν → Option (LruMap ν × Usage ν)
  | .set key v => (s.1.set size key v).map fun m => (m, ⟨use s.2.recent key, update s.2.last key (some v)⟩)
  | .get key =>
    let (found, m) := s.1.get key
    some (m, if found.isSome then { s.2 with recent := use s.2.recent key } else s.2)

/-- A call of the map of entries. -/
def Call.run (size : ν → Int) (m : Pagnet.LruMap String ν) : Call ν → Pagnet.LruMap String ν
  | .set key v => m.set key v (size v)
  | .get key => (m.get key).2

/-- The cache of capacity `cap`, after the calls it has seen. -/
structure Sound (cap : Int) (s : LruMap ν × Usage ν) : Prop where
  cap : s.1.cap = if cap ≤ 0 then defaultSeenCap else cap.toNat
  maxBytes : s.1.maxBytes = Invocation.maxCompletedInvocationBytes
  agree : s.1.Sound
  room : s.1.full = false
  recent : s.1.order <:+ s.2.recent
  nodup : s.2.recent.Nodup
  last : ∀ key ∈ s.1.order, s.1.items key = s.2.last key

variable {cap : Int} {s : LruMap ν × Usage ν} {key : String}

theorem suffix_use {order recent : List String} (nodup : recent.Nodup) (suffix : order <:+ recent) :
    use order key <:+ use recent key := by
  obtain ⟨before, rfl⟩ := suffix
  unfold use
  rw [erase_append]
  split
  next mem =>
    have fresh : key ∉ order := fun also => disjoint_of_nodup_append nodup mem also
    rw [erase_of_not_mem fresh, append_assoc]
    exact suffix_append ..
  · rw [append_assoc]
    exact suffix_append ..

/-- What `set` does to a sound cache. -/
theorem Sound.set (size : ν → Int) (sound : Sound cap s) (key : String) (v : ν) :
    ∃ m, s.1.set size key v = some m ∧ m.Sound ∧ LruMap.Evicted (s.1.write key v (size v)) m :=
  (sound.agree.write key v (size v)).evict (sound.maxBytes ▸ Int.natCast_nonneg _)

/-- A call never panics and leaves a sound cache. -/
theorem Sound.step (size : ν → Int) (sound : Sound cap s) (call : Call ν) :
    ∃ s', step size s call = some s' ∧ Sound cap s' ∧ s'.1.toLru = call.run size s.1.toLru := by
  cases call with
  | set key v =>
    obtain ⟨m, evicted, agree, left⟩ := sound.set size key v
    have suffix := left.suffix
    rw [LruMap.write_order sound.agree] at suffix
    refine ⟨_, congrArg (Option.map _) evicted, ⟨left.cap.trans sound.cap, left.maxBytes.trans sound.maxBytes, agree,
      left.room, suffix.trans (suffix_use sound.nodup sound.recent), LruMap.nodup_use sound.nodup, fun other mem => ?_⟩, ?_⟩
    · refine (left.items other mem).trans ?_
      change update _ _ _ _ = update _ _ _ _
      rw [update_apply, update_apply]
      split
      · rfl
      next different => exact sound.last _ ((LruMap.mem_use.1 (suffix.mem mem)).resolve_left different)
    · have entries := left.entries
      rw [LruMap.entries_write sound.agree] at entries
      exact congr (congrArg₂ Pagnet.LruMap.mk left.cap left.maxBytes) entries
  | get key =>
    refine ⟨_, rfl, ?_, LruMap.get_toLru sound.agree key⟩
    by_cases mem : key ∈ s.1.order
    · have found := (sound.agree.items key).2 mem
      have perm := LruMap.use_perm mem
      simp only [LruMap.touchLocked, found, mem, if_true]
      refine ⟨sound.cap, sound.maxBytes, ⟨perm.nodup_iff.2 sound.agree.nodup, ?_, ?_, ?_⟩, ?_,
        suffix_use sound.nodup sound.recent, LruMap.nodup_use sound.nodup, fun other mem => ?_⟩
      · exact fun other => (sound.agree.items other).trans perm.mem_iff.symm
      · exact fun other => (sound.agree.sizes other).trans perm.mem_iff.symm
      · exact sound.agree.bytes.trans (perm.map _).sum_eq.symm
      · rw [← sound.room, LruMap.full, LruMap.full, perm.length_eq]
      · exact sound.last other (perm.mem_iff.1 mem)
    · have absent := mt (sound.agree.items key).1 mem
      simp only [absent]
      exact sound

/-- After any calls the cache has not panicked; its order has no duplicates and
is the set of keys of both maps, and the bytes are the sum of the sizes. Both
bounds hold, the keys that are left are the ones used last, and `get` returns the
value that was last set for a key that is left. The cache has the entries of the
client's model. The next `set` leaves the longest end of the order, with its key
used last, that is within both bounds: it stores the value unless that alone is too
large, and drops a key only while a bound is exceeded. -/
theorem completed_cache_keeps_recent (marshal : ρ → List UInt8) (cap : Int) (calls : List (Call (Value ρ α))) :
    ∃ m usage, calls.foldlM (Completed.step (size marshal)) (newLRUMap cap, ⟨[], fun _ => none⟩) = some (m, usage) ∧
      m.Sound ∧ m.order.length ≤ (if cap ≤ 0 then defaultSeenCap else cap.toNat) ∧
      m.bytes ≤ Invocation.maxCompletedInvocationBytes ∧ m.order <:+ usage.recent ∧ usage.recent.Nodup ∧
      (∀ key, (m.get key).1 = if key ∈ m.order then usage.last key else none) ∧
      m.toLru = calls.foldl (Call.run (size marshal))
        (.empty (if cap ≤ 0 then defaultSeenCap else cap.toNat) Invocation.maxCompletedInvocationBytes) ∧
      ∀ key v, ∃ m', m.set (size marshal) key v = some m' ∧ m'.order <:+ use m.order key ∧
        (∀ keys, keys <:+ use m.order key → keys.length ≤ (if cap ≤ 0 then defaultSeenCap else cap.toNat) →
          (keys.map fun other => (update m.sizes key (some (size marshal v)) other).getD 0).sum ≤
            Invocation.maxCompletedInvocationBytes → keys <:+ m'.order) ∧
        (∀ other ∈ m'.order, (m'.get other).1 = update m.items key (some v) other) ∧
        (size marshal v ≤ Invocation.maxCompletedInvocationBytes → (m'.get key).1 = some v) := by
  have run : ∀ s : LruMap (Value ρ α) × Usage (Value ρ α), Sound cap s →
      ∃ s', calls.foldlM (Completed.step (size marshal)) s = some s' ∧ Sound cap s' ∧
        s'.1.toLru = calls.foldl (Call.run (size marshal)) s.1.toLru := by
    induction calls with
    | nil => exact fun s sound => ⟨s, rfl, sound, rfl⟩
    | cons call rest ih =>
      intro s sound
      obtain ⟨s', first, sound, same⟩ := sound.step (size marshal) call
      rw [foldlM_cons, first, foldl_cons, ← same]
      exact ih s' sound
  have empty : (newLRUMap cap : LruMap (Value ρ α)).Sound :=
    ⟨nodup_nil, by simp [newLRUMap], by simp [newLRUMap], rfl⟩
  obtain ⟨s, ran, sound, same⟩ := run (newLRUMap cap, ⟨[], fun _ => none⟩)
    ⟨rfl, rfl, empty, by simp [LruMap.full, newLRUMap, Invocation.maxCompletedInvocationBytes], suffix_rfl,
      nodup_nil, by simp [newLRUMap]⟩
  have room := sound.room
  simp only [LruMap.full, sound.cap, sound.maxBytes, Bool.or_eq_false_iff, decide_eq_false_iff_not, not_lt] at room
  refine ⟨s.1, s.2, ran, sound.agree, room.1, room.2, sound.recent, sound.nodup, fun key => ?_, same, fun key v => ?_⟩
  · split
    next mem => exact sound.last key mem
    next gone =>
      have absent := mt (sound.agree.items key).1 gone
      simpa [LruMap.get] using absent
  · obtain ⟨m', wrote, -, left⟩ := sound.set (size marshal) key v
    obtain ⟨suffix, longest, -, -, -, items, -⟩ := left
    have fits : ∀ keys : List String, keys.length ≤ (if cap ≤ 0 then defaultSeenCap else cap.toNat) →
        (keys.map fun other => (update s.1.sizes key (some (size marshal v)) other).getD 0).sum ≤
          Invocation.maxCompletedInvocationBytes → (s.1.write key v (size marshal v)).Fits keys := by
      intro keys few small
      exact ⟨few.trans sound.cap.ge, small.trans sound.maxBytes.ge⟩
    rw [LruMap.write_order sound.agree] at suffix longest
    refine ⟨m', wrote, suffix, fun keys inside few small => longest keys inside (fits keys few small), items, ?_⟩
    intro small
    have kept := longest [key] (suffix_append ..) (fits [key] ?_ (by simpa using small))
    · rw [LruMap.get, items key (kept.mem mem_cons_self)]
      exact update_self ..
    · change 1 ≤ _
      split
      · decide
      · omega

/-- One place, two keys: the second `set` drops the key that was used before, and keeps its own. -/
theorem completed_cache_evicts : ∃ m usage,
    [Call.set "a" (Value.other 1), .set "b" (.other 2)].foldlM (Completed.step (size fun _ : Unit => []))
      (newLRUMap 1, ⟨[], fun _ => none⟩) = some (m, usage) ∧
    m.order = ["b"] ∧ usage.recent = ["a", "b"] ∧ (m.get "a").1 = none ∧ (m.get "b").1 = some (.other 2) := by
  obtain ⟨m, usage, ran, -, -, -, -, -, gets, -⟩ := completed_cache_keeps_recent (fun _ : Unit => []) 1
    [.set "a" (.other 1), .set "b" (.other 2)]
  have runs : ([Call.set "a" (Value.other 1), .set "b" (.other 2)].foldlM (Completed.step (size fun _ : Unit => []))
      (newLRUMap 1, ⟨[], fun _ => none⟩)).any (fun s =>
        s.1.order == ["b"] && s.2.recent == ["a", "b"] && s.2.last "b" == some (.other 2)) = true := by
    decide +kernel
  rw [ran, Option.any_some, Bool.and_eq_true, Bool.and_eq_true, beq_iff_eq, beq_iff_eq, beq_iff_eq] at runs
  obtain ⟨⟨order, recent⟩, last⟩ := runs
  exact ⟨m, usage, ran, order, recent, by rw [gets, order]; rfl, by rw [gets, order, last]; rfl⟩

end Pagnet.Sdk.Completed
