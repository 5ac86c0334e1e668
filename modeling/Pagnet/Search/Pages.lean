import Pagnet.Search.Checkpoint

/-!
# Reading pages

A section of a checkpoint is read page by page, and each page row by row. Which
rows are accepted does not depend on how they are cut into pages, only on the
rows read so far. `Reader` says this of one section, with the rule for one row
as a field; what follows is the same for both sections.
-/

namespace Pagnet.Search
open List

variable {S Row : Type} {c : Config S} {header : CheckpointHeader S} {load : CheckpointLoader} {part : String}

theorem not_lt_empty (s : String) : ¬ s < "" := by
  rw [String.lt_iff_toList_lt]
  simp

/-- The key of the last row, behind which the next page starts. -/
def lastKey (key : Row → String) (rows : List Row) : String := ((rows.getLast?).map key).getD ""

theorem lastKey_append (key : Row → String) (rows : List Row) {more : List Row} (nonempty : more ≠ []) :
    lastKey key (rows ++ more) = lastKey key more := by
  rw [lastKey, lastKey, getLast?_append_of_ne_nil _ nonempty]

@[simp] theorem lastKey_singleton (key : Row → String) (r : Row) : lastKey key [r] = key r := rfl

variable {key : Row → String} {r : Row} {rows : List Row}

/-- The key of a row is behind those of the rows in front of it. -/
theorem lastKey_lt_snoc
    (ascending : (rows ++ [r]).Pairwise fun a b => key a < key b) (named : key r ≠ "") : lastKey key rows < key r := by
  cases found : rows.getLast? with
  | none =>
    rw [lastKey, found]
    exact lt_of_le_of_ne (not_lt.1 (not_lt_empty _)) named.symm
  | some a =>
    rw [lastKey, found]
    exact (pairwise_append.1 ascending).2.2 a (mem_of_getLast? found) r (by simp)

/-- It is enough to compare a key with the last one. -/
theorem ascending_snoc (before : rows.Pairwise fun a b => key a < key b) (later : lastKey key rows < key r) :
    (rows ++ [r]).Pairwise fun a b => key a < key b := by
  refine pairwise_append.2 ⟨before, pairwise_singleton .., fun a mem b new => ?_⟩
  rw [mem_singleton.1 new]
  refine lt_of_le_of_lt ?_ later
  obtain ⟨init, last, rfl⟩ := (eq_nil_or_concat rows).resolve_left (ne_nil_of_mem mem)
  rw [concat_eq_append] at mem before ⊢
  rw [lastKey_append _ _ (by simp), lastKey_singleton]
  rcases mem_append.1 mem with old | same
  · exact ((pairwise_append.1 before).2.2 a old last (by simp)).le
  · rw [mem_singleton.1 same]

/-- How the rows of one section are read: `accepts` are the rows that are not
refused, and `built` is the state they leave. -/
structure Reader (c : Config S) (header : CheckpointHeader S) (part : String) (Row : Type) where
  key : Row → String
  rowsOf : CheckpointPage → List Row
  /-- The page holds no rows of the other section, and not too many. -/
  plain : CheckpointPage → Prop
  absorb : Restoring × String → Row → Except Error (Restoring × String)
  /-- The rows that the header announces. -/
  limit : Nat
  accepts : List Row → Prop
  built : List Row → Restoring → Prop
  page_ok : ∀ {after st p out}, absorbPage c header part after st p = .ok out ↔
    plain p ∧ ∃ st' last, (rowsOf p).foldlM absorb (st, after) = .ok (st', last) ∧ out = (st', last, (rowsOf p).length)
  step : ∀ {rows st}, built rows st → ∀ r,
    (∃ st', absorb (st, lastKey key rows) r = .ok (st', key r) ∧ built (rows ++ [r]) st') ∨
      ¬ accepts (rows ++ [r]) ∧ ∃ e, absorb (st, lastKey key rows) r = .error e
  accepted : ∀ {rows st}, built rows st → accepts rows
  initial : ∀ {rows more}, accepts (rows ++ more) → accepts rows
  ascending : ∀ {rows}, accepts rows → rows.Pairwise fun a b => key a < key b
  named : ∀ {rows}, accepts rows → ∀ r ∈ rows, key r ≠ ""
  counted : ∀ {rows st}, built rows st →
    (decide (header.referenceRows < st.references) || decide (header.revisionRows < st.revisions)) =
      decide (limit < rows.length)

namespace Reader

variable (rd : Reader c header part Row) {rows more : List Row} {st st' : Restoring}

/-- The rows of a page, one after the other. -/
theorem fold (built : rd.built rows st) (more : List Row) :
    (∃ st', more.foldlM rd.absorb (st, lastKey rd.key rows) = .ok (st', lastKey rd.key (rows ++ more)) ∧
      rd.built (rows ++ more) st') ∨
    ¬ rd.accepts (rows ++ more) ∧ ∃ e, more.foldlM rd.absorb (st, lastKey rd.key rows) = .error e := by
  induction more generalizing rows st with
  | nil => exact .inl ⟨st, by rw [append_nil]; rfl, by rwa [append_nil]⟩
  | cons r more ih =>
    have split : rows ++ r :: more = (rows ++ [r]) ++ more := by simp
    rw [split, foldlM_cons]
    rcases rd.step built r with ⟨st₁, read, built₁⟩ | ⟨refused, e, failed⟩
    · have key_is : lastKey rd.key (rows ++ [r]) = rd.key r := lastKey_append rd.key rows (by simp)
      rw [read, ok_bind, ← key_is]
      exact ih built₁
    · exact .inr ⟨fun all => refused (rd.initial all), e, by rw [failed, error_bind]⟩

/-- Keys ascend from page to page. -/
theorem lastKey_lt (accepts : rd.accepts (rows ++ more)) (nonempty : more ≠ []) :
    lastKey rd.key rows < lastKey rd.key (rows ++ more) := by
  obtain ⟨init, last, rfl⟩ := (eq_nil_or_concat more).resolve_left nonempty
  rw [lastKey_append rd.key rows nonempty, concat_eq_append, lastKey_append rd.key init (by simp), lastKey_singleton]
  rw [concat_eq_append] at accepts
  refine lastKey_lt_snoc ((rd.ascending accepts).sublist ?_) (rd.named accepts last (by simp))
  exact (sublist_append_right init [last]).append_left rows

end Reader

/-! ## Pages -/

/-- A page of the storage that is one of this section, from this key on. -/
structure Loaded (c : Config S) (header : CheckpointHeader S) (load : CheckpointLoader) (part after : String)
    (p : CheckpointPage) : Prop where
  loaded : loadPage load part after = .ok p
  checksum : checksumPage c p = .ok p.sha256
  part : p.section = part
  generation : p.generation = header.generation
  after : p.after = after

/-- What one turn of the loop over the pages does. -/
theorem loadSection_ok {fuel : Nat} {after : String} {st st' : Restoring} :
    loadSection c header load part (fuel + 1) after st = .ok st' ↔ ∃ p st₁ last rows, Loaded c header load part after p ∧
      absorbPage c header part after st p = .ok (st₁, last, rows) ∧
      (decide (header.referenceRows < st₁.references) || decide (header.revisionRows < st₁.revisions)) = false ∧
      (p.next = "" ∧ st' = st₁ ∨ p.next ≠ "" ∧ rows ≠ 0 ∧ p.next = last ∧ after < p.next ∧
        loadSection c header load part fuel p.next st₁ = .ok st') := by
  constructor
  · intro h
    obtain ⟨p, loaded, h⟩ := of_bind h
    obtain ⟨sum, checksum, h⟩ := of_bind h
    obtain ⟨same, h⟩ := of_refuse h
    obtain ⟨⟨st₁, last, rows⟩, absorbed, h⟩ := of_bind h
    obtain ⟨counts, h⟩ := of_refuse h
    simp only [Bool.or_eq_false_iff, bne_eq_false_iff_eq] at same
    obtain ⟨⟨⟨sum_is, part_is⟩, generation⟩, after_is⟩ := same
    refine ⟨p, st₁, last, rows, ⟨loaded, sum_is ▸ checksum, part_is, generation, after_is⟩, absorbed, counts, ?_⟩
    split at h
    case isTrue final => exact .inl ⟨final, (Except.ok.inj h).symm⟩
    case isFalse more =>
      obtain ⟨valid, h⟩ := of_refuse h
      simp only [Bool.or_eq_false_iff, bne_eq_false_iff_eq, beq_eq_false_iff_ne, decide_eq_false_iff_not] at valid
      exact .inr ⟨more, valid.1.1, valid.1.2, not_le.1 valid.2, h⟩
  · rintro ⟨p, st₁, last, rows, loaded, absorbed, counts, next⟩
    refine bind_eq_ok.2 ⟨p, loaded.loaded, bind_eq_ok.2 ⟨p.sha256, loaded.checksum, refuse_bind_eq_ok.2 ⟨?_, ?_⟩⟩⟩
    · simp [loaded.part, loaded.generation, loaded.after]
    refine bind_eq_ok.2 ⟨(st₁, last, rows), absorbed, refuse_bind_eq_ok.2 ⟨counts, ?_⟩⟩
    rcases next with ⟨final, rfl⟩ | ⟨more, nonempty, is_last, later, rest⟩
    · rw [if_pos final]
      rfl
    · rw [if_neg more]
      refine refuse_bind_eq_ok.2 ⟨?_, rest⟩
      simp [nonempty, is_last.symm, later]

/-- Pages from a key on, each starting where the one before it ends, and their rows. -/
inductive Chain (rd : Reader c header part Row) (load : CheckpointLoader) : String → List Row → Prop where
  | final {after : String} {p : CheckpointPage} (loaded : Loaded c header load part after p) (plain : rd.plain p)
      (next : p.next = "") : Chain rd load after (rd.rowsOf p)
  | more {after : String} {p : CheckpointPage} {rest : List Row} (loaded : Loaded c header load part after p)
      (plain : rd.plain p) (nonempty : rd.rowsOf p ≠ []) (next : p.next = lastKey rd.key (rd.rowsOf p))
      (tail : Chain rd load p.next rest) : Chain rd load after (rd.rowsOf p ++ rest)

namespace Reader

variable (rd : Reader c header part Row) {rows more : List Row} {st st' : Restoring}

variable {fuel : Nat}

/-- A section that was read is a chain of pages whose rows are accepted. -/
theorem chain_of_load (built : rd.built rows st)
    (h : loadSection c header load part fuel (lastKey rd.key rows) st = .ok st') :
    ∃ more, Chain rd load (lastKey rd.key rows) more ∧ rd.built (rows ++ more) st' ∧ (rows ++ more).length ≤ rd.limit := by
  induction fuel generalizing rows st with
  | zero => cases h
  | succ fuel ih =>
    obtain ⟨p, st₁, last, n, loaded, absorbed, counts, next⟩ := loadSection_ok.1 h
    obtain ⟨plain, st₂, last', folded, same⟩ := rd.page_ok.1 absorbed
    obtain ⟨rfl, rfl, rfl⟩ : st₁ = st₂ ∧ last = last' ∧ n = (rd.rowsOf p).length := by simpa using same
    obtain ⟨st₂, folded', built₁⟩ | ⟨-, e, failed⟩ := rd.fold built (rd.rowsOf p)
    case inr => rw [failed] at folded; cases folded
    obtain ⟨rfl, rfl⟩ : st₂ = st₁ ∧ lastKey rd.key (rows ++ rd.rowsOf p) = last := by simpa [folded'] using folded
    rw [rd.counted built₁, decide_eq_false_iff_not, not_lt] at counts
    rcases next with ⟨final, rfl⟩ | ⟨-, nonempty, is_last, -, rest⟩
    · exact ⟨_, .final loaded plain final, built₁, counts⟩
    · have some_rows : rd.rowsOf p ≠ [] := fun empty => nonempty (by rw [empty]; rfl)
      rw [is_last] at rest
      obtain ⟨more, tail, built', bound⟩ := ih built₁ rest
      rw [append_assoc] at built' bound
      refine ⟨rd.rowsOf p ++ more, .more loaded plain some_rows ?_ ?_, built', bound⟩
      · rw [is_last, lastKey_append rd.key rows some_rows]
      · rw [is_last]
        exact tail

/-- A chain of pages whose rows are accepted is read. -/
theorem load_of_chain {after : String} (chain : Chain rd load after more) (built : rd.built rows st)
    (starts : after = lastKey rd.key rows) (accepts : rd.accepts (rows ++ more))
    (bound : (rows ++ more).length ≤ rd.limit) (enough : more.length < fuel) :
    ∃ st', loadSection c header load part fuel after st = .ok st' ∧ rd.built (rows ++ more) st' := by
  subst starts
  obtain ⟨fuel, rfl⟩ : ∃ n, fuel = n + 1 := ⟨fuel - 1, by omega⟩
  generalize from_key : lastKey rd.key rows = after at chain
  induction chain generalizing rows st fuel with
  | @final after p loaded plain next =>
    subst from_key
    obtain ⟨st₁, folded, built₁⟩ | ⟨refused, -⟩ := rd.fold built (rd.rowsOf p)
    case inr => exact absurd accepts refused
    refine ⟨st₁, loadSection_ok.2 ⟨p, st₁, _, _, loaded, rd.page_ok.2 ⟨plain, st₁, _, folded, rfl⟩, ?_, .inl ⟨next, rfl⟩⟩,
      built₁⟩
    rw [rd.counted built₁, decide_eq_false_iff_not, not_lt]
    exact bound
  | @more after p rest loaded plain nonempty next tail ih =>
    subst from_key
    rw [← append_assoc] at accepts bound
    obtain ⟨st₁, folded, built₁⟩ | ⟨refused, -⟩ := rd.fold built (rd.rowsOf p)
    case inr => exact absurd (rd.initial accepts) refused
    have key_is : lastKey rd.key (rows ++ rd.rowsOf p) = p.next := by rw [lastKey_append rd.key rows nonempty, next]
    have later := rd.lastKey_lt (rd.initial accepts) nonempty
    have some_rows := length_pos_iff.2 nonempty
    simp only [length_append] at enough bound
    obtain ⟨fuel, rfl⟩ : ∃ n, fuel = n + 1 := ⟨fuel - 1, by omega⟩
    obtain ⟨st', read, built'⟩ := ih built₁ accepts (by simpa [Nat.add_assoc] using bound) fuel (by omega) key_is
    rw [append_assoc] at built'
    refine ⟨st', loadSection_ok.2 ⟨p, st₁, _, _, loaded, rd.page_ok.2 ⟨plain, st₁, _, folded, rfl⟩, ?_,
      .inr ⟨?_, some_rows.ne', key_is.symm, key_is ▸ later, read⟩⟩, built'⟩
    · rw [rd.counted built₁, decide_eq_false_iff_not, not_lt, length_append]
      omega
    · rw [← key_is]
      intro empty
      rw [empty] at later
      exact not_lt_empty _ later

end Reader

end Pagnet.Search
