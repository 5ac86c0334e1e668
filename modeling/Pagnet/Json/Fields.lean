import Mathlib.Algebra.Order.BigOperators.Group.List
import Mathlib.Data.List.Nodup
import Mathlib.Data.List.TakeWhile
import Pagnet.Json.GoString

/-!
# Reading encoded structs

An encoded struct or slice is read back by its member names and elements: what the
encoder writes is well-formed, and a field that was written is found under its name.
-/

namespace Pagnet.Json
open List

/-- The member of an object. -/
def member? (name : String) : Members → Option Value
  | .nil => none
  | .cons key value rest => if key = Json.quote name then some value else member? name rest

theorem unescape_quoted (s : String) : unescape (quote s) = s.toList := by
  have same : quote s = (GoString.ofString s).quote := by
    rw [quote_eq]
    unfold GoString.quote GoString.ofString
    rw [flatMap_map]
    rfl
  rw [same, unescape_quote, GoString.ofString, map_map]
  exact map_id _

theorem quote_injective {a b : String} (h : quote a = quote b) : a = b := by
  have same := congrArg unescape h
  rw [unescape_quoted, unescape_quoted] at same
  exact String.toList_inj.1 same

theorem member?_ofFields_cons (name key : String) (v : Value) (rest : List (String × Value)) :
    member? name (.ofFields ((key, v) :: rest)) = if key = name then some v else member? name (.ofFields rest) := by
  rw [Members.ofFields, member?]
  by_cases same : key = name
  · rw [if_pos same, if_pos (congrArg _ same)]
  · rw [if_neg same, if_neg fun also => same (quote_injective also)]

/-- The member of an object whose decoded name is `name`. -/
def field? (name : String) : Members → Option Value
  | .nil => none
  | .cons key value rest => if unescape key = name.toList then some value else field? name rest

/-- Every decoded name is one of `names`. -/
def Members.known (names : List String) : Members → Bool
  | .nil => true
  | .cons key _ rest => names.any (fun name => unescape key = name.toList) && rest.known names

theorem field?_ofFields_cons (name key : String) (v : Value) (rest : List (String × Value)) :
    field? name (.ofFields ((key, v) :: rest)) = if key = name then some v else field? name (.ofFields rest) := by
  rw [Members.ofFields, field?, unescape_quoted]
  by_cases same : key = name
  · rw [if_pos same, if_pos (congrArg _ same)]
  · rw [if_neg same, if_neg fun also => same (String.toList_inj.1 also)]

/-- A field of a struct; an absent member leaves it as it is. -/
def field {α : Type} (name : String) (members : Members) (absent : α) (decode : Value → Option α) : Option α :=
  match field? name members with
  | none => some absent
  | some v => decode v

section

variable {α : Type} {name key : String} {rest : List (String × Value)} {absent : α} {decode : Value → Option α}

@[simp] theorem field_cons_self (v : Value) :
    field name (.ofFields ((name, v) :: rest)) absent decode = decode v := by
  unfold field
  rw [field?_ofFields_cons, if_pos rfl]

theorem field_cons_ne (other : key ≠ name) (v : Value) :
    field name (.ofFields ((key, v) :: rest)) absent decode = field name (.ofFields rest) absent decode := by
  unfold field
  rw [field?_ofFields_cons, if_neg other]

theorem field_absent (others : ∀ f ∈ rest, f.1 ≠ name) : field name (.ofFields rest) absent decode = some absent := by
  induction rest with
  | nil => rfl
  | cons f rest ih =>
    obtain ⟨first, others⟩ := forall_mem_cons.1 others
    rw [field_cons_ne first, ih others]

/-- A field that is left out when it is empty is read back. -/
theorem field_omit_self [DecidableEq α] {empty a : α} {encode : α → Value} (reads : decode (encode a) = some a)
    (others : ∀ f ∈ rest, f.1 ≠ name) : field name (.ofFields (omitEmpty name empty encode a ++ rest)) empty decode = some a := by
  unfold omitEmpty
  split
  next is_empty => rw [nil_append, field_absent others, is_empty]
  · rw [singleton_append, field_cons_self, reads]

theorem field_omit_ne {β : Type} [DecidableEq β] {empty b : β} {encode : β → Value} (other : key ≠ name) :
    field name (.ofFields (omitEmpty key empty encode b ++ rest)) absent decode =
      field name (.ofFields rest) absent decode := by
  unfold omitEmpty
  split
  · rfl
  · rw [singleton_append, field_cons_ne other]

end

theorem mem_omitEmpty {β : Type} [DecidableEq β] {key : String} {empty b : β} {encode : β → Value} {f : String × Value}
    (mem : f ∈ omitEmpty key empty encode b) : f = (key, encode b) := by
  unfold omitEmpty at mem
  split at mem
  · cases mem
  · exact mem_singleton.1 mem

theorem omitEmpty_names {β : Type} [DecidableEq β] (key : String) (empty b : β) (encode : β → Value) :
    ((omitEmpty key empty encode b).map (·.1)).Sublist [key] := by
  unfold omitEmpty
  split
  · exact nil_sublist _
  · exact List.Sublist.refl _

variable {fields : List (String × Value)} {n : Nat} {values : List Value} {v : Value}

theorem known_ofFields {names : List String} (listed : ∀ f ∈ fields, f.1 ∈ names) :
    (Members.ofFields fields).known names := by
  induction fields with
  | nil => rfl
  | cons f rest ih =>
    obtain ⟨first, others⟩ := forall_mem_cons.1 listed
    rw [Members.ofFields, Members.known, ih others, Bool.and_true, any_eq_true]
    exact ⟨f.1, first, by rw [unescape_quoted]; exact decide_eq_true rfl⟩

/-- Field names that differ are distinct members. -/
theorem names_nodup (names : (fields.map (·.1)).Nodup) : (fields.map fun f => unescape (quote f.1)).Nodup := by
  have same : (fields.map fun f => unescape (quote f.1)) = (fields.map (·.1)).map String.toList := by
    rw [map_map]
    exact map_congr_left fun f _ => unescape_quoted f.1
  rw [same]
  exact List.Nodup.map (fun a b h => String.toList_inj.1 h) names

/-! ## Bounds -/

theorem foldr_max_le {depths : List Nat} (each : ∀ d ∈ depths, d ≤ n) : depths.foldr max 0 ≤ n := by
  induction depths with
  | nil => exact Nat.zero_le n
  | cons d rest ih =>
    obtain ⟨first, others⟩ := forall_mem_cons.1 each
    exact Nat.max_le.2 ⟨first, ih others⟩

theorem depth_ofFields_le (each : ∀ f ∈ fields, f.2.depth ≤ n) : (Value.ofFields fields).depth ≤ n + 1 := by
  rw [depth_ofFields]
  exact Nat.succ_le_succ (foldr_max_le (forall_mem_map.2 each))

theorem depth_ofList_le (each : ∀ v ∈ values, v.depth ≤ n) : (Value.ofList values).depth ≤ n + 1 := by
  rw [depth_ofList]
  exact Nat.succ_le_succ (foldr_max_le (forall_mem_map.2 each))

theorem sum_succ_le {α : Type} {l : List α} {g : α → Nat} (each : ∀ a ∈ l, g a ≤ n) :
    (l.map fun a => 1 + g a).sum ≤ l.length * (1 + n) := by
  have bound := sum_le_card_nsmul (l.map fun a => 1 + g a) (1 + n)
    (forall_mem_map.2 fun a mem => Nat.add_le_add_left (each a mem) 1)
  rwa [length_map, Nat.nsmul_eq_mul] at bound

theorem members_ofFields_le (each : ∀ f ∈ fields, f.2.members ≤ n) :
    (Value.ofFields fields).members ≤ fields.length * (1 + n) := by
  rw [members_ofFields]
  exact sum_succ_le each

/-- A struct is longer than each of its fields. -/
theorem size_le_ofFields {name : String} (mem : (name, v) ∈ fields) : v.size ≤ (Value.ofFields fields).size :=
  (le_sum_of_mem (mem_map_of_mem (f := fun field => field.2.size) mem)).trans (sum_le_size_ofFields fields)

/-! ## What is written is well-formed -/

theorem quote_string_literal (s : String) : RawLiteral (quote s) := flatMap_literal quoteChar_literal (chars s)

theorem ofFields_wellFormed (values : ∀ f ∈ fields, f.2.WellFormed) : (Value.ofFields fields).WellFormed := by
  induction fields with
  | nil => trivial
  | cons f rest ih =>
    obtain ⟨first, rest_formed⟩ := forall_mem_cons.1 values
    exact ⟨quote_string_literal f.1, first, ih rest_formed⟩

theorem ofList_wellFormed (each : ∀ v ∈ values, v.WellFormed) : (Value.ofList values).WellFormed := by
  induction values with
  | nil => trivial
  | cons v rest ih =>
    obtain ⟨first, rest_formed⟩ := forall_mem_cons.1 each
    exact ⟨first, ih rest_formed⟩

theorem ofGoString_wellFormed (s : GoString) : (Value.ofGoString s).WellFormed := quote_literal s

/-- The text of a value is accepted as the value is. -/
theorem decodesText_render (formed : v.WellFormed) (l : WireLimits) : decodesText l v.render = decodesValue l v := by
  unfold decodesText decodesValue
  rw [parse_render formed, Option.any_some, Value.size, Bool.and_assoc _ (validateValue l 0 v 0).isSome]

/-- A text of plain characters is a literal as it stands. -/
theorem plain_literal {raw : Text} (plain : ∀ c ∈ raw, (c.toNat < 0x20 || c == '\\') = false ∧ c ≠ '"') : RawLiteral raw := by
  induction raw with
  | nil => exact .nil
  | cons c raw ih =>
    obtain ⟨⟨printable, inside⟩, rest⟩ := forall_mem_cons.1 plain
    exact .plain printable inside (ih rest)

theorem ofBytes_wellFormed (bytes : List UInt8) : (Value.ofBytes bytes).WellFormed :=
  plain_literal (base64_forall (by decide) (by decide) bytes)

/-! ## Numbers -/

/-- The number that decimal digits stand for. -/
def decimal? (digits : Text) : Option Nat := if allDigits digits then some (Nat.ofDigitChars 10 digits 0) else none

theorem decimal?_toDigits (n : Nat) : decimal? (Nat.toDigits 10 n) = some n := by
  have digits : allDigits (Nat.toDigits 10 n) := by
    unfold allDigits
    rw [Bool.and_eq_true, all_eq_true, Bool.not_eq_true', isEmpty_eq_false_iff]
    exact ⟨Nat.toDigits_ne_nil, fun c mem => Nat.isDigit_of_mem_toDigits (by decide) (by decide) mem⟩
  unfold decimal?
  rw [if_pos digits, Nat.ofDigitChars_toDigits (by decide) (by decide)]

/-- A number that is encoded. -/
def Value.ofNat (n : Nat) : Value := .number (Nat.toDigits 10 n)

/-- A natural number that is decoded. -/
def Value.nat? : Value → Option Nat
  | .number literal => decimal? literal
  | _ => none

theorem nat?_ofNat (n : Nat) : (Value.ofNat n).nat? = some n := decimal?_toDigits n

/-- The digits of a positive number have no leading zero. -/
theorem toDigits_head (positive : 0 < n) : ∃ c rest, Nat.toDigits 10 n = c :: rest ∧ c.isDigit ∧ c ≠ '0' ∧
    ∀ d ∈ rest, d.isDigit := by
  induction n using Nat.strong_induction_on with
  | h n ih =>
    by_cases small : n < 10
    · have single : ∀ n < 10, 0 < n → (Nat.digitChar n).isDigit ∧ Nat.digitChar n ≠ '0' := by decide
      obtain ⟨digit, nonzero⟩ := single n small positive
      exact ⟨_, [], Nat.toDigits_of_lt_base small, digit, nonzero, forall_mem_nil _⟩
    · obtain ⟨c, rest, front, digit, nonzero, digits⟩ := ih (n / 10) (by omega) (by omega)
      have last : n % 10 < 10 := Nat.mod_lt n (by decide)
      have split : Nat.toDigits 10 (n / 10) ++ Nat.toDigits 10 (n % 10) = Nat.toDigits 10 n := by
        rw [Nat.toDigits_append_toDigits (by decide) (by omega) last, Nat.div_add_mod]
      refine ⟨c, rest ++ Nat.toDigits 10 (n % 10), ?_, digit, nonzero, forall_mem_append.2 ⟨digits, fun d mem => ?_⟩⟩
      · rw [← split, front, cons_append]
      · exact Nat.isDigit_of_mem_toDigits (by decide) (by decide) mem

theorem ofNat_wellFormed (n : Nat) : (Value.ofNat n).WellFormed := by
  have chars : ∀ c ∈ Nat.toDigits 10 n, isNumberChar c := by
    intro c mem
    have digit : c.isDigit := Nat.isDigit_of_mem_toDigits (by decide) (by decide) mem
    simp [isNumberChar, digit]
  refine ⟨?_, all_eq_true.2 chars⟩
  rcases Nat.eq_zero_or_pos n with rfl | positive
  · decide
  obtain ⟨c, rest, digits, digit, nonzero, all⟩ := toDigits_head positive
  have minus : c ≠ '-' := fun same => by rw [same] at digit; exact absurd digit (by decide)
  rw [digits]
  unfold validNumber
  split
  next same => exact absurd (List.cons.inj same).1 minus
  · unfold validUnsigned
    split
    next same => exact absurd (List.cons.inj same).1 nonzero
    next same =>
      obtain ⟨rfl, rfl⟩ := List.cons.inj same
      rw [digit, Bool.true_and, dropWhile_eq_nil_iff.2 all]
      rfl
    next same => cases same

end Pagnet.Json
