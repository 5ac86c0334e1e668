import Pagnet.Json.Roundtrip

/-!
# Go strings and byte slices in JSON

A Go string need not be valid UTF-8. Ranging over it gives its characters, and a
replacement for each byte that belongs to none; that is also what `json.Marshal`
writes, so such a string is not read back as it was. A byte slice is written in
base64 and read back as it was.
-/

namespace Pagnet.Json
open List

instance lawfulSum {α β : Type} [BEq α] [BEq β] [LawfulBEq α] [LawfulBEq β] : LawfulBEq (α ⊕ β) where
  eq_of_beq {a b} h := by
    match a, b with
    | .inl a, .inl b => exact congrArg Sum.inl (eq_of_beq (show (a == b) = true from h))
    | .inr a, .inr b => exact congrArg Sum.inr (eq_of_beq (show (a == b) = true from h))
    | .inl _, .inr _ => cases h
    | .inr _, .inl _ => cases h
  rfl {a} := by
    match a with
    | .inl a => exact (beq_self_eq_true a : (a == a) = true)
    | .inr a => exact (beq_self_eq_true a : (a == a) = true)

/-- A Go string: its characters, and the bytes that are part of none. -/
abbrev GoString := List (Char ⊕ UInt8)

namespace GoString

def ofString (s : String) : GoString := s.toList.map .inl

variable (s : GoString)

/-- `utf8.ValidString`. -/
def isValid : Bool := s.all Sum.isLeft

def coerceChar : Char ⊕ UInt8 → Char
  | .inl c => c
  | .inr _ => '�'

/-- `len` of the string. -/
def byteLength : Nat := (s.map fun c => Sum.elim Char.utf8Size (fun _ => 1) c).sum

/-- The string that is read back from an encoded one. -/
def coerce : GoString := s.map fun c => .inl (coerceChar c)

/-- The characters between the quotes of an encoded string; a replacement is written as it is. -/
def quote : Text := s.flatMap fun c => quoteChar (coerceChar c)

theorem isValid_coerce : s.coerce.isValid := by
  simp [coerce, isValid]

theorem coerce_of_valid {s : GoString} (valid : s.isValid) : s.coerce = s := by
  unfold isValid at valid
  rw [all_eq_true] at valid
  refine (map_congr_left fun c mem => ?_).trans (map_id s)
  cases c with
  | inl c => rfl
  | inr b => simpa using valid _ mem

theorem coerce_eq_iff {s : GoString} : s.coerce = s ↔ s.isValid :=
  ⟨fun same => same ▸ isValid_coerce s, coerce_of_valid⟩

theorem coerce_eq_nil {s : GoString} : s.coerce = [] ↔ s = [] := map_eq_nil_iff

theorem isValid_ofString (s : String) : (ofString s).isValid := by
  simp [ofString, isValid]

end GoString

/-! ## Strings -/

variable (s : GoString)

/-- An encoded Go string. -/
def Value.ofGoString : Value := .string s.quote

/-- A string field that is decoded; `null` leaves it empty. -/
def Value.goString? : Value → Option GoString
  | .null => some []
  | .string raw => some ((unescape raw).map .inl)
  | _ => none

theorem hexValue_digitChar : ∀ n < 16, hexValue (Nat.digitChar n) = n := by
  decide

theorem literalUnits_hex4 {n : Nat} (small : n < 65536) (rest : Text) :
    literalUnits ('\\' :: 'u' :: hex4 n ++ rest) = .inl n :: literalUnits rest := by
  change literalUnits ('\\' :: 'u' :: Nat.digitChar _ :: Nat.digitChar _ :: Nat.digitChar _ :: Nat.digitChar _ :: rest) = _
  rw [literalUnits, hex4Value]
  simp only [hexValue_digitChar _ (Nat.mod_lt _ (by decide : 0 < 16))]
  congr 2
  omega

theorem joinUnits_inl {n : Nat} (plane : n < 0xd800) (rest : List (Nat ⊕ Char)) :
    joinUnits none (.inl n :: rest) = Char.ofNat n :: joinUnits none rest := by
  rw [joinUnits, halfOf, if_neg (by simp; omega)]
  rfl

theorem literalUnits_plain {c : Char} (plain : c ≠ '\\') (rest : Text) :
    literalUnits (c :: rest) = .inr c :: literalUnits rest := by
  rw [literalUnits]
  · exact fun _ _ _ _ _ same => absurd same plain
  · exact fun _ _ same => absurd same plain

/-- An escaped character is read back. -/
theorem unescape_quoteChar (c : Char) (rest : Text) : unescape (quoteChar c ++ rest) = c :: unescape rest := by
  have quoted := quoteChar_quoted c
  generalize quoteChar c = text at quoted
  cases quoted with
  | short listed =>
    simp only [shortEscapes, mem_cons, not_mem_nil, or_false, Prod.mk.injEq] at listed
    rcases listed with ⟨rfl, rfl⟩ | ⟨rfl, rfl⟩ | ⟨rfl, rfl⟩ | ⟨rfl, rfl⟩ | ⟨rfl, rfl⟩ | ⟨rfl, rfl⟩ | ⟨rfl, rfl⟩ <;> rfl
  | hex low =>
    unfold unescape
    rw [literalUnits_hex4 (by omega), joinUnits_inl low, Char.ofNat_toNat]
  | plain printable inside unescaped =>
    unfold unescape
    rw [singleton_append, literalUnits_plain unescaped]
    rfl

theorem unescape_quote : unescape s.quote = s.map GoString.coerceChar := by
  induction s with
  | nil => rfl
  | cons c s ih =>
    rw [GoString.quote, flatMap_cons, map_cons, ← ih]
    exact unescape_quoteChar (GoString.coerceChar c) (GoString.quote s)

/-- A string is read back, but for its invalid bytes. -/
theorem goString?_ofGoString : (Value.ofGoString s).goString? = some s.coerce := by
  unfold Value.ofGoString Value.goString?
  dsimp only
  rw [unescape_quote, map_map]
  rfl

theorem goString?_valid {s : GoString} (valid : s.isValid) : (Value.ofGoString s).goString? = some s := by
  rw [goString?_ofGoString, GoString.coerce_of_valid valid]

theorem size_ofGoString_le : (Value.ofGoString s).size ≤ 6 * s.byteLength + 2 := by
  have inner : size s.quote ≤ 6 * s.byteLength := by
    induction s with
    | nil => rfl
    | cons c s ih =>
      have first := (quoteChar_quoted (GoString.coerceChar c)).size_le
      have counted : 1 ≤ c.elim Char.utf8Size (fun _ => 1) := by
        cases c with
        | inl c => exact c.utf8Size_pos
        | inr b => exact Nat.le_refl 1
      simp only [GoString.quote, GoString.byteLength, flatMap_cons, size_append, map_cons, sum_cons] at ih ⊢
      omega
  simp only [Value.ofGoString, Value.size, render_string, size_cons, size_append, size_nil, size_marks.1]
  omega

theorem quote_literal : RawLiteral s.quote := flatMap_literal (fun c => quoteChar_literal (GoString.coerceChar c)) s

/-! ## Byte slices -/

/-- The value of a digit of `base64.StdEncoding`. -/
def sextet (c : Char) : Option Nat :=
  if 'A' ≤ c && c ≤ 'Z' then some (c.toNat - 'A'.toNat)
  else if 'a' ≤ c && c ≤ 'z' then some (c.toNat - 'a'.toNat + 26)
  else if '0' ≤ c && c ≤ '9' then some (c.toNat - '0'.toNat + 52)
  else if c = '+' then some 62 else if c = '/' then some 63 else none

/-- The three bytes of four digits. -/
def firstByte (a b : Nat) : UInt8 := UInt8.ofNat (a * 4 + b / 16)

def secondByte (b c : Nat) : UInt8 := UInt8.ofNat (b % 16 * 16 + c / 4)

def thirdByte (c d : Nat) : UInt8 := UInt8.ofNat (c % 4 * 64 + d)

/-- `base64.StdEncoding.DecodeString`. -/
def unbase64 : Text → Option (List UInt8)
  | [] => some []
  | [a, b, '=', '='] => do
    let a ← sextet a
    let b ← sextet b
    return [firstByte a b]
  | [a, b, c, '='] => do
    let a ← sextet a
    let b ← sextet b
    let c ← sextet c
    return [firstByte a b, secondByte b c]
  | a :: b :: c :: d :: rest => do
    let a ← sextet a
    let b ← sextet b
    let c ← sextet c
    let d ← sextet d
    let bytes ← unbase64 rest
    return firstByte a b :: secondByte b c :: thirdByte c d :: bytes
  | _ => none

theorem standardDigit_facts : ∀ n < 64, sextet (standardDigit n) = some n ∧ standardDigit n ≠ '=' ∧ standardDigit n ≠ '\\' := by
  decide

theorem firstByte_eq (a b : UInt8) : firstByte (a.toNat / 4) (a.toNat % 4 * 16 + b.toNat / 16) = a := by
  have small := b.toNat_lt
  unfold firstByte
  rw [show a.toNat / 4 * 4 + (a.toNat % 4 * 16 + b.toNat / 16) / 16 = a.toNat by omega]
  exact UInt8.ofNat_toNat

theorem firstByte_last (a : UInt8) : firstByte (a.toNat / 4) (a.toNat % 4 * 16) = a := by
  unfold firstByte
  rw [show a.toNat / 4 * 4 + a.toNat % 4 * 16 / 16 = a.toNat by omega]
  exact UInt8.ofNat_toNat

theorem secondByte_eq (a b c : UInt8) :
    secondByte (a.toNat % 4 * 16 + b.toNat / 16) (b.toNat % 16 * 4 + c.toNat / 64) = b := by
  have small := b.toNat_lt
  have small' := c.toNat_lt
  unfold secondByte
  rw [show (a.toNat % 4 * 16 + b.toNat / 16) % 16 * 16 + (b.toNat % 16 * 4 + c.toNat / 64) / 4 = b.toNat by omega]
  exact UInt8.ofNat_toNat

theorem secondByte_last (a b : UInt8) : secondByte (a.toNat % 4 * 16 + b.toNat / 16) (b.toNat % 16 * 4) = b := by
  have small := b.toNat_lt
  unfold secondByte
  rw [show (a.toNat % 4 * 16 + b.toNat / 16) % 16 * 16 + b.toNat % 16 * 4 / 4 = b.toNat by omega]
  exact UInt8.ofNat_toNat

theorem thirdByte_eq (b c : UInt8) : thirdByte (b.toNat % 16 * 4 + c.toNat / 64) (c.toNat % 64) = c := by
  have small := c.toNat_lt
  unfold thirdByte
  rw [show (b.toNat % 16 * 4 + c.toNat / 64) % 4 * 64 + c.toNat % 64 = c.toNat by omega]
  exact UInt8.ofNat_toNat

variable (bytes : List UInt8)

/-- Bytes are read back from their encoding. -/
theorem unbase64_base64 : unbase64 (base64 standardDigit ['='] bytes) = some bytes := by
  fun_induction base64 standardDigit ['='] bytes with
  | case1 => rfl
  | case2 a =>
    have bound := a.toNat_lt
    obtain ⟨first, -⟩ := standardDigit_facts (a.toNat / 4) (by omega)
    obtain ⟨second, -⟩ := standardDigit_facts (a.toNat % 4 * 16) (by omega)
    simp only [cons_append, nil_append, unbase64, first, second, Option.bind_eq_bind, Option.bind_some,
      firstByte_last]
    rfl
  | case3 a b =>
    have bound := a.toNat_lt
    have bound' := b.toNat_lt
    obtain ⟨first, -⟩ := standardDigit_facts (a.toNat / 4) (by omega)
    obtain ⟨second, -⟩ := standardDigit_facts (a.toNat % 4 * 16 + b.toNat / 16) (by omega)
    obtain ⟨third, other, -⟩ := standardDigit_facts (b.toNat % 16 * 4) (by omega)
    rw [unbase64]
    · simp only [first, second, third, Option.bind_eq_bind, Option.bind_some, firstByte_eq, secondByte_last]
      rfl
    · exact other
  | case4 a b c rest ih =>
    have bound := a.toNat_lt
    have bound' := b.toNat_lt
    have bound'' := c.toNat_lt
    obtain ⟨first, -⟩ := standardDigit_facts (a.toNat / 4) (by omega)
    obtain ⟨second, -⟩ := standardDigit_facts (a.toNat % 4 * 16 + b.toNat / 16) (by omega)
    obtain ⟨third, other, -⟩ := standardDigit_facts (b.toNat % 16 * 4 + c.toNat / 64) (by omega)
    obtain ⟨fourth, other', -⟩ := standardDigit_facts (c.toNat % 64) (by omega)
    rw [unbase64]
    · simp only [first, second, third, fourth, ih, Option.bind_eq_bind, Option.bind_some, firstByte_eq, secondByte_eq,
        thirdByte_eq]
      rfl
    · exact fun same => absurd same other
    · exact fun same => absurd same other'

theorem unescape_of_plain {raw : Text} (plain : ∀ c ∈ raw, c ≠ '\\') : unescape raw = raw := by
  induction raw with
  | nil => rfl
  | cons c raw ih =>
    have rest := ih fun x mem => plain x (mem_cons_of_mem _ mem)
    unfold unescape at rest ⊢
    rw [literalUnits_plain (plain c mem_cons_self), joinUnits, rest]

/-- What holds of the digits and of the padding holds of every character. -/
theorem base64_forall {P : Char → Prop} (digit : ∀ n < 64, P (standardDigit n)) (padding : P '=') (bytes : List UInt8) :
    ∀ c ∈ base64 standardDigit ['='] bytes, P c := by
  fun_induction base64 standardDigit ['='] bytes with
  | case1 => exact forall_mem_nil _
  | case2 a =>
    have bound := a.toNat_lt
    simp only [cons_append, nil_append, forall_mem_cons]
    exact ⟨digit _ (by omega), digit _ (by omega), padding, padding, forall_mem_nil _⟩
  | case3 a b =>
    have bound := a.toNat_lt
    have bound' := b.toNat_lt
    simp only [forall_mem_cons]
    exact ⟨digit _ (by omega), digit _ (by omega), digit _ (by omega), padding, forall_mem_nil _⟩
  | case4 a b c rest ih =>
    have bound := a.toNat_lt
    have bound' := b.toNat_lt
    have bound'' := c.toNat_lt
    simp only [forall_mem_cons]
    exact ⟨digit _ (by omega), digit _ (by omega), digit _ (by omega), digit _ (by omega), ih⟩

theorem base64_plain : ∀ c ∈ base64 standardDigit ['='] bytes, c ≠ '\\' :=
  base64_forall (fun n small => (standardDigit_facts n small).2.2) (by decide) bytes

/-- A byte slice; an empty one is written as `nil` is. -/
def Value.ofSlice : Value := if bytes = [] then .null else .ofBytes bytes

/-- A byte slice that is decoded. -/
def Value.bytes? : Value → Option (List UInt8)
  | .null => some []
  | .string raw => unbase64 (unescape raw)
  | _ => none

theorem bytes?_ofSlice : (Value.ofSlice bytes).bytes? = some bytes := by
  unfold Value.ofSlice
  split
  case isTrue empty =>
    rw [empty]
    rfl
  case isFalse =>
    unfold Value.ofBytes Value.bytes?
    dsimp only
    rw [unescape_of_plain (base64_plain bytes), unbase64_base64]

theorem three_size_ofSlice_le : 3 * (Value.ofSlice bytes).size ≤ 4 * bytes.length + 14 := by
  have ascii : ∀ text : Text, (∀ ch ∈ text, ch.utf8Size = 1) → size text = text.length := by
    intro text each
    rw [size, map_congr_left each]
    simp
  have digits : 3 * (base64 standardDigit ['='] bytes).length ≤ 4 * bytes.length + 8 := by
    fun_induction base64 standardDigit ['='] bytes with
    | case4 a b c rest ih => simp only [length_cons] at ih ⊢; omega
    | _ => simp
  unfold Value.ofSlice
  split
  · exact (by decide : 3 * Value.null.size ≤ 14).trans (Nat.le_add_left _ _)
  simp only [Value.ofBytes, Value.size, render_string, size_cons, size_append, size_nil, size_marks.1,
    ascii _ (base64_forall (by decide) (by decide) bytes)]
  omega

end Pagnet.Json
