import Mathlib.Algebra.Order.BigOperators.Group.List
import Mathlib.Data.List.OfFn
import Mathlib.Data.String.Basic
import Pagnet.Json.Value

/-!
# Encoded times, digests and bytes

The text that `time.Time`, a hexadecimal digest and a byte slice are encoded as,
and the white space that is trimmed from a text.
-/

namespace Pagnet.Json
open List

/-- `time.Time` as its encoding carries it: nanoseconds since January 1 of year
1, UTC, and the offset of its zone in minutes. -/
structure Timestamp where
  instant : Int
  offset : Int
  deriving DecidableEq, Repr

namespace Timestamp

variable (t : Timestamp)

def isZero : Bool := t.instant == 0

def utc : Timestamp := { t with offset := 0 }

/-- Days since the epoch of year 1 as year, month and day. -/
def civil (days : Int) : Int × Int × Int :=
  let z := days + 306
  let era := z / 146097
  let doe := z % 146097
  let yoe := (doe - doe / 1460 + doe / 36524 - doe / 146096) / 365
  let doy := doe - (365 * yoe + yoe / 4 - yoe / 100)
  let mp := (5 * doy + 2) / 153
  let month := if mp < 10 then mp + 3 else mp - 9
  (yoe + era * 400 + (if month ≤ 2 then 1 else 0), month, doy - (153 * mp + 2) / 5 + 1)

def padded (width : Nat) (n : Int) : Text :=
  let digits := (toString n).toList
  List.replicate (width - digits.length) '0' ++ digits

/-- The fraction of a second without its trailing zeros. -/
def fraction (nanos : Int) : Text :=
  if nanos = 0 then [] else '.' :: ((padded 9 nanos).reverse.dropWhile (· == '0')).reverse

def zone (offset : Int) : Text :=
  if offset = 0 then ['Z']
  else
    (if offset < 0 then '-' else '+') :: (padded 2 (offset.natAbs / 60) ++ ':' :: padded 2 (offset.natAbs % 60))

/-- RFC 3339 with nanoseconds. -/
def format : Text :=
  let local_ := t.instant + t.offset * 60000000000
  let seconds := local_ / 1000000000
  let (year, month, day) := civil (seconds / 86400)
  let clock := seconds % 86400
  padded 4 year ++ '-' :: padded 2 month ++ '-' :: padded 2 day ++ 'T' :: padded 2 (clock / 3600) ++
    ':' :: padded 2 (clock / 60 % 60) ++ ':' :: padded 2 (clock % 60) ++ fraction (local_ % 1000000000) ++
    zone t.offset

/-- `MarshalJSON` accepts the years 0 to 9999 and zones less than a day off only. -/
def encodable : Bool :=
  let year := (civil ((t.instant + t.offset * 60000000000) / 1000000000 / 86400)).1
  0 ≤ year && year ≤ 9999 && t.offset.natAbs / 60 ≤ 23

def toJson : Value := .string t.format

end Timestamp

/-- The bytes of a text, in UTF-8. -/
def bytesOf (text : Text) : List UInt8 := text.flatMap String.utf8EncodeChar

def Elements.ofList : List Value → Elements
  | [] => .nil
  | value :: rest => .cons value (Elements.ofList rest)

/-- An encoded slice. -/
def Value.ofList (values : List Value) : Value := .array (Elements.ofList values)

/-- `omitempty` of a string or a slice: no member for an empty one. -/
def omitEmpty {α : Type} [DecidableEq α] (key : String) (empty : α) (encode : α → Value) (a : α) :
    List (String × Value) :=
  if a = empty then [] else [(key, encode a)]

/-- `json.Marshal` of a raw message: it is compacted, and escaped. -/
def marshalRaw (text : Text) : Option Value := if valid text then (parse text).map Value.escapeHTML else none

variable (bytes : Fin 32 → UInt8)

/-- `hex.EncodeToString`. -/
def hexEncode : String :=
  String.ofList ((List.ofFn bytes).flatMap fun b => [Nat.digitChar (b.toNat / 16), Nat.digitChar (b.toNat % 16)])

/-- The digits of `base64.StdEncoding`. -/
def standardDigit (n : Nat) : Char :=
  if n < 26 then Char.ofNat (n + 'A'.toNat) else if n < 52 then Char.ofNat (n - 26 + 'a'.toNat)
  else if n < 62 then Char.ofNat (n - 52 + '0'.toNat) else if n = 62 then '+' else '/'

/-- The digits of `base64.URLEncoding`. -/
def urlDigit (n : Nat) : Char := if n = 62 then '-' else if n = 63 then '_' else standardDigit n

/-- Three bytes become four digits of an alphabet; what is missing at the end is padded. -/
def base64 (digit : Nat → Char) (padding : Text) : List UInt8 → Text
  | [] => []
  | [a] => digit (a.toNat / 4) :: digit (a.toNat % 4 * 16) :: (padding ++ padding)
  | [a, b] => digit (a.toNat / 4) :: digit (a.toNat % 4 * 16 + b.toNat / 16) :: digit (b.toNat % 16 * 4) :: padding
  | a :: b :: c :: rest =>
    digit (a.toNat / 4) :: digit (a.toNat % 4 * 16 + b.toNat / 16) :: digit (b.toNat % 16 * 4 + c.toNat / 64) ::
      digit (c.toNat % 64) :: base64 digit padding rest

/-- An encoded byte slice. -/
def Value.ofBytes (bytes : List UInt8) : Value := .string (base64 standardDigit ['='] bytes)

/-- `unicode.IsSpace`. -/
def isGoSpace (c : Char) : Bool :=
  ['\t', '\n', '\u000b', '\u000c', '\r', ' ', '\u0085', '\u00a0', '\u1680', '\u2028', '\u2029', '\u202f', '\u205f',
    '\u3000'].contains c || ('\u2000' ≤ c && c ≤ '\u200a')

/-- `bytes.TrimSpace` and `strings.TrimSpace`. -/
def trimSpace (text : Text) : Text := ((text.dropWhile isGoSpace).reverse.dropWhile isGoSpace).reverse

/-- A digit of `hex.EncodeToString`. -/
def isLowerHex (c : Char) : Bool := c.isDigit || ('a' ≤ c && c ≤ 'f')

theorem isLowerHex_digitChar : ∀ n < 16, isLowerHex (Nat.digitChar n) := by
  decide

variable {c ch : Char} {text : Text}

theorem isHex_of_lower (lower : isLowerHex c) : isHex c := by
  unfold isLowerHex at lower
  unfold isHex
  rw [lower]
  rfl

theorem isHex_digitChar (n : Nat) (small : n < 16) : isHex (Nat.digitChar n) :=
  isHex_of_lower (isLowerHex_digitChar n small)

theorem length_hexEncode : (hexEncode bytes).toList.length = 64 := by
  simp only [hexEncode, String.toList_ofList, length_flatMap, length_cons, length_nil]
  simp

theorem lower_hexEncode : ∀ ch ∈ (hexEncode bytes).toList, isLowerHex ch := by
  intro ch mem
  simp only [hexEncode, String.toList_ofList, mem_flatMap, mem_cons, not_mem_nil, or_false] at mem
  obtain ⟨b, -, rfl | rfl⟩ := mem
  · have := b.toNat_lt
    exact isLowerHex_digitChar _ (by omega)
  · exact isLowerHex_digitChar _ (by omega)

theorem isLowerHex_ascii (lower : isLowerHex ch) : ch.toNat < 128 := by
  simp only [isLowerHex, Char.isDigit, Bool.or_eq_true, Bool.and_eq_true, decide_eq_true_eq, Char.le_def,
    UInt32.le_iff_toNat_le, ge_iff_le] at lower
  have number : ch.toNat = ch.val.toNat := rfl
  simp only [show ('9' : Char).val.toNat = 57 from rfl, show ('f' : Char).val.toNat = 102 from rfl] at lower
  omega

/-- A digit is its own lower case and one byte long. -/
theorem isLowerHex_char (lower : isLowerHex ch) : ch.toLower = ch ∧ ch.utf8Size = 1 := by
  have table : ∀ n : Fin 128, isLowerHex (Char.ofNat n.val) →
      (Char.ofNat n.val).toLower = Char.ofNat n.val ∧ (Char.ofNat n.val).utf8Size = 1 := by decide
  have facts := table ⟨ch.toNat, isLowerHex_ascii lower⟩
  rw [Char.ofNat_toNat] at facts
  exact facts lower

/-! ## The size of an encoding -/

/-- `len` of a Go string. -/
theorem utf8ByteSize_eq_size (s : String) : s.utf8ByteSize = Json.size s.toList := by
  have lists : ∀ text : Text, String.utf8Len text = Json.size text := by
    intro text
    induction text with
    | nil => rfl
    | cons c rest ih => rw [String.utf8Len_cons, size_cons, ih, Nat.add_comm]
  rw [← lists, ← String.utf8ByteSize_ofList, String.ofList_toList]

theorem size_hexEncode : (hexEncode bytes).utf8ByteSize = 64 := by
  have ones : ∀ text : Text, (∀ ch ∈ text, isLowerHex ch) → Json.size text = text.length := by
    intro text digits
    induction text with
    | nil => rfl
    | cons ch rest ih =>
      rw [size_cons, (isLowerHex_char (digits ch mem_cons_self)).2, length_cons,
        ih fun ch mem => digits ch (mem_cons_of_mem _ mem), Nat.add_comm]
  rw [utf8ByteSize_eq_size, ones _ (lower_hexEncode bytes), length_hexEncode]

theorem length_le_size (text : Text) : text.length ≤ Json.size text := by
  induction text with
  | nil => exact Nat.le_refl 0
  | cons c rest ih =>
    have := c.utf8Size_pos
    rw [length_cons, size_cons]
    omega

/-- The characters with an escape of their own. -/
def shortEscapes : List (Char × Char) :=
  [('"', '"'), ('\\', '\\'), ('\u0008', 'b'), ('\u000c', 'f'), ('\n', 'n'), ('\r', 'r'), ('\t', 't')]

/-- How a character of a string is written. -/
inductive Quoted (c : Char) : Text → Prop
  | short {s : Char} (listed : (c, s) ∈ shortEscapes) : Quoted c ['\\', s]
  | hex (low : c.toNat < 0xd800) : Quoted c ('\\' :: 'u' :: hex4 c.toNat)
  | plain (printable : ¬c.toNat < 0x20) (inside : c ≠ '"') (unescaped : c ≠ '\\') : Quoted c [c]

theorem quoteChar_quoted (c : Char) : Quoted c (quoteChar c) := by
  unfold quoteChar
  split_ifs with h₁ h₂ h₃ h₄ h₅ h₆ h₇ h₈
  · exact .short (by simp [shortEscapes, eq_of_beq h₁])
  · exact .short (by simp [shortEscapes, eq_of_beq h₂])
  · exact .short (by simp [shortEscapes, eq_of_beq h₃])
  · exact .short (by simp [shortEscapes, eq_of_beq h₄])
  · exact .short (by simp [shortEscapes, eq_of_beq h₅])
  · exact .short (by simp [shortEscapes, eq_of_beq h₆])
  · exact .short (by simp [shortEscapes, eq_of_beq h₇])
  · refine .hex ?_
    simp only [Bool.or_eq_true, decide_eq_true_eq, isHTML, beq_iff_eq] at h₈
    rcases h₈ with control | (((rfl | rfl) | rfl) | rfl) | rfl
    · omega
    all_goals decide
  · simp only [Bool.or_eq_true, not_or, decide_eq_true_eq, beq_iff_eq] at h₁ h₂ h₈
    exact .plain h₈.1 h₁ h₂

theorem Quoted.length_pos (quoted : Quoted c text) : 0 < text.length := by
  cases quoted <;> exact Nat.succ_pos _

/-- No character of a string is lost. -/
theorem length_le_size_ofString (s : String) : s.toList.length ≤ (Value.ofString s).size := by
  have quoted : s.toList.length ≤ (quote s).length := by
    rw [quote_eq]
    induction s.toList with
    | nil => exact Nat.le_refl 0
    | cons c rest ih =>
      have := (quoteChar_quoted c).length_pos
      rw [flatMap_cons, length_append, length_cons]
      omega
  have whole := length_le_size (quote s)
  simp only [Value.ofString, Value.size, render_string, size_cons, size_append]
  omega

theorem sum_le_size_renderTail (values : List Value) :
    (values.map Value.size).sum ≤ Json.size (Elements.ofList values).renderTail := by
  induction values with
  | nil => exact Nat.zero_le _
  | cons value rest ih =>
    simp only [map_cons, sum_cons, Elements.ofList, renderTail_element, size_cons, size_append, Value.size]
      at ih ⊢
    omega

theorem sum_le_size_ofList (values : List Value) : (values.map Value.size).sum ≤ (Value.ofList values).size := by
  cases values with
  | nil => exact Nat.zero_le _
  | cons value rest =>
    have tail := sum_le_size_renderTail rest
    simp only [map_cons, sum_cons, Value.ofList, Elements.ofList, Value.size, render_array, size_cons,
      size_append] at tail ⊢
    omega

theorem size_marks : ('"' : Char).utf8Size = 1 ∧ (',' : Char).utf8Size = 1 ∧ (':' : Char).utf8Size = 1 ∧
    ('\x7b' : Char).utf8Size = 1 := by
  decide

theorem size_renderTail_ofFields (fields : List (String × Value)) :
    Json.size (Members.ofFields fields).renderTail = (fields.map fun f => Json.size (quote f.1) + f.2.size + 4).sum + 1 := by
  induction fields with
  | nil => rfl
  | cons f rest ih =>
    simp only [Members.ofFields, renderTail_member, size_cons, size_append, ih, map_cons, sum_cons, Value.size]
    rw [size_marks.1, size_marks.2.1, size_marks.2.2.1]
    omega

theorem size_ofFields (f : String × Value) (rest : List (String × Value)) : (Value.ofFields (f :: rest)).size =
    ((f :: rest).map fun f => Json.size (quote f.1) + f.2.size + 4).sum + 1 := by
  have tail := size_renderTail_ofFields rest
  simp only [Value.ofFields, Members.ofFields, Value.size, render_object, size_cons, size_append, map_cons,
    sum_cons] at tail ⊢
  rw [tail, size_marks.1, size_marks.2.2.1, size_marks.2.2.2]
  omega

/-- A struct is its names and values, and at most four marks for each. -/
theorem size_ofFields_le (fields : List (String × Value)) :
    (Value.ofFields fields).size ≤ (fields.map fun f => Json.size (quote f.1) + f.2.size + 4).sum + 2 := by
  cases fields with
  | nil => exact Nat.le_refl 2
  | cons f rest => exact (size_ofFields f rest).le.trans (Nat.le_succ _)

/-- A struct is longer than its fields together. -/
theorem sum_le_size_ofFields (fields : List (String × Value)) :
    (fields.map fun field => field.2.size).sum ≤ (Value.ofFields fields).size := by
  cases fields with
  | nil => exact Nat.zero_le _
  | cons f rest =>
    rw [size_ofFields]
    exact Nat.le_succ_of_le (sum_le_sum fun _ _ => by omega)

/-! ## The bytes of an encoding -/

theorem bytesOf_eq (text : Text) : bytesOf text = (String.ofList text).toByteArray.data.toList := by
  change _ = (text.flatMap String.utf8EncodeChar).toByteArray.data.toList
  rw [data_toByteArray]
  rfl

theorem length_bytesOf (text : Text) : (bytesOf text).length = size text := by
  rw [bytesOf_eq, Array.length_toList]
  change (String.ofList text).toByteArray.size = _
  rw [String.size_toByteArray, utf8ByteSize_eq_size, String.toList_ofList]

theorem bytesOf_injective {a b : Text} (h : bytesOf a = bytesOf b) : a = b := by
  rw [bytesOf_eq, bytesOf_eq] at h
  have arrays := ByteArray.ext (Array.toList_inj.1 h)
  exact String.ofList_injective (String.toByteArray_inj.1 arrays)

theorem hexEncode_injective {a b : Fin 32 → UInt8} (h : hexEncode a = hexEncode b) : a = b := by
  have digits : ∀ m < 16, ∀ n < 16, Nat.digitChar m = Nat.digitChar n → m = n := by decide
  have lists : ∀ xs ys : List UInt8,
      xs.flatMap (fun b => [Nat.digitChar (b.toNat / 16), Nat.digitChar (b.toNat % 16)]) =
        ys.flatMap (fun b => [Nat.digitChar (b.toNat / 16), Nat.digitChar (b.toNat % 16)]) → xs = ys := by
    intro xs
    induction xs with
    | nil =>
      intro ys same
      cases ys with
      | nil => rfl
      | cons y ys => simp at same
    | cons x xs ih =>
      intro ys same
      cases ys with
      | nil => simp at same
      | cons y ys =>
        simp only [flatMap_cons, cons_append, nil_append, List.cons.injEq] at same
        obtain ⟨high, low, rest⟩ := same
        have bound := x.toNat_lt
        have bound' := y.toNat_lt
        have high := digits _ (by omega) _ (by omega) high
        have low := digits _ (Nat.mod_lt _ (by decide)) _ (Nat.mod_lt _ (by decide)) low
        have byte : x.toNat = y.toNat := by omega
        rw [UInt8.toNat_inj.1 byte, ih ys rest]
  exact ofFn_injective (lists _ _ (String.ofList_injective h))

/-! ## Upper bounds -/

theorem Quoted.size_le (quoted : Quoted c text) : size text ≤ 6 := by
  have four := fun c : Char => c.utf8Size_le_four
  cases quoted with
  | @short s listed =>
    have slash : ('\\' : Char).utf8Size = 1 := by decide
    have := four s
    simp only [size_cons, size_nil, slash]
    omega
  | hex low =>
    have digit : ∀ n < 16, (Nat.digitChar n).utf8Size = 1 := by decide
    simp only [hex4, map_cons, map_nil, size_cons, size_nil, digit _ (Nat.mod_lt _ (by decide : 0 < 16))]
    decide
  | plain =>
    have := four c
    simp only [size_cons, size_nil]
    omega

theorem size_ofString_le (s : String) : (Value.ofString s).size ≤ 6 * s.utf8ByteSize + 2 := by
  have chars : ∀ text : Text, size (text.flatMap quoteChar) ≤ 6 * text.length := by
    intro text
    induction text with
    | nil => exact Nat.le_refl 0
    | cons c rest ih =>
      have one := (quoteChar_quoted c).size_le
      rw [flatMap_cons, size_append, length_cons]
      omega
  have few := length_le_size s.toList
  have body := chars s.toList
  rw [utf8ByteSize_eq_size]
  simp only [Value.ofString, Value.size, render_string, quote_eq, size_cons, size_append, size_nil]
  have quotes : ('"' : Char).utf8Size = 1 := by decide
  omega

/-- A digest for samples, whose first byte depends on every byte. -/
def sampleDigest (bytes : List UInt8) (i : Fin 32) : UInt8 :=
  if i = 0 then bytes.foldl (fun sum b => 31 * sum + b) 7 else 0

end Pagnet.Json
