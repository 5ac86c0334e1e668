import Mathlib.Algebra.Ring.Nat
import Mathlib.Data.List.Basic
import Mathlib.Data.Char

/-!
# JSON documents

A document keeps its numbers and strings as the characters of the text, the way
`json.RawMessage` does: `number` holds the literal and `string` what stands
between the quotes. Only insignificant white space is lost. `render` is the
compact encoding, `parse` reads a text with the grammar of RFC 8259 as Go's
scanner does, and `escapeHTML` is what `json.Marshal` does to raw text.
-/

namespace Pagnet.Json

/-- A text: the characters of a valid UTF-8 byte string. -/
abbrev Text := List Char

/-- The characters of a string. The bytes of an ASCII string are its characters, and are found without decoding. -/
def chars (s : String) : Text :=
  if s.toByteArray.data.toList.all (· < 128) then s.toByteArray.data.toList.map fun b => Char.ofNat b.toNat else s.toList

theorem encode_ascii {b : UInt8} (ascii : b < 128) : String.utf8EncodeChar (Char.ofNat b.toNat) = [b] := by
  have small : b.toNat < 128 := ascii
  have code : (Char.ofNat b.toNat).val.toNat = b.toNat := by
    rw [Char.ofNat, dif_pos (.inl (by omega))]
    rfl
  rw [String.utf8EncodeChar, code, if_pos (by omega)]
  simp

theorem chars_eq_toList (s : String) : chars s = s.toList := by
  unfold chars
  split
  case isFalse => rfl
  case isTrue ascii =>
    have bytes : (s.toByteArray.data.toList.map fun b => Char.ofNat b.toNat).flatMap String.utf8EncodeChar =
        s.toByteArray.data.toList := by
      rw [List.flatMap_map]
      conv_rhs => rw [← List.flatMap_singleton' s.toByteArray.data.toList]
      refine List.flatMap_congr fun b mem => encode_ascii ?_
      simpa using List.all_eq_true.1 ascii b mem
    -- the string of these characters has the same bytes
    rw [← String.toList_ofList (l := s.toByteArray.data.toList.map fun b => Char.ofNat b.toNat)]
    refine congrArg String.toList (String.toByteArray_inj.1 (ByteArray.ext (Array.toList_inj.1 ?_)))
    change (List.flatMap String.utf8EncodeChar _).toByteArray.data.toList = _
    rw [List.data_toByteArray, bytes]

/-- `len` of the byte string. -/
def size (text : Text) : Nat := (text.map Char.utf8Size).sum

@[simp] theorem size_nil : size [] = 0 := rfl

@[simp] theorem size_cons (c : Char) (text : Text) : size (c :: text) = c.utf8Size + size text := rfl

@[simp] theorem size_append (a b : Text) : size (a ++ b) = size a + size b := by
  simp [size]

mutual
/-- A JSON document with its literals as written. -/
inductive Value where
  | null
  | bool (b : Bool)
  | number (literal : Text)
  | string (raw : Text)
  | array (elements : Elements)
  | object (members : Members)

/-- The elements of an array. -/
inductive Elements where
  | nil
  | cons (value : Value) (rest : Elements)

/-- The members of an object in their order, each key between its quotes. -/
inductive Members where
  | nil
  | cons (key : Text) (value : Value) (rest : Members)
end

deriving instance DecidableEq for Value

mutual
/-- The compact encoding. -/
def Value.render : Value → Text
  | .null => ['n', 'u', 'l', 'l']
  | .bool true => ['t', 'r', 'u', 'e']
  | .bool false => ['f', 'a', 'l', 's', 'e']
  | .number literal => literal
  | .string raw => '"' :: (raw ++ ['"'])
  | .array .nil => ['[', ']']
  | .array (.cons value rest) => '[' :: (value.render ++ rest.renderTail)
  | .object .nil => ['{', '}']
  | .object (.cons key value rest) => '{' :: '"' :: (key ++ '"' :: ':' :: (value.render ++ rest.renderTail))

/-- The elements after the first, up to the closing bracket. -/
def Elements.renderTail : Elements → Text
  | .nil => [']']
  | .cons value rest => ',' :: (value.render ++ rest.renderTail)

/-- The members after the first, up to the closing brace. -/
def Members.renderTail : Members → Text
  | .nil => ['}']
  | .cons key value rest => ',' :: '"' :: (key ++ '"' :: ':' :: (value.render ++ rest.renderTail))
end

theorem render_string (raw : Text) : (Value.string raw).render = '"' :: (raw ++ ['"']) := rfl

theorem render_array (v : Value) (rest : Elements) :
    (Value.array (.cons v rest)).render = '[' :: (v.render ++ rest.renderTail) := rfl

theorem renderTail_element (v : Value) (rest : Elements) :
    (Elements.cons v rest).renderTail = ',' :: (v.render ++ rest.renderTail) := rfl

theorem render_object (key : Text) (v : Value) (rest : Members) : (Value.object (.cons key v rest)).render =
    '\x7b' :: '"' :: (key ++ '"' :: ':' :: (v.render ++ rest.renderTail)) := rfl

theorem renderTail_member (key : Text) (v : Value) (rest : Members) : (Members.cons key v rest).renderTail =
    ',' :: '"' :: (key ++ '"' :: ':' :: (v.render ++ rest.renderTail)) := rfl

def isSpace (c : Char) : Bool := c == ' ' || c == '\t' || c == '\n' || c == '\r'

def isHex (c : Char) : Bool := c.isDigit || ('a' ≤ c && c ≤ 'f') || ('A' ≤ c && c ≤ 'F')

/-- Insignificant white space in front of a token. -/
def skipSpace : Text → Text := List.dropWhile isSpace

/-- A string literal up to its closing quote: the raw characters and what follows. -/
def parseString : Text → Option (Text × Text)
  | '"' :: rest => some ([], rest)
  | '\\' :: 'u' :: a :: b :: c :: d :: rest =>
    if isHex a && isHex b && isHex c && isHex d then
      (parseString rest).map fun (raw, rest) => ('\\' :: 'u' :: a :: b :: c :: d :: raw, rest)
    else none
  | '\\' :: c :: rest =>
    if c ∈ ['"', '\\', '/', 'b', 'f', 'n', 'r', 't'] then
      (parseString rest).map fun (raw, rest) => ('\\' :: c :: raw, rest)
    else none
  | c :: rest =>
    if c.toNat < 0x20 || c == '\\' then none
    else (parseString rest).map fun (raw, rest) => (c :: raw, rest)
  | [] => none

/-- The digits, sign, point and exponent characters a number is made of. -/
def isNumberChar (c : Char) : Bool :=
  c.isDigit || c == '-' || c == '+' || c == '.' || c == 'e' || c == 'E'

def allDigits (text : Text) : Bool := !text.isEmpty && text.all Char.isDigit

/-- An exponent: a sign may stand in front of its digits. -/
def validExponent : Text → Bool
  | '+' :: rest => allDigits rest
  | '-' :: rest => allDigits rest
  | rest => allDigits rest

/-- What may follow the integer part: a fraction, then an exponent. -/
def validFraction (text : Text) : Bool :=
  match text with
  | [] => true
  | '.' :: rest =>
    let digits := rest.takeWhile Char.isDigit
    match rest.dropWhile Char.isDigit with
    | [] => allDigits digits
    | e :: exponent => allDigits digits && (e == 'e' || e == 'E') && validExponent exponent
  | e :: exponent => (e == 'e' || e == 'E') && validExponent exponent

/-- An integer part has no leading zero. -/
def validUnsigned : Text → Bool
  | '0' :: rest => validFraction rest
  | c :: rest => c.isDigit && validFraction (rest.dropWhile Char.isDigit)
  | [] => false

/-- The number grammar. -/
def validNumber : Text → Bool
  | '-' :: rest => validUnsigned rest
  | text => validUnsigned text

mutual
/-- One value and the text behind it. Every call spends one unit of fuel. -/
def parseValue : Nat → Text → Option (Value × Text)
  | 0, _ => none
  | fuel + 1, text =>
    match skipSpace text with
    | 'n' :: 'u' :: 'l' :: 'l' :: rest => some (.null, rest)
    | 't' :: 'r' :: 'u' :: 'e' :: rest => some (.bool true, rest)
    | 'f' :: 'a' :: 'l' :: 's' :: 'e' :: rest => some (.bool false, rest)
    | '"' :: rest => (parseString rest).map fun (raw, rest) => (.string raw, rest)
    | '[' :: rest =>
      match skipSpace rest with
      | ']' :: rest => some (.array .nil, rest)
      | rest => do
        let (value, rest) ← parseValue fuel rest
        let (elements, rest) ← parseElements fuel rest
        return (.array (.cons value elements), rest)
    | '{' :: rest =>
      match skipSpace rest with
      | '}' :: rest => some (.object .nil, rest)
      | '"' :: rest => do
        let (key, rest) ← parseString rest
        let (value, rest) ← parseMember fuel rest
        let (members, rest) ← parseMembers fuel rest
        return (.object (.cons key value members), rest)
      | _ => none
    | text =>
      let literal := text.takeWhile isNumberChar
      if validNumber literal then some (.number literal, text.dropWhile isNumberChar) else none

/-- A member's colon and value. -/
def parseMember : Nat → Text → Option (Value × Text)
  | 0, _ => none
  | fuel + 1, text =>
    match skipSpace text with
    | ':' :: rest => parseValue fuel rest
    | _ => none

/-- The elements after the first. -/
def parseElements : Nat → Text → Option (Elements × Text)
  | 0, _ => none
  | fuel + 1, text =>
    match skipSpace text with
    | ']' :: rest => some (.nil, rest)
    | ',' :: rest => do
      let (value, rest) ← parseValue fuel rest
      let (elements, rest) ← parseElements fuel rest
      return (.cons value elements, rest)
    | _ => none

/-- The members after the first. -/
def parseMembers : Nat → Text → Option (Members × Text)
  | 0, _ => none
  | fuel + 1, text =>
    match skipSpace text with
    | '}' :: rest => some (.nil, rest)
    | ',' :: rest =>
      match skipSpace rest with
      | '"' :: rest => do
        let (key, rest) ← parseString rest
        let (value, rest) ← parseMember fuel rest
        let (members, rest) ← parseMembers fuel rest
        return (.cons key value members, rest)
      | _ => none
    | _ => none
end

/-- A complete document. No call nests deeper than the text is long. -/
def parse (text : Text) : Option Value :=
  match parseValue (2 * text.length + 2) text with
  | some (value, rest) => if skipSpace rest = [] then some value else none
  | none => none

mutual
/-- How deep arrays and objects nest. -/
def Value.depth : Value → Nat
  | .array elements => elements.depth + 1
  | .object members => members.depth + 1
  | _ => 0

def Elements.depth : Elements → Nat
  | .nil => 0
  | .cons value rest => max value.depth rest.depth

def Members.depth : Members → Nat
  | .nil => 0
  | .cons _ value rest => max value.depth rest.depth
end

/-- The nesting that Go's scanner follows. -/
def maxNestingDepth : Nat := 10000

/-- `json.Valid`. -/
def valid (text : Text) : Bool := (parse text).any fun value => value.depth ≤ maxNestingDepth

/-- The four lower-case hex digits of a `\u` escape. -/
def hex4 (n : Nat) : Text :=
  [n / 4096 % 16, n / 256 % 16, n / 16 % 16, n % 16].map Nat.digitChar

/-- The characters `json.Marshal` escapes inside strings that are JSON already. -/
def isHTML (c : Char) : Bool :=
  c == '<' || c == '>' || c == '&' || c == '\u2028' || c == '\u2029'

/-- HTML-sensitive characters of a raw string become `\u` escapes. -/
def escapeRaw (raw : Text) : Text :=
  raw.flatMap fun c => if isHTML c then '\\' :: 'u' :: hex4 c.toNat else [c]

mutual
/-- `json.Marshal` of a raw message. -/
def Value.escapeHTML : Value → Value
  | .null => .null
  | .bool b => .bool b
  | .number literal => .number literal
  | .string raw => .string (escapeRaw raw)
  | .array elements => .array elements.escapeHTML
  | .object members => .object members.escapeHTML

def Elements.escapeHTML : Elements → Elements
  | .nil => .nil
  | .cons value rest => .cons value.escapeHTML rest.escapeHTML

def Members.escapeHTML : Members → Members
  | .nil => .nil
  | .cons key value rest => .cons (escapeRaw key) value.escapeHTML rest.escapeHTML
end

/-- What `json.Marshal` writes for the character of a Go string. -/
def quoteChar (c : Char) : Text :=
  if c == '"' then ['\\', '"']
  else if c == '\\' then ['\\', '\\']
  else if c == '\u0008' then ['\\', 'b']
  else if c == '\u000c' then ['\\', 'f']
  else if c == '\n' then ['\\', 'n']
  else if c == '\r' then ['\\', 'r']
  else if c == '\t' then ['\\', 't']
  else if c.toNat < 0x20 || isHTML c then '\\' :: 'u' :: hex4 c.toNat
  else [c]

/-- The characters between the quotes of an encoded Go string. -/
def quote (s : String) : Text := (chars s).flatMap quoteChar

theorem quote_eq (s : String) : quote s = s.toList.flatMap quoteChar := by
  rw [quote, chars_eq_toList]

/-- An encoded Go string. -/
def Value.ofString (s : String) : Value := .string (quote s)

/-- An encoded Go integer. -/
def Value.ofInt (n : Int) : Value := .number (toString n).toList

/-- The members an encoded struct has. -/
def Members.ofFields : List (String × Value) → Members
  | [] => .nil
  | (key, value) :: rest => .cons (quote key) value (Members.ofFields rest)

/-- An encoded struct: its fields in declaration order. -/
def Value.ofFields (fields : List (String × Value)) : Value := .object (Members.ofFields fields)

/-- The length of the encoding. -/
def Value.size (v : Value) : Nat := Json.size v.render

end Pagnet.Json
