import Mathlib.Tactic.IntervalCases
import Pagnet.Json.Limits

/-!
# Reading what was written

What `parse` reads has well-formed literals, and the compact encoding of a value
with well-formed literals is read back as that value.
-/

namespace Pagnet.Json
open List

/-! ## String literals -/

/-- What may stand between the quotes of a string. -/
inductive RawLiteral : Text → Prop where
  | nil : RawLiteral []
  | unicode {a b c d : Char} {raw : Text} (hex : (isHex a && isHex b && isHex c && isHex d)) (rest : RawLiteral raw) :
      RawLiteral ('\\' :: 'u' :: a :: b :: c :: d :: raw)
  | escape {c : Char} {raw : Text} (listed : c ∈ ['"', '\\', '/', 'b', 'f', 'n', 'r', 't']) (rest : RawLiteral raw) :
      RawLiteral ('\\' :: c :: raw)
  | plain {c : Char} {raw : Text} (printable : (c.toNat < 0x20 || c == '\\') = false) (inside : c ≠ '"')
      (rest : RawLiteral raw) : RawLiteral (c :: raw)

variable {raw rest text literal : Text} {c : Char} {v : Value}

/-- A literal is read up to its quote. -/
theorem parseString_literal (h : parseString text = some (raw, rest)) : RawLiteral raw ∧ text = raw ++ '"' :: rest := by
  fun_induction parseString text generalizing raw with
  | case1 =>
    cases h
    exact ⟨.nil, rfl⟩
  | case2 a b c d tail hex ih =>
    obtain ⟨⟨raw', rest'⟩, found, same⟩ := Option.map_eq_some_iff.1 h
    cases same
    obtain ⟨literal, rfl⟩ := ih found
    exact ⟨.unicode hex literal, rfl⟩
  | case3 => cases h
  | case4 c tail _ listed ih =>
    obtain ⟨⟨raw', rest'⟩, found, same⟩ := Option.map_eq_some_iff.1 h
    cases same
    obtain ⟨literal, rfl⟩ := ih found
    exact ⟨.escape listed literal, rfl⟩
  | case5 | case6 => cases h
  | case7 c tail inside _ _ printable ih =>
    obtain ⟨⟨raw', rest'⟩, found, same⟩ := Option.map_eq_some_iff.1 h
    cases same
    obtain ⟨literal, rfl⟩ := ih found
    exact ⟨.plain (by simpa using printable) inside literal, rfl⟩
  | case8 => cases h

theorem RawLiteral.parse (literal : RawLiteral raw) (rest : Text) :
    parseString (raw ++ '"' :: rest) = some (raw, rest) := by
  induction literal with
  | nil => rfl
  | @unicode a b c d raw hex _ ih =>
    change parseString ('\\' :: 'u' :: a :: b :: c :: d :: (raw ++ '"' :: rest)) = _
    rw [parseString, if_pos hex, ih]
    rfl
  | @escape c raw listed _ ih =>
    change parseString ('\\' :: c :: (raw ++ '"' :: rest)) = _
    rw [parseString]
    · rw [if_pos listed, ih]
      rfl
    · rintro a b c' d tail rfl -
      revert listed
      decide
  | @plain c raw printable inside _ ih =>
    change parseString (c :: (raw ++ '"' :: rest)) = _
    have back : c ≠ '\\' := by
      rintro rfl
      simp at printable
    rw [parseString]
    · rw [if_neg (by simpa using printable), ih]
      rfl
    · exact inside
    · exact fun _ _ _ _ _ same => absurd same back
    · exact fun _ _ same => absurd same back

theorem RawLiteral.append {a b : Text} (first : RawLiteral a) (second : RawLiteral b) : RawLiteral (a ++ b) := by
  induction first with
  | nil => exact second
  | unicode hex _ ih => exact .unicode hex ih
  | escape listed _ ih => exact .escape listed ih
  | plain printable inside _ ih => exact .plain printable inside ih

theorem isHex_not_html (hex : isHex c) : isHTML c = false := by
  unfold isHTML
  simp only [Bool.or_eq_false_iff, beq_eq_false_iff_ne]
  refine ⟨⟨⟨⟨?_, ?_⟩, ?_⟩, ?_⟩, ?_⟩ <;>
    · rintro rfl
      revert hex
      decide

theorem hex4_literal (n : Nat) : RawLiteral ('\\' :: 'u' :: hex4 n) := by
  have digits : ∀ k, isHex (Nat.digitChar (k % 16)) := fun k => isHex_digitChar _ (Nat.mod_lt _ (by decide))
  exact .unicode (by simp [digits]) .nil

theorem escapeRaw_cons (c : Char) (raw : Text) :
    escapeRaw (c :: raw) = (if isHTML c then '\\' :: 'u' :: hex4 c.toNat else [c]) ++ escapeRaw raw := rfl

theorem RawLiteral.escapeRaw (literal : RawLiteral raw) : RawLiteral (escapeRaw raw) := by
  induction literal with
  | nil => exact .nil
  | @unicode a b c d raw hex _ ih =>
    simp only [Bool.and_eq_true] at hex
    have plain : Json.escapeRaw ('\\' :: 'u' :: a :: b :: c :: d :: raw) =
        '\\' :: 'u' :: a :: b :: c :: d :: Json.escapeRaw raw := by
      simp only [escapeRaw_cons, isHex_not_html hex.1.1.1, isHex_not_html hex.1.1.2, isHex_not_html hex.1.2,
        isHex_not_html hex.2]
      rfl
    rw [plain]
    exact .unicode (by simp [hex]) ih
  | @escape c raw listed _ ih =>
    have plain : Json.escapeRaw ('\\' :: c :: raw) = '\\' :: c :: Json.escapeRaw raw := by
      simp only [mem_cons, not_mem_nil, or_false] at listed
      rcases listed with rfl | rfl | rfl | rfl | rfl | rfl | rfl | rfl <;> rfl
    rw [plain]
    exact .escape listed ih
  | @plain c raw printable inside _ ih =>
    rw [escapeRaw_cons]
    split
    · exact (hex4_literal c.toNat).append ih
    · exact .plain printable inside ih

theorem quoteChar_literal (c : Char) : RawLiteral (quoteChar c) := by
  have quoted := quoteChar_quoted c
  generalize quoteChar c = text at quoted
  cases quoted with
  | short listed =>
    have escapes : ∀ pair ∈ shortEscapes, pair.2 ∈ ['"', '\\', '/', 'b', 'f', 'n', 'r', 't'] := by decide
    exact .escape (escapes _ listed) .nil
  | hex => exact hex4_literal c.toNat
  | plain printable inside unescaped => exact .plain (by simp [unescaped, printable]) inside .nil

theorem flatMap_literal {α : Type} {f : α → Text} (each : ∀ a, RawLiteral (f a)) (as : List α) :
    RawLiteral (as.flatMap f) := by
  induction as with
  | nil => exact .nil
  | cons a as ih => exact (each a).append ih

/-! ## Values -/

mutual
/-- The literals of a value are ones that the grammar allows. -/
def Value.WellFormed : Value → Prop
  | .number literal => validNumber literal ∧ literal.all isNumberChar
  | .string raw => RawLiteral raw
  | .array elements => elements.WellFormed
  | .object members => members.WellFormed
  | _ => True

def Elements.WellFormed : Elements → Prop
  | .nil => True
  | .cons value rest => value.WellFormed ∧ rest.WellFormed

def Members.WellFormed : Members → Prop
  | .nil => True
  | .cons key value rest => RawLiteral key ∧ value.WellFormed ∧ rest.WellFormed
end

/-- What the parser reads has well-formed literals. -/
theorem parsed_wellFormed (fuel : Nat) : (∀ text v rest, parseValue fuel text = some (v, rest) → v.WellFormed) ∧
    (∀ text v rest, parseMember fuel text = some (v, rest) → v.WellFormed) ∧
    (∀ text e rest, parseElements fuel text = some (e, rest) → e.WellFormed) ∧
    (∀ text m rest, parseMembers fuel text = some (m, rest) → m.WellFormed) := by
  induction fuel with
  | zero =>
    refine ⟨?_, ?_, ?_, ?_⟩ <;>
      · intro _ _ _ h
        cases h
  | succ fuel ih =>
    obtain ⟨value, member, elements, members⟩ := ih
    refine ⟨fun text v rest h => ?_, fun text v rest h => ?_, fun text e rest h => ?_, fun text m rest h => ?_⟩
    · rw [parseValue] at h
      split at h
      · cases h
        trivial
      · cases h
        trivial
      · cases h
        trivial
      · obtain ⟨⟨raw, tail⟩, found, same⟩ := Option.map_eq_some_iff.1 h
        cases same
        exact (parseString_literal found).1
      · split at h
        · cases h
          trivial
        · obtain ⟨⟨v', tail⟩, first, h⟩ := Option.bind_eq_some_iff.1 h
          obtain ⟨⟨e, tail'⟩, second, h⟩ := Option.bind_eq_some_iff.1 h
          cases h
          exact ⟨value _ _ _ first, elements _ _ _ second⟩
      · split at h
        · cases h
          trivial
        · obtain ⟨⟨key, tail⟩, named, h⟩ := Option.bind_eq_some_iff.1 h
          obtain ⟨⟨v', tail'⟩, first, h⟩ := Option.bind_eq_some_iff.1 h
          obtain ⟨⟨m, last⟩, second, h⟩ := Option.bind_eq_some_iff.1 h
          cases h
          exact ⟨(parseString_literal named).1, member _ _ _ first, members _ _ _ second⟩
        · cases h
      · dsimp only at h
        split at h
        · cases h
          exact ⟨‹_›, all_takeWhile⟩
        · cases h
    · rw [parseMember] at h
      split at h
      · exact value _ _ _ h
      · cases h
    · rw [parseElements] at h
      split at h
      · cases h
        trivial
      · obtain ⟨⟨v', tail⟩, first, h⟩ := Option.bind_eq_some_iff.1 h
        obtain ⟨⟨e', tail'⟩, second, h⟩ := Option.bind_eq_some_iff.1 h
        cases h
        exact ⟨value _ _ _ first, elements _ _ _ second⟩
      · cases h
    · rw [parseMembers] at h
      split at h
      · cases h
        trivial
      · split at h
        · obtain ⟨⟨key, tail⟩, named, h⟩ := Option.bind_eq_some_iff.1 h
          obtain ⟨⟨v', tail'⟩, first, h⟩ := Option.bind_eq_some_iff.1 h
          obtain ⟨⟨m', last⟩, second, h⟩ := Option.bind_eq_some_iff.1 h
          cases h
          exact ⟨(parseString_literal named).1, member _ _ _ first, members _ _ _ second⟩
        · cases h
      · cases h

theorem parse_wellFormed (h : parse text = some v) : v.WellFormed := by
  unfold parse at h
  split at h
  case h_1 value rest found =>
    split at h
    · cases h
      exact (parsed_wellFormed _).1 _ _ _ found
    · cases h
  case h_2 => cases h

mutual
theorem Value.WellFormed.escapeHTML : ∀ {v : Value}, v.WellFormed → v.escapeHTML.WellFormed
  | .null, _ => trivial
  | .bool _, _ => trivial
  | .number _, h => h
  | .string _, h => RawLiteral.escapeRaw h
  | .array _, h => Elements.WellFormed.escapeHTML h
  | .object _, h => Members.WellFormed.escapeHTML h

theorem Elements.WellFormed.escapeHTML : ∀ {e : Elements}, e.WellFormed → e.escapeHTML.WellFormed
  | .nil, _ => trivial
  | .cons _ _, h => ⟨h.1.escapeHTML, h.2.escapeHTML⟩

theorem Members.WellFormed.escapeHTML : ∀ {m : Members}, m.WellFormed → m.escapeHTML.WellFormed
  | .nil, _ => trivial
  | .cons _ _ _, h => ⟨h.1.escapeRaw, h.2.1.escapeHTML, h.2.2.escapeHTML⟩
end

mutual
theorem depth_escapeHTML : ∀ v : Value, v.escapeHTML.depth = v.depth
  | .null => rfl
  | .bool _ => rfl
  | .number _ => rfl
  | .string _ => rfl
  | .array e => congrArg (· + 1) (Elements.depth_escapeHTML e)
  | .object m => congrArg (· + 1) (Members.depth_escapeHTML m)

theorem Elements.depth_escapeHTML : ∀ e : Elements, e.escapeHTML.depth = e.depth
  | .nil => rfl
  | .cons value rest => congrArg₂ max (Json.depth_escapeHTML value) rest.depth_escapeHTML

theorem Members.depth_escapeHTML : ∀ m : Members, m.escapeHTML.depth = m.depth
  | .nil => rfl
  | .cons _ value rest => congrArg₂ max (Json.depth_escapeHTML value) rest.depth_escapeHTML
end

/-! ## The encoding is read back -/

/-- What may follow a value: a number does not go on. -/
def Delimited (rest : Text) : Prop := ∀ c tail, rest = c :: tail → isNumberChar c = false

theorem delimited_nil : Delimited [] := fun _ _ h => by cases h

theorem delimited_cons {tail : Text} (other : isNumberChar c = false) : Delimited (c :: tail) := by
  rintro _ _ ⟨⟩
  exact other

mutual
/-- The fuel that reading the encoding of a value takes. -/
def Value.fuel : Value → Nat
  | .array (.cons value rest) => max value.fuel rest.fuel + 1
  | .object (.cons _ value rest) => max (value.fuel + 1) rest.fuel + 1
  | _ => 1

def Elements.fuel : Elements → Nat
  | .nil => 1
  | .cons value rest => max value.fuel rest.fuel + 1

def Members.fuel : Members → Nat
  | .nil => 1
  | .cons _ value rest => max (value.fuel + 1) rest.fuel + 1
end

theorem skipSpace_cons (visible : isSpace c = false) (text : Text) : skipSpace (c :: text) = c :: text := by
  unfold skipSpace
  rw [dropWhile_cons_of_neg (by simp [visible])]

/-- A number starts with a sign or a digit. -/
theorem validNumber_head (valid : validNumber literal) :
    ∃ c tail, literal = c :: tail ∧ c ∈ ['-', '0', '1', '2', '3', '4', '5', '6', '7', '8', '9'] := by
  match literal with
  | [] => cases valid
  | c :: tail =>
    refine ⟨c, tail, rfl, ?_⟩
    by_cases sign : c = '-'
    · exact sign ▸ mem_cons_self
    · have digit : c.isDigit := by
        unfold validNumber at valid
        split at valid
        next heading =>
          cases heading
          exact absurd rfl sign
        · unfold validUnsigned at valid
          split at valid
          next heading =>
            cases heading
            rfl
          next heading =>
            cases heading
            rw [Bool.and_eq_true] at valid
            exact valid.1
          · cases valid
      simp only [Char.isDigit, Bool.and_eq_true, decide_eq_true_eq, UInt32.le_iff_toNat_le] at digit
      have bounds : 48 ≤ c.toNat ∧ c.toNat ≤ 57 := digit
      have back : Char.ofNat c.toNat = c := Char.ofNat_toNat c
      rw [← back]
      obtain ⟨low, high⟩ := bounds
      interval_cases c.toNat <;> decide

theorem takeWhile_number (chars : literal.all isNumberChar) (delimited : Delimited rest) :
    (literal ++ rest).takeWhile isNumberChar = literal ∧ (literal ++ rest).dropWhile isNumberChar = rest := by
  have stops : rest.takeWhile isNumberChar = [] ∧ rest.dropWhile isNumberChar = rest := by
    cases rest with
    | nil => exact ⟨rfl, rfl⟩
    | cons c tail =>
      have other := delimited c tail rfl
      exact ⟨takeWhile_cons_of_neg (by simp [other]), dropWhile_cons_of_neg (by simp [other])⟩
  rw [all_eq_true] at chars
  rw [takeWhile_append_of_pos chars, dropWhile_append_of_pos chars, stops.1, stops.2, append_nil]
  exact ⟨rfl, rfl⟩

theorem parseValue_number (valid : validNumber literal) (chars : literal.all isNumberChar)
    (fuel : Nat) (delimited : Delimited rest) :
    parseValue (fuel + 1) (literal ++ rest) = some (.number literal, rest) := by
  obtain ⟨taken, left⟩ := takeWhile_number chars delimited
  have reads : parseValue (fuel + 1) (literal ++ rest) =
      if validNumber ((literal ++ rest).takeWhile isNumberChar) then
        some (.number ((literal ++ rest).takeWhile isNumberChar), (literal ++ rest).dropWhile isNumberChar) else none := by
    obtain ⟨c, tail, rfl, listed⟩ := validNumber_head valid
    simp only [mem_cons, not_mem_nil, or_false] at listed
    rcases listed with rfl | rfl | rfl | rfl | rfl | rfl | rfl | rfl | rfl | rfl | rfl <;> rfl
  rw [reads, taken, left, if_pos valid]

/-- The first character of an encoded value is not white space and not a closing bracket. -/
theorem render_head (formed : v.WellFormed) : ∃ c tail, v.render = c :: tail ∧ isSpace c = false ∧ c ≠ ']' := by
  match v, formed with
  | .null, _ => exact ⟨_, _, rfl, by decide, by decide⟩
  | .bool true, _ => exact ⟨_, _, rfl, by decide, by decide⟩
  | .bool false, _ => exact ⟨_, _, rfl, by decide, by decide⟩
  | .number literal, h =>
    obtain ⟨c, tail, same, listed⟩ := validNumber_head h.1
    refine ⟨c, tail, same, ?_⟩
    simp only [mem_cons, not_mem_nil, or_false] at listed
    rcases listed with rfl | rfl | rfl | rfl | rfl | rfl | rfl | rfl | rfl | rfl | rfl <;> decide
  | .string raw, _ => exact ⟨'"', raw ++ ['"'], rfl, by decide, by decide⟩
  | .array .nil, _ => exact ⟨_, _, rfl, by decide, by decide⟩
  | .array (.cons value rest), _ => exact ⟨'[', value.render ++ rest.renderTail, rfl, by decide, by decide⟩
  | .object .nil, _ => exact ⟨_, _, rfl, by decide, by decide⟩
  | .object (.cons key value rest), _ =>
    exact ⟨'{', '"' :: (key ++ '"' :: ':' :: (value.render ++ rest.renderTail)), rfl, by decide, by decide⟩

theorem Elements.renderTail_delimited (e : Elements) (rest : Text) : Delimited (e.renderTail ++ rest) := by
  cases e with
  | nil | cons => exact delimited_cons (by decide)

theorem Members.renderTail_delimited (m : Members) (rest : Text) : Delimited (m.renderTail ++ rest) := by
  cases m with
  | nil | cons => exact delimited_cons (by decide)

mutual
/-- The encoding of a value with well-formed literals is read back as the value. -/
theorem parseValue_render : ∀ {v : Value} {fuel : Nat} {rest : Text}, v.WellFormed → v.fuel ≤ fuel → Delimited rest →
    parseValue fuel (v.render ++ rest) = some (v, rest)
  | v, 0, rest, _, enough, _ => by
    exfalso
    revert enough
    unfold Value.fuel
    split <;> omega
  | .null, fuel + 1, rest, _, _, _ => rfl
  | .bool true, fuel + 1, rest, _, _, _ => rfl
  | .bool false, fuel + 1, rest, _, _, _ => rfl
  | .number literal, fuel + 1, rest, formed, _, delimited => parseValue_number formed.1 formed.2 fuel delimited
  | .string raw, fuel + 1, rest, formed, _, _ => by
    change (parseString ((raw ++ ['"']) ++ rest)).map _ = _
    rw [append_assoc]
    change (parseString (raw ++ '"' :: rest)).map _ = _
    rw [RawLiteral.parse formed]
    rfl
  | .array .nil, fuel + 1, rest, _, _, _ => rfl
  | .array (.cons value tail), fuel + 1, rest, formed, enough, _ => by
    have first : parseValue fuel (value.render ++ (tail.renderTail ++ rest)) = some (value, tail.renderTail ++ rest) :=
      parseValue_render formed.1 (by simp only [Value.fuel] at enough; omega)
      (tail.renderTail_delimited rest)
    have second : parseElements fuel (tail.renderTail ++ rest) = some (tail, rest) :=
      parseElements_render formed.2 (by simp only [Value.fuel] at enough; omega)
    obtain ⟨c, text, heading, visible, inside⟩ := render_head formed.1
    have text_eq : (Value.array (.cons value tail)).render ++ rest = '[' :: (value.render ++ (tail.renderTail ++ rest)) := by
      simp [Value.render]
    rw [text_eq, parseValue]
    change (match skipSpace (value.render ++ (tail.renderTail ++ rest)) with
      | ']' :: rest => some (Value.array .nil, rest)
      | rest => _) = _
    rw [heading, cons_append, skipSpace_cons visible]
    split
    next same =>
      cases same
      exact absurd rfl inside
    · rw [← cons_append, ← heading, first]
      simp only [Option.bind_eq_bind, Option.bind_some, second]
      rfl
  | .object .nil, fuel + 1, rest, _, _, _ => rfl
  | .object (.cons key value tail), fuel + 1, rest, formed, enough, _ => by
    have first : parseMember fuel (':' :: (value.render ++ (tail.renderTail ++ rest))) = some (value, tail.renderTail ++ rest) :=
      parseMember_render formed.2.1 (by simp only [Value.fuel] at enough; omega)
      (tail.renderTail_delimited rest)
    have second : parseMembers fuel (tail.renderTail ++ rest) = some (tail, rest) :=
      parseMembers_render formed.2.2 (by simp only [Value.fuel] at enough; omega)
    have text_eq : (Value.object (.cons key value tail)).render ++ rest =
        '{' :: '"' :: (key ++ '"' :: (':' :: (value.render ++ (tail.renderTail ++ rest)))) := by
      simp [Value.render]
    rw [text_eq, parseValue]
    change ((parseString (key ++ '"' :: (':' :: (value.render ++ (tail.renderTail ++ rest))))).bind _) = _
    rw [RawLiteral.parse formed.1]
    simp only [Option.bind_some, Option.bind_eq_bind, first, second]
    rfl

theorem parseMember_render : ∀ {v : Value} {fuel : Nat} {rest : Text}, v.WellFormed → v.fuel + 1 ≤ fuel → Delimited rest →
    parseMember fuel (':' :: (v.render ++ rest)) = some (v, rest)
  | v, fuel + 1, rest, formed, enough, delimited => by
    exact parseValue_render formed (by omega) delimited

theorem parseElements_render : ∀ {e : Elements} {fuel : Nat} {rest : Text}, e.WellFormed → e.fuel ≤ fuel →
    parseElements fuel (e.renderTail ++ rest) = some (e, rest)
  | e, 0, rest, _, enough => by
    exfalso
    revert enough
    unfold Elements.fuel
    split <;> omega
  | .nil, fuel + 1, rest, _, _ => rfl
  | .cons value tail, fuel + 1, rest, formed, enough => by
    have first : parseValue fuel (value.render ++ (tail.renderTail ++ rest)) = some (value, tail.renderTail ++ rest) :=
      parseValue_render formed.1 (by simp only [Elements.fuel] at enough; omega)
      (tail.renderTail_delimited rest)
    have second : parseElements fuel (tail.renderTail ++ rest) = some (tail, rest) :=
      parseElements_render formed.2 (by simp only [Elements.fuel] at enough; omega)
    have text_eq : (Elements.cons value tail).renderTail ++ rest = ',' :: (value.render ++ (tail.renderTail ++ rest)) := by
      simp [Elements.renderTail]
    rw [text_eq, parseElements]
    change ((parseValue fuel (value.render ++ (tail.renderTail ++ rest))).bind _) = _
    rw [first]
    simp only [Option.bind_some, Option.bind_eq_bind, second]
    rfl

theorem parseMembers_render : ∀ {m : Members} {fuel : Nat} {rest : Text}, m.WellFormed → m.fuel ≤ fuel →
    parseMembers fuel (m.renderTail ++ rest) = some (m, rest)
  | m, 0, rest, _, enough => by
    exfalso
    revert enough
    unfold Members.fuel
    split <;> omega
  | .nil, fuel + 1, rest, _, _ => rfl
  | .cons key value tail, fuel + 1, rest, formed, enough => by
    have first : parseMember fuel (':' :: (value.render ++ (tail.renderTail ++ rest))) = some (value, tail.renderTail ++ rest) :=
      parseMember_render formed.2.1 (by simp only [Members.fuel] at enough; omega)
      (tail.renderTail_delimited rest)
    have second : parseMembers fuel (tail.renderTail ++ rest) = some (tail, rest) :=
      parseMembers_render formed.2.2 (by simp only [Members.fuel] at enough; omega)
    have text_eq : (Members.cons key value tail).renderTail ++ rest =
        ',' :: '"' :: (key ++ '"' :: (':' :: (value.render ++ (tail.renderTail ++ rest)))) := by
      simp [Members.renderTail]
    rw [text_eq, parseMembers]
    change ((parseString (key ++ '"' :: (':' :: (value.render ++ (tail.renderTail ++ rest))))).bind _) = _
    rw [RawLiteral.parse formed.1]
    simp only [Option.bind_some, Option.bind_eq_bind, first, second]
    rfl
end

mutual
theorem Value.fuel_le : ∀ v : Value, v.WellFormed → v.fuel ≤ 2 * v.render.length
  | .null, _ => by simp [Value.fuel, Value.render]
  | .bool true, _ => by simp [Value.fuel, Value.render]
  | .bool false, _ => by simp [Value.fuel, Value.render]
  | .number literal, formed => by
    obtain ⟨c, tail, rfl, -⟩ := validNumber_head formed.1
    simp [Value.fuel, Value.render]
    omega
  | .string raw, _ => by
    simp [Value.fuel, Value.render]
    omega
  | .array .nil, _ => by simp [Value.fuel, Value.render]
  | .array (.cons value rest), formed => by
    have first := value.fuel_le formed.1
    have second := rest.fuel_le formed.2
    simp only [Value.fuel, Value.render, length_cons, length_append]
    omega
  | .object .nil, _ => by simp [Value.fuel, Value.render]
  | .object (.cons key value rest), formed => by
    have first := value.fuel_le formed.2.1
    have second := rest.fuel_le formed.2.2
    simp only [Value.fuel, Value.render, length_cons, length_append]
    omega

theorem Elements.fuel_le : ∀ e : Elements, e.WellFormed → e.fuel ≤ 2 * e.renderTail.length
  | .nil, _ => by simp [Elements.fuel, Elements.renderTail]
  | .cons value rest, formed => by
    have first := value.fuel_le formed.1
    have second := rest.fuel_le formed.2
    simp only [Elements.fuel, Elements.renderTail, length_cons, length_append]
    omega

theorem Members.fuel_le : ∀ m : Members, m.WellFormed → m.fuel ≤ 2 * m.renderTail.length
  | .nil, _ => by simp [Members.fuel, Members.renderTail]
  | .cons key value rest, formed => by
    have first := value.fuel_le formed.2.1
    have second := rest.fuel_le formed.2.2
    simp only [Members.fuel, Members.renderTail, length_cons, length_append]
    omega
end

/-- A document is read back from its encoding. -/
theorem parse_render (formed : v.WellFormed) : parse v.render = some v := by
  have enough := v.fuel_le formed
  have reads : parseValue (2 * v.render.length + 2) (v.render ++ []) = some (v, []) :=
    parseValue_render formed (by omega) delimited_nil
  rw [append_nil] at reads
  unfold parse
  rw [reads]
  rfl

end Pagnet.Json
