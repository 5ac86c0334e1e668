import Mathlib.Tactic.SplitIfs
import Pagnet.Json.Encoding

/-!
# Bounded documents

`DecodeJSONWithLimits` walks over a document before it is decoded: collections
may not nest deeper than a limit, object members and array elements are counted
together, and no object may name a member twice. `validateValue` is that walk;
`validateValue_eq` says what it accepts.
-/

namespace Pagnet.Json
open List

/-- `fabric.WireLimits`. -/
structure WireLimits where
  maxBytes : Int
  maxDepth : Int
  maxMembers : Int

/-! ## Strings that were escaped -/

def hexValue (c : Char) : Nat :=
  if c.isDigit then c.toNat - '0'.toNat else if 'a' ≤ c then c.toNat - 'a'.toNat + 10 else c.toNat - 'A'.toNat + 10

def hex4Value (a b c d : Char) : Nat := ((hexValue a * 16 + hexValue b) * 16 + hexValue c) * 16 + hexValue d

/-- What a one-letter escape stands for. -/
def unescapeChar (c : Char) : Char :=
  if c == 'b' then '\u0008' else if c == 'f' then '\u000c' else if c == 'n' then '\n' else if c == 'r' then '\r'
  else if c == 't' then '\t' else c

/-- Two halves of a character beyond the basic plane. -/
def surrogates (high low : Nat) : Option Char :=
  if 0xd800 ≤ high && high < 0xdc00 && 0xdc00 ≤ low && low < 0xe000 then
    some (Char.ofNat ((high - 0xd800) * 1024 + (low - 0xdc00) + 0x10000))
  else none

/-- The units of a string literal: a `\u` escape is half of a character, maybe. -/
def literalUnits : Text → List (Nat ⊕ Char)
  | '\\' :: 'u' :: a :: b :: c :: d :: rest => .inl (hex4Value a b c d) :: literalUnits rest
  | '\\' :: c :: rest => .inr (unescapeChar c) :: literalUnits rest
  | c :: rest => .inr c :: literalUnits rest
  | [] => []

/-- A half that waits for the other one, or a character. -/
def halfOf (unit : Nat) : Option Nat × Text :=
  if 0xd800 ≤ unit && unit < 0xe000 then (some unit, []) else (none, [Char.ofNat unit])

/-- Join the units, with the half before them. A half alone is a replacement character. -/
def joinUnits : Option Nat → List (Nat ⊕ Char) → Text
  | none, .inl unit :: rest => (halfOf unit).2 ++ joinUnits (halfOf unit).1 rest
  | none, .inr c :: rest => c :: joinUnits none rest
  | none, [] => []
  | some high, .inl unit :: rest =>
    match surrogates high unit with
    | some c => c :: joinUnits none rest
    | none => '�' :: ((halfOf unit).2 ++ joinUnits (halfOf unit).1 rest)
  | some _, .inr c :: rest => '�' :: c :: joinUnits none rest
  | some _, [] => ['�']

/-- The characters of a string literal. -/
def unescape (raw : Text) : Text := joinUnits none (literalUnits raw)

/-! ## The walk -/

mutual
/-- `validateJSONValue`: the members counted so far go in, and come out with those of the value. -/
def validateValue (l : WireLimits) (depth : Nat) : Value → Nat → Option Nat
  | .array elements, members => if l.maxDepth ≤ depth then none else validateElements l depth elements members
  | .object fields, members => if l.maxDepth ≤ depth then none else validateMembers l depth [] fields members
  | _, members => some members

def validateElements (l : WireLimits) (depth : Nat) : Elements → Nat → Option Nat
  | .nil, members => some members
  | .cons value rest, members =>
    if l.maxMembers ≤ members then none
    else (validateValue l (depth + 1) value (members + 1)).bind (validateElements l depth rest)

def validateMembers (l : WireLimits) (depth : Nat) (seen : List Text) : Members → Nat → Option Nat
  | .nil, members => some members
  | .cons key value rest, members =>
    if l.maxMembers ≤ members then none
    else if unescape key ∈ seen then none
    else (validateValue l (depth + 1) value (members + 1)).bind (validateMembers l depth (unescape key :: seen) rest)
end

/-- `DecodeJSONWithLimits` of a document that is written as a value. Decoding has a nesting limit of its own. -/
def decodesValue (l : WireLimits) (v : Value) : Bool :=
  0 < l.maxBytes && 0 < l.maxDepth && 0 < l.maxMembers && v.size ≤ l.maxBytes && (validateValue l 0 v 0).isSome &&
    v.depth ≤ maxNestingDepth

/-- `DecodeJSONWithLimits` of a text, into an interface. -/
def decodesText (l : WireLimits) (text : Text) : Bool :=
  0 < l.maxBytes && 0 < l.maxDepth && 0 < l.maxMembers && size text ≤ l.maxBytes &&
    (parse text).any fun v => (validateValue l 0 v 0).isSome && v.depth ≤ maxNestingDepth

/-! ## What the walk accepts -/

mutual
/-- Members and elements together. -/
def Value.members : Value → Nat
  | .array elements => elements.members
  | .object fields => fields.members
  | _ => 0

def Elements.members : Elements → Nat
  | .nil => 0
  | .cons value rest => 1 + value.members + rest.members

def Members.members : Members → Nat
  | .nil => 0
  | .cons _ value rest => 1 + value.members + rest.members
end

mutual
/-- No object names a member twice. -/
def Value.distinct : Value → Bool
  | .array elements => elements.distinct
  | .object fields => fields.distinct []
  | _ => true

def Elements.distinct : Elements → Bool
  | .nil => true
  | .cons value rest => value.distinct && rest.distinct

def Members.distinct (seen : List Text) : Members → Bool
  | .nil => true
  | .cons key value rest => unescape key ∉ seen && value.distinct && rest.distinct (unescape key :: seen)
end

/-- The walk goes on while there is room, and counts. -/
def counted (l : WireLimits) (depth members : Nat) (distinct : Bool) : Option Nat :=
  if (depth : Int) ≤ l.maxDepth ∧ (members : Int) ≤ l.maxMembers ∧ distinct = true then some members else none

variable {l : WireLimits}

theorem counted_bind {depth depth' members members' : Nat} {distinct distinct' : Bool} {next : Nat → Option Nat}
    (goes : (members : Int) ≤ l.maxMembers → next members = counted l depth' members' distinct')
    (more : members ≤ members') :
    (counted l depth members distinct).bind next = counted l (max depth depth') members' (distinct && distinct') := by
  unfold counted at goes ⊢
  by_cases room : (members : Int) ≤ l.maxMembers
  · rw [apply_ite (Option.bind · next), Option.bind_some, Option.bind_none, goes room, ← ite_and]
    refine if_congr ?_ rfl rfl
    rw [Bool.and_eq_true]
    constructor
    · rintro ⟨⟨deep, -, first⟩, deep', many, second⟩
      exact ⟨by omega, many, first, second⟩
    · rintro ⟨deep, many, first, second⟩
      exact ⟨⟨by omega, room, first⟩, by omega, many, second⟩
  · rw [if_neg (by omega), Option.bind_none, if_neg (by omega)]

mutual
theorem validateValue_eq (v : Value) (depth members : Nat) (deep : (depth : Int) ≤ l.maxDepth)
    (many : (members : Int) ≤ l.maxMembers) :
    validateValue l depth v members = counted l (depth + v.depth) (members + v.members) v.distinct := by
  cases v with
  | array elements =>
    simp only [validateValue, Value.depth, Value.members, Value.distinct]
    by_cases below : l.maxDepth ≤ depth
    · rw [if_pos below, counted, if_neg (by omega)]
    · rw [if_neg below, validateElements_eq elements depth members (by omega) many]
      congr 1
      omega
  | object fields =>
    simp only [validateValue, Value.depth, Value.members, Value.distinct]
    by_cases below : l.maxDepth ≤ depth
    · rw [if_pos below, counted, if_neg (by omega)]
    · rw [if_neg below, validateMembers_eq fields depth members [] (by omega) many]
      congr 1
      omega
  | null | bool | number | string =>
    simp [validateValue, counted, Value.depth, Value.members, Value.distinct, deep, many]

theorem validateElements_eq (elements : Elements) (depth members : Nat) (deep : (depth : Int) < l.maxDepth)
    (many : (members : Int) ≤ l.maxMembers) : validateElements l depth elements members =
      counted l (depth + 1 + elements.depth) (members + elements.members) elements.distinct := by
  cases elements with
  | nil =>
    rw [validateElements, Elements.depth, Elements.members, Elements.distinct, counted, if_pos ⟨by omega, by omega, rfl⟩]
    rfl
  | cons value rest =>
    rw [validateElements, Elements.depth, Elements.members, Elements.distinct]
    by_cases full : l.maxMembers ≤ members
    · rw [if_pos full, counted, if_neg (by omega)]
    · rw [if_neg full, validateValue_eq value (depth + 1) (members + 1) (by omega) (by omega),
        counted_bind (fun room => validateElements_eq rest depth _ deep room) (by omega)]
      congr 1 <;> omega

theorem validateMembers_eq (fields : Members) (depth members : Nat) (seen : List Text) (deep : (depth : Int) < l.maxDepth)
    (many : (members : Int) ≤ l.maxMembers) : validateMembers l depth seen fields members =
      counted l (depth + 1 + fields.depth) (members + fields.members) (fields.distinct seen) := by
  cases fields with
  | nil =>
    rw [validateMembers, Members.depth, Members.members, Members.distinct, counted, if_pos ⟨by omega, by omega, rfl⟩]
    rfl
  | cons key value rest =>
    rw [validateMembers, Members.depth, Members.members, Members.distinct]
    by_cases full : l.maxMembers ≤ members
    · rw [if_pos full, counted, if_neg (by omega)]
    · rw [if_neg full]
      by_cases twice : unescape key ∈ seen
      · rw [if_pos twice, counted, if_neg (by simp [twice])]
      · rw [if_neg twice, validateValue_eq value (depth + 1) (members + 1) (by omega) (by omega),
          counted_bind (fun room => validateMembers_eq rest depth _ (unescape key :: seen) deep room) (by omega),
          decide_eq_true twice, Bool.true_and]
        congr 1 <;> omega
end

/-- A document within the limits is decoded. -/
theorem decodesValue_eq_true {v : Value} (bytes : 0 < l.maxBytes) (depth : 0 < l.maxDepth) (members : 0 < l.maxMembers) :
    decodesValue l v ↔ (v.size : Int) ≤ l.maxBytes ∧ (v.depth : Int) ≤ l.maxDepth ∧
      (v.members : Int) ≤ l.maxMembers ∧ v.distinct ∧ v.depth ≤ maxNestingDepth := by
  unfold decodesValue
  rw [validateValue_eq v 0 0 (by simpa using depth.le) (by simpa using members.le), counted]
  simp only [bytes, depth, members, decide_true, Bool.true_and, Bool.and_eq_true, decide_eq_true_eq, Nat.zero_add]
  split_ifs with within
  · simp [within]
  · simp only [Option.isSome_none, Bool.false_eq_true, and_false, false_and, false_iff]
    rintro ⟨-, deep, many, distinct, -⟩
    exact within ⟨deep, many, distinct⟩

/-! ## Encoded structs and slices -/

theorem depth_ofFields (fields : List (String × Value)) :
    (Value.ofFields fields).depth = (fields.map fun f => f.2.depth).foldr max 0 + 1 := by
  have tail : ∀ fields : List (String × Value),
      (Members.ofFields fields).depth = (fields.map fun f => f.2.depth).foldr max 0 := by
    intro fields
    induction fields with
    | nil => rfl
    | cons f rest ih => rw [Members.ofFields, Members.depth, ih, map_cons, foldr_cons]
  rw [Value.ofFields, Value.depth, tail]

theorem members_ofFields (fields : List (String × Value)) :
    (Value.ofFields fields).members = (fields.map fun f => 1 + f.2.members).sum := by
  have tail : ∀ fields : List (String × Value),
      (Members.ofFields fields).members = (fields.map fun f => 1 + f.2.members).sum := by
    intro fields
    induction fields with
    | nil => rfl
    | cons f rest ih => rw [Members.ofFields, Members.members, ih, map_cons, sum_cons]
  rw [Value.ofFields, Value.members, tail]

/-- A struct has no member twice when its fields have distinct names. -/
theorem distinct_ofFields {fields : List (String × Value)} (names : (fields.map fun f => unescape (quote f.1)).Nodup)
    (values : ∀ f ∈ fields, f.2.distinct) : (Value.ofFields fields).distinct := by
  have tail : ∀ (fields : List (String × Value)) (seen : List Text),
      (fields.map fun f => unescape (quote f.1)).Nodup → (∀ f ∈ fields, unescape (quote f.1) ∉ seen) →
      (∀ f ∈ fields, f.2.distinct) → (Members.ofFields fields).distinct seen := by
    intro fields
    induction fields with
    | nil => exact fun _ _ _ _ => rfl
    | cons f rest ih =>
      intro seen names fresh values
      obtain ⟨first, names⟩ := nodup_cons.1 names
      rw [Members.ofFields, Members.distinct, decide_eq_true (fresh f mem_cons_self),
        values f mem_cons_self, Bool.true_and, Bool.true_and]
      refine ih _ names (fun g mem => ?_) fun g mem => values g (mem_cons_of_mem _ mem)
      rw [mem_cons, not_or]
      exact ⟨fun same => first (mem_map.2 ⟨g, mem, same⟩), fresh g (mem_cons_of_mem _ mem)⟩
  exact tail fields [] names (fun _ _ => not_mem_nil) values

theorem depth_ofList (values : List Value) :
    (Value.ofList values).depth = (values.map Value.depth).foldr max 0 + 1 := by
  have tail : ∀ values : List Value, (Elements.ofList values).depth = (values.map Value.depth).foldr max 0 := by
    intro values
    induction values with
    | nil => rfl
    | cons v rest ih => rw [Elements.ofList, Elements.depth, ih, map_cons, foldr_cons]
  rw [Value.ofList, Value.depth, tail]

theorem members_ofList (values : List Value) :
    (Value.ofList values).members = (values.map fun v => 1 + v.members).sum := by
  have tail : ∀ values : List Value, (Elements.ofList values).members = (values.map fun v => 1 + v.members).sum := by
    intro values
    induction values with
    | nil => rfl
    | cons v rest ih => rw [Elements.ofList, Elements.members, ih, map_cons, sum_cons]
  rw [Value.ofList, Value.members, tail]

theorem distinct_ofList {values : List Value} (each : ∀ v ∈ values, v.distinct) :
    (Value.ofList values).distinct := by
  have tail : ∀ values : List Value, (∀ v ∈ values, v.distinct) → (Elements.ofList values).distinct := by
    intro values
    induction values with
    | nil => exact fun _ => rfl
    | cons v rest ih =>
      intro each
      rw [Elements.ofList, Elements.distinct, each v mem_cons_self, Bool.true_and]
      exact ih fun w mem => each w (mem_cons_of_mem _ mem)
  exact tail values each

@[simp] theorem depth_ofString (s : String) : (Value.ofString s).depth = 0 := rfl

@[simp] theorem members_ofString (s : String) : (Value.ofString s).members = 0 := rfl

@[simp] theorem distinct_ofString (s : String) : (Value.ofString s).distinct := rfl

@[simp] theorem depth_ofInt (n : Int) : (Value.ofInt n).depth = 0 := rfl

@[simp] theorem members_ofInt (n : Int) : (Value.ofInt n).members = 0 := rfl

@[simp] theorem distinct_ofInt (n : Int) : (Value.ofInt n).distinct := rfl

@[simp] theorem depth_ofBytes (bytes : List UInt8) : (Value.ofBytes bytes).depth = 0 := rfl

@[simp] theorem members_ofBytes (bytes : List UInt8) : (Value.ofBytes bytes).members = 0 := rfl

@[simp] theorem distinct_ofBytes (bytes : List UInt8) : (Value.ofBytes bytes).distinct := rfl

@[simp] theorem depth_timestamp (t : Timestamp) : t.toJson.depth = 0 := rfl

@[simp] theorem members_timestamp (t : Timestamp) : t.toJson.members = 0 := rfl

@[simp] theorem distinct_timestamp (t : Timestamp) : t.toJson.distinct := rfl

end Pagnet.Json
