import Mathlib.Data.String.Basic
import Pagnet.Json.Encoding

/-!
# References and names

`fabric/ref.go`, and the name checks of `fabric/version.go` and
`fabric/model.go`. A reference is the zero value or canonical: its fields are
not exported, and every constructor makes it so.
-/

namespace Pagnet.Fabric
open Json List

/-- A digit of the reference alphabet. -/
def isBase32 (c : Char) : Bool := ('a' ≤ c && c ≤ 'z') || ('2' ≤ c && c ≤ '7')

/-- 52 digits encode 32 bytes if the last one, of which only one bit is used,
encodes no other. -/
def canonicalReferenceID (text : String) : Bool :=
  (chars text).length == 52 && (chars text).all isBase32 &&
    ((chars text).getLast? == some 'a' || (chars text).getLast? == some 'q')

def canonicalDomainNamespace (text : String) : Bool :=
  (chars text).length == 54 && (chars text).take 2 == ['d', '-'] && canonicalReferenceID (String.ofList ((chars text).drop 2))

structure EndpointRef where
  domain : String
  endpointID : String
  offerID : String
  wellFormed : domain = "" ∧ endpointID = "" ∧ offerID = "" ∨
    canonicalDomainNamespace domain ∧ canonicalReferenceID endpointID ∧
      (offerID = "" ∨ canonicalReferenceID offerID)
  deriving DecidableEq

def referencePrefix : String := "pagnet://"

namespace EndpointRef

/-- The zero value denotes no reference. -/
def zero : EndpointRef := ⟨"", "", "", .inl ⟨rfl, rfl, rfl⟩⟩

def toString (r : EndpointRef) : String :=
  if r.domain = "" ∨ r.endpointID = "" then ""
  else referencePrefix ++ r.domain ++ "/e/" ++ r.endpointID ++ (if r.offerID = "" then "" else "#o-" ++ r.offerID)

end EndpointRef

/-- Only the two exact canonical forms are accepted. -/
def parseEndpointRef (text : String) : Option EndpointRef :=
  let cs := chars text
  let domain := String.ofList ((cs.drop 9).take 54)
  let endpointID := String.ofList ((cs.drop 66).take 52)
  let offerID := String.ofList (cs.drop 121)
  if head : (cs.length = 118 ∨ cs.length = 173) ∧ cs.take 9 = referencePrefix.toList ∧
      canonicalDomainNamespace domain ∧ (cs.drop 63).take 3 = "/e/".toList ∧
      canonicalReferenceID endpointID = true then
    if cs.length = 173 then
      if offer : (cs.drop 118).take 3 = "#o-".toList ∧ canonicalReferenceID offerID = true then
        some ⟨domain, endpointID, offerID, .inr ⟨head.2.2.1, head.2.2.2.2, .inr offer.2⟩⟩
      else none
    else some ⟨domain, endpointID, "", .inr ⟨head.2.2.1, head.2.2.2.2, .inl rfl⟩⟩
  else none

variable {text : String} {r : EndpointRef}

theorem canonicalReferenceID_length (h : canonicalReferenceID text) : text.toList.length = 52 := by
  simp only [canonicalReferenceID, chars_eq_toList, Bool.and_eq_true, beq_iff_eq] at h
  exact h.1.1

theorem canonicalDomainNamespace_length (h : canonicalDomainNamespace text) : text.toList.length = 54 := by
  simp only [canonicalDomainNamespace, chars_eq_toList, Bool.and_eq_true, beq_iff_eq] at h
  exact h.1.1

theorem ne_empty_of_length {n : Nat} (h : text.toList.length = n + 1) : text ≠ "" := by
  rintro rfl
  simp at h

namespace EndpointRef

variable {r : EndpointRef}

/-- The characters of a reference that is not zero. -/
theorem toString_toList (canonical : canonicalDomainNamespace r.domain)
    (endpoint : canonicalReferenceID r.endpointID) : r.toString.toList = referencePrefix.toList ++ (r.domain.toList ++
      ("/e/".toList ++ (r.endpointID.toList ++ if r.offerID = "" then [] else "#o-".toList ++ r.offerID.toList))) := by
  have named : r.domain ≠ "" := ne_empty_of_length (canonicalDomainNamespace_length canonical)
  have identified : r.endpointID ≠ "" := ne_empty_of_length (canonicalReferenceID_length endpoint)
  simp only [toString, named, identified, or_false, if_false, String.toList_append, append_assoc]
  split <;> simp

theorem eq_of_fields {r' : EndpointRef} (domain : r.domain = r'.domain) (endpointID : r.endpointID = r'.endpointID)
    (offerID : r.offerID = r'.offerID) : r = r' := by
  cases r
  cases r'
  cases domain
  cases endpointID
  cases offerID
  rfl

theorem toString_zero : zero.toString = "" := rfl

/-- A reference that is not zero, by its parts. -/
theorem canonical_of_ne (nonzero : r ≠ zero) : canonicalDomainNamespace r.domain ∧
    canonicalReferenceID r.endpointID ∧ (r.offerID = "" ∨ canonicalReferenceID r.offerID) := by
  rcases r.wellFormed with ⟨domain, endpointID, offerID⟩ | canonical
  · exact absurd (eq_of_fields domain endpointID offerID) nonzero
  · exact canonical

end EndpointRef

/-- Parsing gives back every reference. -/
theorem parse_toString (nonzero : r ≠ .zero) : parseEndpointRef r.toString = some r := by
  obtain ⟨canonical, endpoint, offer⟩ := EndpointRef.canonical_of_ne nonzero
  have text := (chars_eq_toList _).trans (EndpointRef.toString_toList canonical endpoint)
  have domainLength := canonicalDomainNamespace_length canonical
  have endpointLength := canonicalReferenceID_length endpoint
  have first : referencePrefix.toList.length = 9 := by decide
  have second : "/e/".toList.length = 3 := by decide
  have third : "#o-".toList.length = 3 := by decide
  have domain : ((chars r.toString).drop 9).take 54 = r.domain.toList := by
    rw [text, drop_left' first, take_left' domainLength]
  have separator : ((chars r.toString).drop 63).take 3 = "/e/".toList := by
    rw [text, ← append_assoc, drop_left' (by simp [first, domainLength]), take_left' second]
  have identity : ((chars r.toString).drop 66).take 52 = r.endpointID.toList := by
    rw [text, ← append_assoc, ← append_assoc, drop_left' (by simp [first, domainLength]),
      take_left' endpointLength]
  have rest : (chars r.toString).drop 118 = if r.offerID = "" then [] else "#o-".toList ++ r.offerID.toList := by
    rw [text, ← append_assoc, ← append_assoc, ← append_assoc,
      drop_left' (by simp [first, domainLength, endpointLength])]
  have length : (chars r.toString).length = 118 + ((chars r.toString).drop 118).length := by
    rw [rest, text]
    simp only [length_append, first, domainLength, second, endpointLength]
    omega
  have start : (chars r.toString).take 9 = referencePrefix.toList := by
    rw [text, take_left' first]
  unfold parseEndpointRef
  simp only [domain, separator, identity, start, String.ofList_toList, canonical, endpoint, and_true]
  rcases offer with plain | offered
  · rw [if_pos plain] at rest
    rw [rest] at length
    simp only [length, length_nil, Nat.add_zero, true_or, dite_true, Nat.reduceEqDiff, if_false]
    exact congrArg some (EndpointRef.eq_of_fields rfl rfl plain.symm)
  · have offerLength := canonicalReferenceID_length offered
    rw [if_neg (ne_empty_of_length offerLength)] at rest
    have last : (chars r.toString).drop 121 = r.offerID.toList := by
      rw [show 121 = 118 + 3 from rfl, ← drop_drop, rest, drop_left' third]
    rw [rest, length_append, third, offerLength] at length
    simp only [length, last, rest, take_left' third, String.ofList_toList, offered, and_true, or_true, dite_true,
      if_true]

/-- A list in five parts, where a reference has them. -/
theorem split_reference (cs : List Char) : cs = cs.take 9 ++ ((cs.drop 9).take 54 ++ ((cs.drop 63).take 3 ++
    ((cs.drop 66).take 52 ++ cs.drop 118))) := by
  have third : (cs.drop 66).take 52 ++ cs.drop 118 = cs.drop 66 := by
    rw [show 118 = 66 + 52 from rfl, ← drop_drop, take_append_drop]
  have second : (cs.drop 63).take 3 ++ cs.drop 66 = cs.drop 63 := by
    rw [show 66 = 63 + 3 from rfl, ← drop_drop, take_append_drop]
  have first : (cs.drop 9).take 54 ++ cs.drop 63 = cs.drop 9 := by
    rw [show 63 = 9 + 54 from rfl, ← drop_drop, take_append_drop]
  rw [third, second, first, take_append_drop]

/-- The text of a reference by its parts. -/
theorem EndpointRef.toString_of_parts {cs : List Char} (start : cs.take 9 = referencePrefix.toList)
    (domain : r.domain.toList = (cs.drop 9).take 54) (canonical : canonicalDomainNamespace r.domain)
    (separator : (cs.drop 63).take 3 = "/e/".toList) (endpointID : r.endpointID.toList = (cs.drop 66).take 52)
    (endpoint : canonicalReferenceID r.endpointID)
    (offer : cs.drop 118 = if r.offerID = "" then [] else "#o-".toList ++ r.offerID.toList) :
    r ≠ zero ∧ r.toString.toList = cs := by
  have named := ne_empty_of_length (canonicalDomainNamespace_length canonical)
  refine ⟨fun zeroed => named (congrArg EndpointRef.domain zeroed), ?_⟩
  rw [toString_toList canonical endpoint, ← start, domain, ← separator, endpointID, ← offer]
  exact (split_reference cs).symm

/-- A text that is parsed is the text of its reference, which is not zero. -/
theorem of_parse (h : parseEndpointRef text = some r) : r ≠ .zero ∧ r.toString = text := by
  suffices parts : r ≠ .zero ∧ r.toString.toList = chars text from
    ⟨parts.1, String.toList_injective (parts.2.trans (chars_eq_toList text))⟩
  unfold parseEndpointRef at h
  dsimp only at h
  split at h
  case isFalse => cases h
  rename_i head
  obtain ⟨lengths, start, canonical, separator, endpoint⟩ := head
  split at h
  · split at h
    case isFalse => cases h
    rename_i offer
    have tail : (chars text).drop 118 = "#o-".toList ++ (chars text).drop 121 := by
      rw [← offer.1, show 121 = 118 + 3 from rfl, ← drop_drop, take_append_drop]
    have offered := ne_empty_of_length (canonicalReferenceID_length offer.2)
    have listed : (chars text).drop 121 = (String.ofList ((chars text).drop 121)).toList := String.toList_ofList.symm
    rw [listed] at tail
    cases h
    exact EndpointRef.toString_of_parts start String.toList_ofList canonical separator String.toList_ofList endpoint
      (tail.trans (if_neg offered).symm)
  next short =>
    cases h
    have tail : (chars text).drop 118 = [] := drop_of_length_le (by omega)
    exact EndpointRef.toString_of_parts start String.toList_ofList canonical separator String.toList_ofList endpoint
      (tail.trans (if_pos rfl).symm)

/-- Only the zero reference is not canonical. -/
theorem isNone_parse (r : EndpointRef) : (parseEndpointRef r.toString).isNone = decide (r = .zero) := by
  by_cases zeroed : r = .zero
  · rw [zeroed, EndpointRef.toString_zero]
    decide
  · rw [parse_toString zeroed, decide_eq_false zeroed]
    rfl

/-- Different references have different texts. -/
theorem EndpointRef.toString_injective {r' : EndpointRef} (h : r.toString = r'.toString) : r = r' := by
  have nonempty : ∀ q : EndpointRef, q ≠ zero → q.toString ≠ "" := by
    intro q nonzero empty
    have parsed := parse_toString nonzero
    rw [empty] at parsed
    cases parsed
  by_cases left : r = zero
  · by_cases right : r' = zero
    · rw [left, right]
    · exact absurd (h ▸ left ▸ toString_zero) (nonempty r' right)
  · by_cases right : r' = zero
    · exact absurd (h.trans (right ▸ toString_zero)) (nonempty r left)
    · exact Option.some.inj ((parse_toString left).symm.trans (h ▸ parse_toString right))

/-- No reference holds the separator of a revision key. -/
theorem EndpointRef.not_mem_nul (r : EndpointRef) : '\x00' ∉ r.toString.toList := by
  by_cases zeroed : r = zero
  · simp [zeroed, toString_zero]
  obtain ⟨canonical, endpoint, offer⟩ := canonical_of_ne zeroed
  have digits : ∀ text, canonicalReferenceID text → '\x00' ∉ text.toList := by
    intro text h mem
    simp only [canonicalReferenceID, chars_eq_toList, Bool.and_eq_true, all_eq_true] at h
    exact absurd (h.1.2 _ mem) (by decide)
  have domain : '\x00' ∉ r.domain.toList := by
    intro mem
    simp only [canonicalDomainNamespace, chars_eq_toList, Bool.and_eq_true, beq_iff_eq] at canonical
    rw [← take_append_drop 2 r.domain.toList, mem_append, canonical.1.2] at mem
    rcases mem with mem | mem
    · exact absurd mem (by decide)
    · exact digits _ canonical.2 (by simpa using mem)
  have fixed : '\x00' ∉ referencePrefix.toList ∧ '\x00' ∉ "/e/".toList ∧ '\x00' ∉ "#o-".toList := by decide
  rw [toString_toList canonical endpoint]
  simp only [mem_append, fixed.1, fixed.2.1, domain, digits _ endpoint, false_or]
  rcases offer with plain | offered
  · simp [plain]
  · split
    · simp
    · simp only [mem_append, fixed.2.2, digits _ offered, or_false, not_false_eq_true]

/-- Extensible identifiers: parts of lower-case letters, digits, `_` and `-`,
separated by dots. -/
def validNamespacedName (s : String) : Bool :=
  0 < s.utf8ByteSize && s.utf8ByteSize ≤ 256 && s.toList.contains '.' &&
    (s.toList.splitOn '.').all fun part =>
      match part with
      | [] => false
      | c :: _ => 'a' ≤ c && c ≤ 'z' &&
        part.all fun c => ('a' ≤ c && c ≤ 'z') || ('0' ≤ c && c ≤ '9') || c == '_' || c == '-'

/-- Text without control characters, within a bound. -/
def validText (s : String) (max : Nat) : Bool :=
  0 < s.utf8ByteSize && s.utf8ByteSize ≤ max && s.toList.all fun c => 32 ≤ c.toNat && c.toNat != 127

end Pagnet.Fabric
