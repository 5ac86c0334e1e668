import Mathlib.Algebra.Order.BigOperators.Group.List
import Pagnet.Search.Backend

/-!
# Corpus statistics

The statistics of a corpus are counted in and out with unsigned counters. They
are exact: a document is only taken out after it was counted in, and no sum of
document lengths comes near `2 ^ 64`, because a document has no more tokens than
its encoding has bytes.
-/

namespace Pagnet.Search
open Json Fabric List

/-! ## Tokens are within the encoding -/

theorem length_fieldsFunc (separator : Char → Bool) (run text : Text) :
    (fieldsFunc separator run text).length ≤ run.length + text.length := by
  induction text generalizing run with
  | nil =>
    unfold fieldsFunc
    split
    · simp
    case isFalse more =>
      have := length_pos_iff.2 more
      simp only [length_singleton, length_nil]
      omega
  | cons c rest ih =>
    simp only [fieldsFunc]
    split
    · have fresh := ih []
      split
      · simp only [length_cons, length_nil] at fresh ⊢
        omega
      case isFalse more =>
        simp only [length_cons, length_nil] at fresh ⊢
        omega
    · have longer := ih (run ++ [c])
      simp only [length_append, length_cons, length_nil] at longer ⊢
      omega

theorem length_tokenize (lib : Library) (text : String) : (tokenize lib text).length ≤ (Value.ofString text).size := by
  have split := length_fieldsFunc (fun c => !lib.isLetter c && !lib.isNumber c) [] (text.toList.map lib.toLower)
  have whole := length_le_size_ofString text
  simp only [tokenize, length_map, length_nil] at split ⊢
  omega

theorem length_tokens_list (lib : Library) (key : String) (texts : List String) :
    (texts.flatMap (tokenize lib)).length ≤
      ((omitEmpty key [] (fun texts => Value.ofList (texts.map .ofString)) texts).map fun field => field.2.size).sum := by
  unfold omitEmpty
  split
  case isTrue empty => simp [empty]
  case isFalse =>
    have members := sum_le_size_ofList (texts.map Value.ofString)
    have each : (texts.flatMap (tokenize lib)).length ≤ ((texts.map Value.ofString).map Value.size).sum := by
      rw [length_flatMap, map_map]
      exact sum_le_sum fun text _ => length_tokenize lib text
    simp only [map_cons, map_nil, sum_cons, sum_nil]
    omega

/-- A document has at most as many tokens as its encoding has bytes. -/
theorem length_le_encodedBytes (lib : Library) (d : SearchDocument) :
    (indexDocument lib d).length ≤ (indexDocument lib d).encodedBytes := by
  have name := length_tokenize lib d.name
  have description := length_tokenize lib d.shortDescription
  have tags := length_tokens_list lib "tags" d.tags
  have samples := length_tokens_list lib "examples" d.examples
  change (documentTokens lib d).length ≤ d.toJson.size
  refine le_trans ?_ (sum_le_size_ofFields _)
  simp only [documentTokens, flatMap_append, length_append, flatMap_cons, flatMap_nil, length_nil,
    map_append, sum_append, map_cons, sum_cons, map_nil, sum_nil]
  omega

/-! ## Counting documents -/

/-- The term of a document with this name. -/
def Indexed.hasTerm (d : Indexed) (name : String) : Bool := d.terms.any fun t => t.name == name

/-- An entry for a number that is not zero. -/
def countOf (n : Nat) : Option Nat := if n = 0 then none else some n

@[simp] theorem getD_countOf (n : Nat) : (countOf n).getD 0 = n := by
  unfold countOf
  split
  case isTrue h => exact h.symm
  case isFalse => rfl

/-- The statistics of these documents. -/
structure Corpus.Describes (c : Corpus) (docs : List Indexed) : Prop where
  count : c.count = docs.length
  totalLength : c.totalLength = (docs.map Indexed.length).sum
  df : ∀ name, c.df.get name = countOf (docs.countP (·.hasTerm name))

theorem Corpus.Describes.perm {c : Corpus} {docs docs' : List Indexed} (described : c.Describes docs)
    (same : docs.Perm docs') : c.Describes docs' where
  count := described.count.trans same.length_eq
  totalLength := described.totalLength.trans (same.map Indexed.length).sum_eq
  df name := by rw [described.df, same.countP_eq]

theorem Corpus.describes_nil : Corpus.Describes ⟨0, 0, .empty⟩ [] := ⟨rfl, rfl, fun _ => rfl⟩

theorem adjustDF_get (add : Bool) (df : Dictionary String Nat) (t : Term) (name : String) :
    (adjustDF add df t).get name = if name = t.name then
        countOf (if add then add64 ((df.get name).getD 0) 1 else sub64 ((df.get name).getD 0) 1)
      else df.get name := by
  -- a count is written, or dropped when it is zero
  have get_write (n : Nat) :
      (if n = 0 then df.remove t.name else df.put t.name n).get name = if name = t.name then countOf n else df.get name := by
    unfold countOf
    split
    · exact Dictionary.get_remove ..
    · exact Dictionary.get_put ..
  refine (get_write _).trans ?_
  by_cases here : name = t.name
  · rw [here]
  · rw [if_neg here, if_neg here]

/-- The names of a document's terms are distinct, so each count moves once. -/
theorem foldl_adjustDF_get (add : Bool) {terms : List Term} (sorted : terms.Pairwise fun a b => a.name < b.name)
    (df : Dictionary String Nat) (name : String) : (terms.foldl (adjustDF add) df).get name =
      if terms.any (fun t => t.name == name) then
        countOf (if add then add64 ((df.get name).getD 0) 1 else sub64 ((df.get name).getD 0) 1)
      else df.get name := by
  induction terms generalizing df with
  | nil => rfl
  | cons t rest ih =>
    obtain ⟨below, later⟩ := pairwise_cons.1 sorted
    rw [foldl_cons, ih later, adjustDF_get, any_cons]
    by_cases here : t.name = name
    · have absent : rest.any (fun t => t.name == name) = false := by
        rw [any_eq_false]
        intro other mem
        have lt := below other mem
        rw [here] at lt
        simpa using lt.ne'
      simp [here, absent]
    · simp [here, Ne.symm here]

section
variable {c : Corpus} {d : Indexed} {docs : List Indexed}

/-- Counting a document in. -/
theorem adjustStats_add (described : c.Describes docs) (wf : d.WellFormed) (few : docs.length + 1 < 2 ^ 64)
    (short : ((d :: docs).map Indexed.length).sum < 2 ^ 64) : (adjustStats c (some d) true).Describes (d :: docs) where
  count := by
    simp only [adjustStats, if_true, described.count, length_cons]
    exact add64_eq few
  totalLength := by
    simp only [map_cons, sum_cons] at short
    simp only [adjustStats, if_true, described.totalLength, map_cons, sum_cons]
    rw [add64_eq (by omega), Nat.add_comm]
  df name := by
    have most : docs.countP (·.hasTerm name) ≤ docs.length := countP_le_length
    simp only [adjustStats, foldl_adjustDF_get true wf.terms, described.df, getD_countOf, if_true, countP_cons]
    rw [add64_eq (by omega)]
    change (if d.hasTerm name = true then _ else _) = countOf (_ + if d.hasTerm name = true then 1 else 0)
    split <;> rfl

/-- Counting a document out that was counted in. -/
theorem adjustStats_remove (described : c.Describes (d :: docs)) (wf : d.WellFormed) (few : docs.length + 1 < 2 ^ 64)
    (short : ((d :: docs).map Indexed.length).sum < 2 ^ 64) : (adjustStats c (some d) false).Describes docs where
  count := by
    simp only [adjustStats, described.count, length_cons, Bool.false_eq_true, if_false]
    rw [sub64_eq (by omega) few, Nat.add_sub_cancel]
  totalLength := by
    have total := described.totalLength
    simp only [map_cons, sum_cons] at short total
    simp only [adjustStats, total, Bool.false_eq_true, if_false]
    rw [sub64_eq (by omega) short, Nat.add_sub_cancel_left]
  df name := by
    have most : docs.countP (·.hasTerm name) ≤ docs.length := countP_le_length
    simp only [adjustStats, foldl_adjustDF_get false wf.terms, described.df, getD_countOf, Bool.false_eq_true, if_false,
      countP_cons]
    change (if d.hasTerm name = true then countOf (sub64 (_ + if d.hasTerm name = true then 1 else 0) 1)
      else countOf (_ + if d.hasTerm name = true then 1 else 0)) = _
    split
    · rw [sub64_eq (by omega) (by omega), Nat.add_sub_cancel]
    · rfl

end

end Pagnet.Search
