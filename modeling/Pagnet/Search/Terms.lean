import Pagnet.Search.Document

/-!
# The terms of a document

Sorting and counting, by what they mean: a term is found with the number of
times it occurs among the tokens, a filter key exactly if the document has it.
-/

namespace Pagnet.Search
open Json Fabric List

variable {s key : String} {values : List String} {t : Term} {terms : List Term} {d : SearchDocument}
    {lib : Library}

theorem mem_unique : s ∈ unique values ↔ s ∈ values := by
  fun_induction unique values with
  | case1 | case2 => rfl
  | case3 a rest ih => simp [ih]
  | case4 a b rest other ih => simp [ih]

/-- In an ascending list equal values stand together, so what is left ascends strictly. -/
theorem unique_sorted (sorted : values.Pairwise (· ≤ ·)) : (unique values).Pairwise (· < ·) := by
  fun_induction unique values with
  | case1 => exact .nil
  | case2 => exact pairwise_singleton ..
  | case3 a rest ih => exact ih (pairwise_cons.1 sorted).2
  | case4 a b rest other ih =>
    obtain ⟨below, tail⟩ := pairwise_cons.1 sorted
    refine pairwise_cons.2 ⟨fun s mem => ?_, ih tail⟩
    have first : a < b := lt_of_le_of_ne (below b mem_cons_self) other
    rcases mem_cons.1 (mem_unique.1 mem) with rfl | later
    · exact first
    · exact first.trans_le ((pairwise_cons.1 tail).1 s later)

theorem mem_sortStrings : s ∈ sortStrings values ↔ s ∈ values :=
  (mergeSort_perm values _).mem_iff

theorem sortStrings_sorted (values : List String) : (sortStrings values).Pairwise (· ≤ ·) := by
  have sorted : (sortStrings values).Pairwise fun a b => decide (a ≤ b) := by
    apply pairwise_mergeSort
    · intro a b c ab bc
      exact decide_eq_true ((of_decide_eq_true ab).trans (of_decide_eq_true bc))
    · intro a b
      simpa using le_total a b
  exact sorted.imp of_decide_eq_true

/-- A search in a strictly ascending list finds the value itself, if it is there. -/
theorem find?_le {α : Type} {name : α → String} {values : List α} (sorted : values.Pairwise fun a b => name a < name b)
    {a : α} (mem : a ∈ values) : values.find? (fun b => decide (name a ≤ name b)) = some a := by
  induction values with
  | nil => cases mem
  | cons b rest ih =>
    obtain ⟨below, tail⟩ := pairwise_cons.1 sorted
    rcases mem_cons.1 mem with rfl | later
    · simp
    · have lt : ¬ name a ≤ name b := not_le.2 (below a later)
      simp [lt, ih tail later]

/-! ## Term frequencies -/

theorem frequency_of_mem (sorted : terms.Pairwise fun a b => a.name < b.name)
    (mem : t ∈ terms) : frequency terms t.name = t.tf := by
  unfold frequency
  rw [find?_le sorted mem]
  simp

theorem frequency_of_missing {name : String} (missing : ∀ t ∈ terms, t.name ≠ name) : frequency terms name = 0 := by
  unfold frequency
  split
  case h_1 t found => exact if_neg (missing t (mem_of_find?_eq_some found))
  case h_2 => rfl

theorem countTerms_sorted (tokens : List String) : (countTerms tokens).Pairwise fun a b => a.name < b.name := by
  unfold countTerms
  rw [pairwise_map]
  exact unique_sorted (sortStrings_sorted tokens)

theorem mem_countTerms {tokens : List String} :
    t ∈ countTerms tokens ↔ t.name ∈ tokens ∧ t.tf = tokens.count t.name := by
  simp only [countTerms, mem_map, mem_unique, mem_sortStrings]
  constructor
  · rintro ⟨name, mem, rfl⟩
    exact ⟨mem, rfl⟩
  · rintro ⟨mem, count⟩
    exact ⟨t.name, mem, by rw [← count]⟩

/-- The frequency of a term is how often it occurs. -/
theorem frequency_countTerms (tokens : List String) (name : String) :
    frequency (countTerms tokens) name = tokens.count name := by
  by_cases mem : name ∈ tokens
  · exact frequency_of_mem (countTerms_sorted tokens) (mem_countTerms.2 ⟨mem, rfl⟩ : (⟨name, tokens.count name⟩ : Term) ∈ _)
  · rw [count_eq_zero_of_not_mem mem]
    refine frequency_of_missing fun t found same => mem ?_
    exact same ▸ (mem_countTerms.1 found).1

/-! ## Keys -/

theorem isTermKey_termKey (name : String) : isTermKey (termKey name) := by
  simp [isTermKey, chars_eq_toList, termKey]

theorem termName_termKey (name : String) : termName (termKey name) = name := by
  simp [termName, chars_eq_toList, termKey]

theorem termKey_termName (h : isTermKey key) : termKey (termName key) = key := by
  apply String.toList_injective
  simp only [isTermKey, chars_eq_toList, beq_iff_eq] at h
  simp only [termKey, termName, chars_eq_toList, String.toList_append, String.toList_ofList]
  rw [show "t:".toList = key.toList.take 2 from h.symm]
  exact take_append_drop 2 key.toList

/-- An indexed document as `compact` makes it. -/
structure Indexed.WellFormed (d : Indexed) : Prop where
  terms : d.terms.Pairwise fun a b => a.name < b.name
  positive : ∀ t ∈ d.terms, 0 < t.tf
  keys : d.keys.Pairwise (· < ·)
  plain : ∀ key ∈ d.keys, isTermKey key = false

/-- The keys a document has an impact on. -/
def Indexed.impactKeys (d : Indexed) : List String := d.terms.map (termKey ·.name) ++ d.keys

theorem documentKeys_plain (mem : key ∈ documentKeys d) : isTermKey key = false := by
  simp only [documentKeys, mem_unique, mem_sortStrings, mem_append, mem_cons, not_mem_nil, or_false,
    mem_map] at mem
  rcases mem with (rfl | rfl | rfl) | ⟨tag, -, rfl⟩ <;> simp [isTermKey, chars_eq_toList]

theorem indexDocument_wellFormed (lib : Library) (d : SearchDocument) : (indexDocument lib d).WellFormed where
  terms := countTerms_sorted _
  positive t mem := by
    obtain ⟨named, count⟩ := mem_countTerms.1 mem
    rw [count]
    exact count_pos_iff.2 named
  keys := unique_sorted (sortStrings_sorted _)
  plain _ := documentKeys_plain

theorem compact_ok {value : Indexed} {digest : String}
    (h : compact lib d = .ok (value, digest)) : d.ref ≠ .zero ∧ (d.revision ≠ "" ∧ d.revision.utf8ByteSize ≤ 256) ∧
      d.toJson.size ≤ maxDocumentBytes ∧ value = indexDocument lib d ∧ digest = lib.digest d.toJson.render := by
  obtain ⟨parsed, h⟩ := of_refuse h
  obtain ⟨bounds, h⟩ := of_refuse h
  have h := past_refuse h
  obtain ⟨small, h⟩ := of_refuse h
  cases h
  simp only [Bool.or_eq_false_iff, beq_eq_false_iff_ne, decide_eq_false_iff_not, not_lt] at bounds small
  refine ⟨?_, bounds.1.1.1, small, rfl, rfl⟩
  rintro zeroed
  rw [zeroed, EndpointRef.toString_zero] at parsed
  exact absurd parsed (by decide)

theorem compact_encodable {out : Indexed × String} (h : compact lib d = .ok out) : d.encodable := by
  have h := past_refuse h
  have h := past_refuse h
  obtain ⟨encodable, -⟩ := of_refuse h
  simpa using encodable

namespace Indexed.WellFormed

variable {d : Indexed}

theorem impact_key (wf : d.WellFormed) {key : String} (mem : key ∈ d.keys) : recordImpact d key = ⟨1, 1, d.length⟩ := by
  have found : d.keys.find? (fun k => decide (key ≤ k)) = some key := @find?_le String id d.keys wf.keys key mem
  simp [recordImpact, wf.plain key mem, found]

end Indexed.WellFormed

/-- A document has no impact on any other key. -/
theorem recordImpact_other {d : Indexed} (other : key ∉ d.impactKeys) : recordImpact d key = .zero := by
  simp only [Indexed.impactKeys, mem_append, mem_map, not_or] at other
  unfold recordImpact
  split
  case isTrue named =>
    have missing : frequency d.terms (termName key) = 0 :=
      frequency_of_missing fun t mem same => other.1 ⟨t, mem, by rw [same, termKey_termName named]⟩
    simp [missing]
  case isFalse plain =>
    split
    case h_1 k found =>
      have mem : k ∈ d.keys := mem_of_find?_eq_some found
      exact if_neg fun same : k = key => other.2 (same ▸ mem)
    case h_2 => rfl

end Pagnet.Search
