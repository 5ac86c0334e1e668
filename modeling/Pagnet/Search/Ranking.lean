import Mathlib.Algebra.BigOperators.Group.List.Basic
import Pagnet.Search.Exhaustive
import Pagnet.Search.Exploration
import Pagnet.Search.Sound

/-!
# The index ranks exhaustively

What the index keeps of a document is what the exhaustive ranking reads off its
text: frequencies, lengths and filter keys. The statistics of a corpus are those
of its documents, so the two rankings score alike.
-/

namespace Pagnet.Search
open Json Fabric List

variable {S : Type} {lib : Library} {d : Indexed}

/-! ## Documents -/

namespace Indexed.Compacted

theorem queryFrequency (compacted : d.Compacted lib) (name : String) :
    queryFrequency d.terms name = (documentTokens lib d.doc).count name := by
  rw [queryFrequency_eq compacted.wellFormed.terms, ← frequency_countTerms, compacted.eq_indexDocument]
  rfl

theorem length_eq (compacted : d.Compacted lib) : d.length = (documentTokens lib d.doc).length := by
  conv_lhs => rw [compacted.eq_indexDocument]
  rfl

theorem hasTerm (compacted : d.Compacted lib) (name : String) :
    d.hasTerm name = decide (name ∈ documentTokens lib d.doc) := by
  rw [Bool.eq_iff_iff, decide_eq_true_eq, Indexed.hasTerm, any_eq_true]
  constructor
  · rintro ⟨t, mem, same⟩
    rw [compacted.eq_indexDocument] at mem
    rw [← eq_of_beq same]
    exact (mem_countTerms.1 mem).1
  · intro mem
    refine ⟨⟨name, (documentTokens lib d.doc).count name⟩, ?_, beq_self_eq_true name⟩
    rw [compacted.eq_indexDocument]
    exact mem_countTerms.2 ⟨mem, rfl⟩

end Indexed.Compacted

/-- A document counts for a filter key it has. -/
theorem recordImpact_pos (wf : d.WellFormed) {key : String} (plain : isTermKey key = false) :
    decide (0 < (recordImpact d key).count) = decide (key ∈ d.keys) := by
  by_cases has : key ∈ d.keys
  · rw [wf.impact_key has]
    simp [has]
  · have other : key ∉ d.impactKeys := by
      rw [Indexed.impactKeys, mem_append, not_or]
      refine ⟨fun mem => ?_, has⟩
      obtain ⟨t, -, rfl⟩ := mem_map.1 mem
      rw [isTermKey_termKey] at plain
      cases plain
    rw [recordImpact_other other]
    simp [has, Impact.zero]

/-- The key of each filter asks for a field of the document. -/
theorem mem_documentKeys (d : SearchDocument) (value : String) :
    ("k:" ++ value ∈ documentKeys d ↔ value ∈ [d.kind]) ∧ ("g:" ++ value ∈ documentKeys d ↔ value ∈ d.tags) ∧
      ("p:" ++ value ∈ documentKeys d ↔ value ∈ [d.provider]) ∧
      ("d:" ++ value ∈ documentKeys d ↔ value ∈ [d.ref.domain]) := by
  have kp : ∀ a b : String, "k:" ++ a ≠ "p:" ++ b := fun a b => by simp [← String.toList_inj]
  have kd : ∀ a b : String, "k:" ++ a ≠ "d:" ++ b := fun a b => by simp [← String.toList_inj]
  have kg : ∀ a b : String, "k:" ++ a ≠ "g:" ++ b := fun a b => by simp [← String.toList_inj]
  have pd : ∀ a b : String, "p:" ++ a ≠ "d:" ++ b := fun a b => by simp [← String.toList_inj]
  have pg : ∀ a b : String, "p:" ++ a ≠ "g:" ++ b := fun a b => by simp [← String.toList_inj]
  have dg : ∀ a b : String, "d:" ++ a ≠ "g:" ++ b := fun a b => by simp [← String.toList_inj]
  simp only [documentKeys, mem_unique, mem_sortStrings, mem_append, mem_cons, not_mem_nil, or_false,
    mem_map, String.append_right_inj]
  refine ⟨?_, ?_, ?_, ?_⟩
  · simp [kp, kd, fun a b => (kg a b).symm]
  · simp [fun a b => (kg a b).symm, fun a b => (pg a b).symm, fun a b => (dg a b).symm]
  · simp [fun a b => (kp a b).symm, pd, fun a b => (pg a b).symm]
  · simp [fun a b => (kd a b).symm, fun a b => (pd a b).symm, fun a b => (dg a b).symm]

theorem documentFilter_append (a b : List (List String)) :
    documentFilter d (a ++ b) = (documentFilter d a && documentFilter d b) := all_append

/-- One filter, on the keys of the index and on the field of the document. -/
theorem documentFilter_group (wf : d.WellFormed) {key : String} (plain : ∀ value, isTermKey (key ++ value) = false)
    {has : List String} (keyed : ∀ value, key ++ value ∈ d.keys ↔ value ∈ has) (wanted : List String) :
    documentFilter d (filterGroup key wanted) = passesFilter wanted has := by
  unfold filterGroup passesFilter
  split
  case isTrue none_wanted => simp [documentFilter, none_wanted]
  case isFalse some_wanted =>
    rw [documentFilter, all_cons, all_nil, Bool.and_true, any_map,
      show wanted.isEmpty = false by simpa using some_wanted, Bool.false_or]
    refine any_congr rfl fun value => ?_
    rw [Function.comp, recordImpact_pos wf (plain value)]
    exact decide_eq_decide.2 (keyed value)

theorem documentFilter_eq (compacted : d.Compacted lib) (r : DiscoverRequest) :
    documentFilter d (filterGroups r) = passesFilters r d.doc := by
  have wf := compacted.wellFormed
  have keys : d.keys = documentKeys d.doc := by
    conv_lhs => rw [compacted.eq_indexDocument]
    rfl
  have keyed := mem_documentKeys d.doc
  rw [← keys] at keyed
  rw [filterGroups, documentFilter_append, documentFilter_append, documentFilter_append,
    documentFilter_group wf (fun value => by simp [isTermKey, chars_eq_toList]) fun value => (keyed value).1,
    documentFilter_group wf (fun value => by simp [isTermKey, chars_eq_toList]) fun value => (keyed value).2.1,
    documentFilter_group wf (fun value => by simp [isTermKey, chars_eq_toList]) fun value => (keyed value).2.2.1,
    documentFilter_group wf (fun value => by simp [isTermKey, chars_eq_toList]) fun value => (keyed value).2.2.2]
  rfl

/-! ## Queries -/

section Queries
variable [Field S] {c : Config S} {stats : Corpus} {docs : List Indexed}

/-- The documents that a corpus describes, as texts. -/
def texts (docs : List Indexed) : List SearchDocument := docs.map (·.doc)

theorem df_eq (described : stats.Describes docs) (compacted : ∀ d ∈ docs, d.Compacted lib) (name : String) :
    (stats.df.get name).getD 0 = documentFrequency lib (texts docs) name := by
  rw [described.df, getD_countOf, documentFrequency, texts, countP_map]
  refine countP_congr fun d mem => ?_
  rw [(compacted d mem).hasTerm, Function.comp]

theorem totalLength_eq (described : stats.Describes docs) (compacted : ∀ d ∈ docs, d.Compacted lib) :
    stats.totalLength = corpusLength lib (texts docs) := by
  rw [described.totalLength, corpusLength, texts, map_map]
  exact congrArg List.sum (map_congr_left fun d mem => (compacted d mem).length_eq)

/-- The weighted terms of a query on these documents. -/
def queryTerms (c : Config S) (docs : List SearchDocument) (query : String) : List (QueryTerm S) :=
  (countTerms (tokenize c.lib query)).map fun t =>
    ⟨t.name, termConstant c.scalar t.tf docs.length (documentFrequency c.lib docs t.name)⟩

theorem buildQuery_eq (described : stats.Describes docs) (compacted : ∀ d ∈ docs, d.Compacted c.lib) (query : String) :
    buildQuery c query stats = (do
      refuse (unsupported query) .unsupportedQuery
      refuse (maxQueryTerms < (countTerms (tokenize c.lib query)).length) (.invalidInput "Too many lexical query terms")
      return queryTerms c (texts docs) query) := by
  have terms : (countTerms (tokenize c.lib query)).mapM (buildTerm c.scalar stats) = .ok (queryTerms c (texts docs) query) := by
    refine mapM_eq_ok fun t _ => ?_
    have few : documentFrequency c.lib (texts docs) t.name ≤ (texts docs).length := countP_le_length
    have count : stats.count = (texts docs).length := by rw [described.count, texts, length_map]
    rw [buildTerm, df_eq described compacted, count]
    exact if_neg (Nat.not_lt.2 few)
  simp only [buildQuery, terms]
  rfl

theorem any_countTerms (tokens : List String) (p : String → Bool) :
    ((countTerms tokens).any fun t => p t.name) = tokens.any p := by
  rw [Bool.eq_iff_iff, any_eq_true, any_eq_true]
  constructor
  · rintro ⟨t, mem, holds⟩
    exact ⟨t.name, (mem_countTerms.1 mem).1, holds⟩
  · rintro ⟨name, mem, holds⟩
    exact ⟨⟨name, tokens.count name⟩, mem_countTerms.2 ⟨mem, rfl⟩, holds⟩

theorem all_countTerms (tokens : List String) (p : String → Bool) :
    ((countTerms tokens).all fun t => p t.name) = tokens.all p := by
  rw [Bool.eq_iff_iff, all_eq_true, all_eq_true]
  constructor
  · intro each name mem
    exact each ⟨name, tokens.count name⟩ (mem_countTerms.2 ⟨mem, rfl⟩)
  · intro each t mem
    exact each t.name (mem_countTerms.1 mem).1

/-- The query of a request on these documents. -/
def queryOf (c : Config S) (r : DiscoverRequest) (operator : Operator) (docs : List SearchDocument) (isScoped : Bool)
    (after : Option (S × String)) : Query S where
  terms := queryTerms c docs r.query
  groups := filterGroups r
  parameters := c.parameters
  avg := corpusLength c.lib docs / docs.length
  operator := operator
  isScoped := isScoped
  k := r.limit + 1
  after := after

variable {r : DiscoverRequest} {operator : Operator} {all : List SearchDocument} {isScoped : Bool}
  {after : Option (S × String)}

theorem termsMatch_eq (compacted : d.Compacted c.lib) :
    termsMatch (queryOf c r operator all isScoped after) d = matchesQuery c.lib operator r.query d.doc := by
  have present : ∀ name, decide (0 < queryFrequency d.terms name) = decide (name ∈ documentTokens c.lib d.doc) := by
    intro name
    rw [compacted.queryFrequency]
    exact decide_eq_decide.2 count_pos_iff
  simp only [termsMatch, queryOf, queryTerms, any_map, all_map, Function.comp_def, present]
  rw [any_countTerms (tokenize c.lib r.query) fun name => decide (name ∈ documentTokens c.lib d.doc),
    all_countTerms (tokenize c.lib r.query) fun name => decide (name ∈ documentTokens c.lib d.doc)]
  rfl

theorem scoreDocument_eq (compacted : d.Compacted c.lib) :
    scoreDocument (queryOf c r operator all isScoped after) d = exactScore c all r.query d.doc := by
  unfold scoreDocument exactScore
  rw [sum_eq_foldl, foldl_map]
  simp only [queryOf, queryTerms, foldl_map, compacted.queryFrequency, compacted.length_eq, Query.contribution]

variable [LinearOrder S]

def toCandidate (hit : Ranked S) : Candidate S := ⟨hit.record.doc, hit.score⟩

/-- The hits among some documents, scored among all of them. -/
def matchingIn (c : Config S) (r : DiscoverRequest) (operator : Operator) (all docs : List SearchDocument) :
    List (Candidate S) :=
  (docs.filter fun d => passesFilters r d && matchesQuery c.lib operator r.query d).map fun d =>
    ⟨d, exactScore c all r.query d⟩

theorem filterMap_docHit (compacted : ∀ d ∈ docs, d.Compacted c.lib) :
    (docs.filterMap (docHit (queryOf c r operator all isScoped after))).map toCandidate =
      (matchingIn c r operator all (texts docs)).filter (isAfter after) := by
  induction docs with
  | nil => rfl
  | cons d rest ih =>
    have here := compacted d mem_cons_self
    have hit : docHit (queryOf c r operator all isScoped after) d =
        if passesFilters r d.doc && matchesQuery c.lib operator r.query d.doc &&
            isAfter after ⟨d.doc, exactScore c all r.query d.doc⟩ then
          some ⟨d, exactScore c all r.query d.doc⟩
        else none := by
      unfold docHit
      rw [scoreDocument_eq here, termsMatch_eq here]
      change (if documentFilter d (filterGroups r) && _ && _ then _ else _) = _
      rw [documentFilter_eq here]
      rfl
    rw [filterMap_cons, hit]
    simp only [matchingIn, texts, map_cons, filter_cons] at ih ⊢
    have later := ih fun x mem => compacted x (mem_cons_of_mem _ mem)
    by_cases both : (passesFilters r d.doc && matchesQuery c.lib operator r.query d.doc)
    · by_cases shown : isAfter after (⟨d.doc, exactScore c all r.query d.doc⟩ : Candidate S)
      · simp only [both, shown, Bool.and_true, if_true, map_cons, filter_cons, later]
        rfl
      · simp only [both, shown, Bool.and_false, Bool.false_eq_true, if_true, if_false, map_cons, filter_cons, later]
    · simp only [both, Bool.false_and, Bool.false_eq_true, if_false, later]

end Queries

/-! ## Sorted results -/

section Results
variable [Field S] [LinearOrder S] {c : Config S} {r : DiscoverRequest} {operator : Operator}
  {after : Option (S × String)} {docs docs' : List SearchDocument}

/-- The place of a candidate. -/
def candidateRank (x : Candidate S) : Lex (OrderDual S × String) :=
  toLex (OrderDual.toDual x.score, x.document.ref.toString)

omit [Field S] in
theorem inOrder_iff (a b : Candidate S) : inOrder a b ↔ candidateRank a ≤ candidateRank b := by
  rw [candidateRank, candidateRank, Prod.Lex.toLex_le_toLex]
  simp [inOrder, OrderDual.toDual_lt_toDual]

omit [Field S] in
theorem not_better_iff (a b : Ranked S) : (!better b a) ↔ rank a ≤ rank b := by
  rw [Bool.not_eq_true', ← Bool.not_eq_true, better_iff, not_lt]

omit [LinearOrder S] in
theorem exactScore_perm (same : docs.Perm docs') (query : String) (d : SearchDocument) :
    exactScore c docs query d = exactScore c docs' query d := by
  have lengths : corpusLength c.lib docs = corpusLength c.lib docs' := (same.map _).sum_eq
  have frequencies : ∀ name, documentFrequency c.lib docs name = documentFrequency c.lib docs' name :=
    fun name => same.countP_eq _
  simp only [exactScore, lengths, frequencies, same.length_eq]

omit [LinearOrder S] in
theorem matching_perm (same : docs.Perm docs') : (matching c r operator docs).Perm (matching c r operator docs') := by
  unfold matching
  simp only [exactScore_perm same]
  exact (same.filter _).map _

/-- Candidates of documents with different references have different places. -/
theorem matchingIn_nodup {all : List SearchDocument} (distinct : (docs.map (·.ref.toString)).Nodup) :
    (((matchingIn c r operator all docs).filter (isAfter after)).map candidateRank).Nodup := by
  refine List.Nodup.of_map (fun place => (ofLex place).2) ?_
  rw [map_map]
  refine List.Nodup.sublist ?_ distinct
  have refs : (matchingIn c r operator all docs).map ((fun place => (ofLex place).2) ∘ candidateRank) =
      (docs.filter fun d => passesFilters r d && matchesQuery c.lib operator r.query d).map (·.ref.toString) := by
    rw [matchingIn, map_map]
    rfl
  exact (filter_sublist.map _).trans (refs ▸ filter_sublist.map _)

end Results

end Pagnet.Search
