import Mathlib.Algebra.Order.Field.Basic
import Mathlib.Tactic.Positivity
import Mathlib.Tactic.GCongr
import Pagnet.Search.Query
import Pagnet.Search.Summary

/-!
# Bounds

The summary of a node bounds every document below it: a term that no document
has contributes nothing, and the contribution of any other one grows with its
frequency and shrinks with the length of the document. So the bound of a node
is at least the score of each of its documents, whether or not other documents
below the node are visible.
-/

namespace Pagnet.Search
open Json Fabric List

/-! ## Bisection -/

section Bisect
variable {terms : List Term} {name : String}

/-- Everything in front of `p` is before the name, and nothing from `p` on. -/
structure Cut (terms : List Term) (name : String) (p : Nat) : Prop where
  below : ∀ (i : Nat) (t : Term), i < p → terms[i]? = some t → t.name < name
  above : ∀ (i : Nat) (t : Term), p ≤ i → terms[i]? = some t → name ≤ t.name

/-- Names grow with their position. -/
theorem name_lt_of_lt (sorted : terms.Pairwise fun a b => a.name < b.name) {i j : Nat} {s t : Term} (lt : i < j)
    (first : terms[i]? = some s) (second : terms[j]? = some t) : s.name < t.name := by
  obtain ⟨hi, rfl⟩ := List.getElem?_eq_some_iff.1 first
  obtain ⟨hj, rfl⟩ := List.getElem?_eq_some_iff.1 second
  exact pairwise_iff_getElem.1 sorted i j hi hj lt

theorem bisect_cut (sorted : terms.Pairwise fun a b => a.name < b.name) (fuel : Nat) {lo hi : Nat} (enough : hi - lo ≤ fuel)
    (le : lo ≤ hi) (inside : hi ≤ terms.length)
    (below : ∀ (i : Nat) (t : Term), i < lo → terms[i]? = some t → t.name < name)
    (above : ∀ (i : Nat) (t : Term), hi ≤ i → terms[i]? = some t → name ≤ t.name) :
    Cut terms name (bisect terms name fuel lo hi) := by
  induction fuel generalizing lo hi with
  | zero =>
    obtain rfl : lo = hi := by omega
    exact ⟨below, above⟩
  | succ fuel ih =>
    simp only [bisect]
    split
    case isFalse done =>
      obtain rfl : lo = hi := by omega
      exact ⟨below, above⟩
    case isTrue more =>
      have middle : lo + (hi - lo) / 2 < terms.length := by omega
      have found := getElem?_eq_getElem middle
      rw [found, Option.map_some, Option.any_some]
      split
      case isTrue smaller =>
        have lt : terms[lo + (hi - lo) / 2].name < name := of_decide_eq_true smaller
        refine ih (by omega) (by omega) inside (fun i t before at_i => ?_) above
        rcases Nat.lt_or_ge i (lo + (hi - lo) / 2) with first | last
        · exact (name_lt_of_lt sorted first at_i found).trans lt
        · obtain rfl : i = lo + (hi - lo) / 2 := by omega
          rw [found] at at_i
          exact Option.some.inj at_i ▸ lt
      case isFalse larger =>
        have ge : name ≤ terms[lo + (hi - lo) / 2].name := not_lt.1 fun lt => larger (decide_eq_true lt)
        refine ih (by omega) (by omega) (by omega) below fun i t after at_i => ?_
        rcases Nat.lt_or_ge (lo + (hi - lo) / 2) i with last | first
        · exact ge.trans (name_lt_of_lt sorted last found at_i).le
        · obtain rfl : i = lo + (hi - lo) / 2 := by omega
          rw [found] at at_i
          exact Option.some.inj at_i ▸ ge

theorem find?_cut {p : Nat} (cut : Cut terms name p) : terms.find? (fun t => decide (name ≤ t.name)) = terms[p]? := by
  have front : (terms.take p).find? (fun t => decide (name ≤ t.name)) = none := by
    rw [List.find?_eq_none]
    intro t mem
    obtain ⟨i, lt, at_i⟩ := mem_take_iff_getElem.1 mem
    have below := cut.below i t (by omega) (by rw [getElem?_eq_getElem (by omega), at_i])
    simpa using below
  rw [← take_append_drop p terms, find?_append, front, Option.none_or, take_append_drop]
  cases found : terms[p]? with
  | none => rw [drop_eq_nil_of_le (getElem?_eq_none_iff.1 found), find?_nil]
  | some t =>
    obtain ⟨lt, at_p⟩ := List.getElem?_eq_some_iff.1 found
    rw [drop_eq_getElem_cons lt, at_p, find?_cons_of_pos]
    exact decide_eq_true (cut.above p t (Nat.le_refl p) found)

/-- The hand-written bisection finds what `sort.Search` does. -/
theorem queryFrequency_eq (sorted : terms.Pairwise fun a b => a.name < b.name) (name : String) :
    queryFrequency terms name = frequency terms name := by
  have cut : Cut terms name (bisect terms name terms.length 0 terms.length) := by
    refine bisect_cut sorted terms.length (by omega) (Nat.zero_le _) (Nat.le_refl _) (fun i t lt => by omega) ?_
    intro i t ge found
    rw [getElem?_eq_none ge] at found
    cases found
  unfold frequency
  rw [find?_cut cut]
  rfl

end Bisect

/-! ## Impacts -/

variable {d : Indexed} {level : Nat} {n : Node}

/-- The total bounds each document: it counts it, it knows no smaller frequency and no greater length. -/
theorem recordImpact_le_total {key : String} {docs : List Indexed} (mem : d ∈ docs)
    (present : 0 < (recordImpact d key).count) :
    0 < (totalImpact key docs).count ∧ (recordImpact d key).maxTF ≤ (totalImpact key docs).maxTF ∧
      (totalImpact key docs).minLength ≤ (recordImpact d key).minLength := by
  induction docs with
  | nil => cases mem
  | cons first rest ih =>
    rw [totalImpact_cons]
    rcases mem_cons.1 mem with rfl | later
    · unfold combine
      split
      · omega
      · split
        · exact ⟨present, le_rfl, le_rfl⟩
        · exact ⟨by dsimp only; omega, le_max_left .., min_le_left ..⟩
    · obtain ⟨count, tf, length⟩ := ih later
      unfold combine
      split
      · exact ⟨count, tf, length⟩
      · split
        · omega
        · exact ⟨by dsimp only; omega, tf.trans (le_max_right ..), (min_le_right ..).trans length⟩

/-- What a well-formed node says of the frequency of a term in a document below it. -/
theorem summary_term (wf : n.WellFormed level) (mem : d ∈ n.docs) {name : String}
    (has : 0 < frequency d.terms name) : 0 < (summary n (termKey name)).count ∧
      frequency d.terms name ≤ (summary n (termKey name)).maxTF ∧ (summary n (termKey name)).minLength ≤ d.length := by
  have impact : recordImpact d (termKey name) = ⟨1, frequency d.terms name, d.length⟩ := by
    rw [recordImpact, if_pos (isTermKey_termKey name), termName_termKey]
    exact if_neg (by omega)
  have present : 0 < (recordImpact d (termKey name)).count := by
    rw [impact]
    exact Nat.zero_lt_one
  have bound := recordImpact_le_total mem present
  rw [impact] at bound
  rw [wf.describes.summary]
  exact bound

theorem nodeFilter_of_document (wf : n.WellFormed level) (mem : d ∈ n.docs)
    {groups : List (List String)} (passes : documentFilter d groups) : nodeFilter n groups := by
  simp only [documentFilter, nodeFilter, all_eq_true, any_eq_true, decide_eq_true_eq] at passes ⊢
  intro group inside
  obtain ⟨key, chosen, present⟩ := passes group inside
  refine ⟨key, chosen, ?_⟩
  rw [wf.describes.summary]
  exact (recordImpact_le_total mem present).1

/-! ## Scores -/

section Scores
variable {S : Type} [Field S] [LinearOrder S] [IsStrictOrderedRing S]

/-- A query whose parameters are those of a valid configuration. -/
structure Query.Valid (q : Query S) : Prop where
  k1 : 0 ≤ q.parameters.k1
  b : 0 ≤ q.parameters.b ∧ q.parameters.b ≤ 1
  avg : 0 < q.avg
  constants : ∀ t ∈ q.terms, 0 ≤ t.constant

variable {q : Query S}

variable {avg b constant k1 bound score : S} {length maxTF minLength tf : Nat} {any : Bool}
    {terms : List (QueryTerm S)}

theorem contribution_nonneg (pos : 0 ≤ constant) (k1_nonneg : 0 ≤ k1) (b_nonneg : 0 ≤ b)
    (b_le : b ≤ 1) (avg_pos : 0 < avg) (length tf : Nat) : 0 ≤ contribution constant k1 b avg length tf := by
  unfold contribution
  split
  · exact le_rfl
  · positivity

/-- More occurrences in a shorter document contribute more. -/
theorem contribution_mono (pos : 0 ≤ constant) (k1_nonneg : 0 ≤ k1) (b_nonneg : 0 ≤ b)
    (b_le : b ≤ 1) (avg_pos : 0 < avg) (shorter : minLength ≤ length) (more : tf ≤ maxTF) :
    contribution constant k1 b avg length tf ≤ contribution constant k1 b avg minLength maxTF := by
  rcases Nat.eq_zero_or_pos tf with zero | some_tf
  · rw [show contribution constant k1 b avg length tf = 0 from if_pos zero]
    exact contribution_nonneg pos k1_nonneg b_nonneg b_le avg_pos minLength maxTF
  rw [contribution, contribution, if_neg (by omega), if_neg (by omega)]
  have denominators : 1 + k1 * ((1 - b) + b * (minLength / avg)) / maxTF ≤ 1 + k1 * ((1 - b) + b * (length / avg)) / tf := by
    gcongr
  exact div_le_div_of_nonneg_left pos (by positivity) denominators

theorem Query.Valid.contribution_mono (valid : q.Valid) {t : QueryTerm S} (mem : t ∈ q.terms)
    (shorter : minLength ≤ length) (more : tf ≤ maxTF) :
    q.contribution t length tf ≤ q.contribution t minLength maxTF := by
  have k1 := valid.k1
  have constant := valid.constants t mem
  exact Search.contribution_mono (by positivity) k1 valid.b.1 valid.b.2 valid.avg shorter more

/-- The sum a document scores from `acc` on. -/
def sumScores (q : Query S) (d : Indexed) (terms : List (QueryTerm S)) (acc : S) : S :=
  terms.foldl (fun score t => score + q.contribution t d.length (queryFrequency d.terms t.name)) acc

omit [LinearOrder S] [IsStrictOrderedRing S] in
theorem contribution_absent (q : Query S) (t : QueryTerm S) (length : Nat) : q.contribution t length 0 = 0 := by
  rw [Query.contribution, Search.contribution, if_pos rfl]

variable {n : Node} {level : Nat} {d : Indexed}

/-- The bound of a node is at least the score of a document below it. -/
theorem le_boundTerms (valid : q.Valid) (wf : n.WellFormed level) (mem : d ∈ n.docs) (docs : d.WellFormed)
    (part : ∀ t ∈ terms, t ∈ q.terms) {acc : S} (le : acc ≤ score)
    (h : boundTerms q n terms score any = some bound) : sumScores q d terms acc ≤ bound := by
  induction terms generalizing score acc any with
  | nil =>
    simp only [boundTerms, Option.ite_none_right_eq_some, Option.some.injEq] at h
    rw [← h.2]
    exact le
  | cons t rest ih =>
    have later : ∀ t ∈ rest, t ∈ q.terms := fun t mem => part t (mem_cons_of_mem _ mem)
    have freq := queryFrequency_eq docs.terms t.name
    change sumScores q d rest (acc + q.contribution t d.length (queryFrequency d.terms t.name)) ≤ bound
    simp only [boundTerms] at h
    split at h
    case isTrue absent =>
      have zero : queryFrequency d.terms t.name = 0 := by
        rw [freq]
        by_contra has
        have := (summary_term wf mem (Nat.pos_of_ne_zero has)).1
        omega
      rw [zero, contribution_absent, add_zero]
      split at h
      · cases h
      · exact ih later le h
    case isFalse present =>
      refine ih later (add_le_add le ?_) h
      rcases Nat.eq_zero_or_pos (queryFrequency d.terms t.name) with zero | has
      · have k1 := valid.k1
        have constant := valid.constants t (part t mem_cons_self)
        rw [zero, contribution_absent]
        exact contribution_nonneg (by positivity) k1 valid.b.1 valid.b.2 valid.avg _ _
      · rw [freq] at has ⊢
        obtain ⟨-, more, shorter⟩ := summary_term wf mem has
        exact valid.contribution_mono (part t mem_cons_self) shorter more

omit [LinearOrder S] [IsStrictOrderedRing S] in
/-- A node without a bound has no document that matches. -/
theorem boundTerms_none (wf : n.WellFormed level) (mem : d ∈ n.docs) (docs : d.WellFormed)
    (h : boundTerms q n terms score any = none) :
    (q.operator = .and ∧ ∃ t ∈ terms, queryFrequency d.terms t.name = 0) ∨
      any = false ∧ ∀ t ∈ terms, queryFrequency d.terms t.name = 0 := by
  induction terms generalizing score any with
  | nil =>
    simp only [boundTerms, ite_eq_right_iff, reduceCtorEq, imp_false, Bool.not_eq_true] at h
    exact .inr ⟨h, nofun⟩
  | cons t rest ih =>
    simp only [boundTerms] at h
    split at h
    case isTrue absent =>
      have zero : queryFrequency d.terms t.name = 0 := by
        rw [queryFrequency_eq docs.terms]
        by_contra has
        have := (summary_term wf mem (Nat.pos_of_ne_zero has)).1
        omega
      split at h
      case isTrue both => exact .inl ⟨both, t, mem_cons_self, zero⟩
      case isFalse =>
        rcases ih h with ⟨both, other, inside, missing⟩ | ⟨none_yet, missing⟩
        · exact .inl ⟨both, other, mem_cons_of_mem _ inside, missing⟩
        · refine .inr ⟨none_yet, fun other inside => ?_⟩
          rcases mem_cons.1 inside with rfl | later
          · exact zero
          · exact missing other later
    case isFalse =>
      rcases ih h with ⟨both, other, inside, missing⟩ | ⟨found, -⟩
      · exact .inl ⟨both, other, mem_cons_of_mem _ inside, missing⟩
      · cases found

omit [LinearOrder S] [IsStrictOrderedRing S] in
theorem nodeBound_none (wf : n.WellFormed level) (mem : d ∈ n.docs) (docs : d.WellFormed) (h : nodeBound q n = none) :
    termsMatch q d = false := by
  unfold termsMatch
  rcases boundTerms_none wf mem docs h with ⟨both, t, inside, missing⟩ | ⟨-, missing⟩
  · rw [Bool.and_eq_false_iff]
    right
    rw [Bool.or_eq_false_iff]
    refine ⟨by simp [both], ?_⟩
    rw [all_eq_false]
    exact ⟨t, inside, by simp [missing]⟩
  · rw [Bool.and_eq_false_iff]
    left
    rw [any_eq_false]
    intro t inside
    simp [missing t inside]

end Scores

end Pagnet.Search
