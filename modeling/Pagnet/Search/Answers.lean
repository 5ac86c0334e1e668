import Pagnet.Search.Ranking
import Pagnet.Search.Visible

/-!
# The answer of a search

On a sound generation a search answers as the exhaustive ranking of its visible
documents does, with the same errors and the same cursor.
-/

namespace Pagnet.Search
open Json Fabric List

variable {S : Type} [Field S] [LinearOrder S] {c : Config S} {g : Generation} {lib : Library}

/-! ## All hits of a generation -/

/-- The search looks at the documents that are eligible, or at all of them. -/
structure Scope (g : Generation) (scope : Option IdSet) (eligible : Indexed → Bool) : Prop where
  all : scope = none → ∀ d, eligible d
  set : (scope.getD .nil).WellFormed g.level
  mem : scope.isSome → ∀ {i d}, i < spanOf g.level → g.root.get g.level i = some d →
    (scope.getD .nil).mem g.level i = eligible d

variable {eligible : Indexed → Bool} {q : Query S} {scope : Option IdSet} {set : IdSet} {stats : Corpus}
    {authority : String} {p : Pointer}

theorem nodeHits_eligible (core : g.Core lib)
    (scopes : Scope g scope eligible) (limited : q.isScoped = scope.isSome) :
    nodeHits q g.level g.root (scope.getD .nil) = (g.root.docs.filter eligible).filterMap (docHit q) := by
  rw [core.tree.docs_eq, filter_filterMap, filterMap_filterMap, nodeHits]
  refine filterMap_congr fun i inside => ?_
  rw [idHit, limited]
  cases slot : g.root.get g.level i with
  | none => simp
  | some d =>
    have chosen : (scope.isSome && !(scope.getD .nil).mem g.level i) = !eligible d := by
      cases limits : scope with
      | none =>
        rw [scopes.all limits d]
        rfl
      | some set =>
        have same := scopes.mem (by rw [limits]; rfl) (mem_range.1 inside) slot
        rw [limits] at same
        rw [same]
        rfl
    rw [chosen]
    cases shown : eligible d <;> simp [Option.filter, shown]

variable [IsStrictOrderedRing S]

theorem findWinners_eq (valid : q.Valid) (core : g.Core lib) (sets : set.WellFormed g.level)
    (distinct : ((nodeHits q g.level g.root set).map rank).Nodup) :
    findWinners q g set = .ok (((nodeHits q g.level g.root set).mergeSort fun a b => !better b a).take q.k) := by
  have docs : ∀ d ∈ g.root.docs, d.WellFormed ∧ d.ref ≠ "" := by
    intro d mem
    have compacted := core.compacted (core.docs.mem_iff.1 mem)
    exact ⟨compacted.wellFormed, compacted.named⟩
  have pushed := push_pushed valid (Top.nil rank q.k) (fun b mem => absurd mem not_mem_nil) core.tree sets docs
  have progress : Progress q (nodeHits q g.level g.root set) (push q [] g.root set g.level []) [] := by
    obtain ⟨seen, top, perm⟩ := pushed.covered
    exact ⟨pushed.valid, seen, top, perm⟩
  have nodes := pushed.nodes
  rw [map_nil, sum_nil, Nat.zero_add] at nodes
  obtain ⟨best, found, top⟩ := explore_top valid (g.root.nodeCount + 1) (Nat.lt_succ_of_le nodes) progress
  rw [findWinners, found, ← top.sorted not_better_iff distinct]
  rfl

omit [IsStrictOrderedRing S] [Field S] [LinearOrder S] in
theorem map_rank (hits : List (Ranked S)) : hits.map rank = (hits.map toCandidate).map candidateRank := by
  rw [map_map]
  rfl

omit [IsStrictOrderedRing S] [Field S] in
/-- Hits and candidates sort alike. -/
theorem map_sorted (hits : List (Ranked S)) (k : Nat) :
    ((hits.mergeSort fun a b => !better b a).take k).map toCandidate = ((hits.map toCandidate).mergeSort inOrder).take k := by
  rw [map_take, map_mergeSort]
  intro a _ b _
  rw [Bool.eq_iff_iff, not_better_iff, inOrder_iff]
  rfl

/-! ## Nothing to find -/

section Empty
omit [IsStrictOrderedRing S] [LinearOrder S]

variable {r : DiscoverRequest} {operator : Operator} {docs : List SearchDocument}

theorem matching_of_no_match (none_match : ∀ d ∈ docs, matchesQuery c.lib operator r.query d = false) :
    matching c r operator docs = [] := by
  rw [matching, map_eq_nil_iff, filter_eq_nil_iff]
  intro d mem
  rw [none_match d mem, Bool.and_false]
  exact Bool.false_ne_true

theorem matching_of_no_terms (empty : countTerms (tokenize c.lib r.query) = []) : matching c r operator docs = [] := by
  refine matching_of_no_match fun d _ => ?_
  rw [matchesQuery, ← any_countTerms, empty]
  rfl

theorem matching_of_no_tokens (empty : corpusLength c.lib docs = 0) : matching c r operator docs = [] := by
  refine matching_of_no_match fun d mem => ?_
  have none_there : documentTokens c.lib d = [] := by
    rw [← length_eq_zero_iff]
    exact sum_eq_zero_iff.1 empty _ (mem_map_of_mem mem)
  rw [matchesQuery, none_there]
  simp

end Empty

/-! ## The answer -/

/-- A configuration that `New` accepts, and a logarithm that is not negative where it should not be. -/
structure Config.Good (c : Config S) : Prop where
  valid : c.valid
  log1p : ∀ x, 0 ≤ x → 0 ≤ c.scalar.log1p x

theorem queryOf_valid (good : c.Good) {r : DiscoverRequest} {operator : Operator} {docs : List SearchDocument}
    {isScoped : Bool} {after : Option (S × String)} (tokens : corpusLength c.lib docs ≠ 0) (nonempty : docs.length ≠ 0) :
    (queryOf c r operator docs isScoped after).Valid := by
  have valid := good.valid
  simp only [Config.valid, Bool.and_eq_true, decide_eq_true_eq] at valid
  obtain ⟨⟨⟨⟨k1, -⟩, b⟩, b_le⟩, -⟩ := valid
  refine ⟨k1, ⟨b, b_le⟩, ?_, ?_⟩
  · have total : (0 : S) < corpusLength c.lib docs := Nat.cast_pos.2 (Nat.pos_of_ne_zero tokens)
    have count : (0 : S) < docs.length := Nat.cast_pos.2 (Nat.pos_of_ne_zero nonempty)
    exact div_pos total count
  · intro t mem
    obtain ⟨w, -, rfl⟩ := mem_map.1 mem
    have idf := good.log1p (((docs.length - documentFrequency c.lib docs w.name : Nat) + 1 / 2) /
      (documentFrequency c.lib docs w.name + 1 / 2)) (by positivity)
    exact mul_nonneg (Nat.cast_nonneg _) idf

/-- The references of documents in any order of the live ones are distinct. -/
theorem texts_nodup (core : g.Core lib) {docs : List Indexed} (perm : docs.Perm g.live) (eligible : Indexed → Bool) :
    ((texts (docs.filter eligible)).map (·.ref.toString)).Nodup := by
  have live : (g.live.map Indexed.ref).Nodup := by
    rw [List.Nodup, pairwise_map]
    exact core.live_sorted.imp fun lt => lt.ne
  have listed := (perm.map Indexed.ref).nodup_iff.2 live
  rw [texts, map_map]
  exact listed.sublist (filter_sublist.map _)

/-- The winners of a query that may find something. -/
theorem findWinners_candidates (good : c.Good) (core : g.Core c.lib)
    (scopes : Scope g scope eligible) (r : DiscoverRequest) (operator : Operator) (after : Option (S × String))
    (tokens : corpusLength c.lib (texts (g.live.filter eligible)) ≠ 0)
    (nonempty : (texts (g.live.filter eligible)).length ≠ 0) :
    ∃ hits, findWinners (queryOf c r operator (texts (g.live.filter eligible)) scope.isSome after) g (scope.getD .nil) =
        .ok hits ∧
      hits.map toCandidate = (ranking c r operator (texts (g.live.filter eligible)) after).take (r.limit + 1) := by
  have stored : ∀ d ∈ g.root.docs.filter eligible, d.Compacted c.lib := fun d mem =>
    core.compacted (core.docs.mem_iff.1 (List.mem_filter.1 mem).1)
  have candidates : (nodeHits (queryOf c r operator (texts (g.live.filter eligible)) scope.isSome after) g.level g.root
      (scope.getD .nil)).map toCandidate =
        (matchingIn c r operator (texts (g.live.filter eligible)) (texts (g.root.docs.filter eligible))).filter
          (isAfter after) := by
    rw [nodeHits_eligible core scopes rfl]
    exact filterMap_docHit stored
  have distinct : ((nodeHits (queryOf c r operator (texts (g.live.filter eligible)) scope.isSome after) g.level g.root
      (scope.getD .nil)).map rank).Nodup := by
    rw [map_rank, candidates]
    exact matchingIn_nodup (texts_nodup core core.docs eligible)
  refine ⟨_, findWinners_eq (queryOf_valid good tokens nonempty) core scopes.set distinct, ?_⟩
  rw [map_sorted, candidates]
  congr 1
  have perm : (texts (g.root.docs.filter eligible)).Perm (texts (g.live.filter eligible)) :=
    (core.docs.filter eligible).map Indexed.doc
  refine mergeSort_perm_eq inOrder_iff ?_ (matchingIn_nodup (texts_nodup core core.docs eligible))
  exact ((perm.filter _).map _).filter _

theorem runQuery_eq (good : c.Good) (core : g.Core c.lib)
    (scopes : Scope g scope eligible) (described : stats.Describes (g.live.filter eligible))
    (r : DiscoverRequest) (operator : Operator) (after : Option (S × String)) :
    ∃ hits, runQuery c g r operator (queryTerms c (texts (g.live.filter eligible)) r.query) stats scope after = .ok hits ∧
      hits.map toCandidate = (ranking c r operator (texts (g.live.filter eligible)) after).take (r.limit + 1) := by
  have compacted : ∀ d ∈ g.live.filter eligible, d.Compacted c.lib := fun d mem => core.compacted (List.mem_filter.1 mem).1
  have total := totalLength_eq described compacted
  have count : stats.count = (texts (g.live.filter eligible)).length := by rw [described.count, texts, length_map]
  unfold runQuery
  split
  case isTrue nothing =>
    refine ⟨[], rfl, ?_⟩
    have none_matching : matching c r operator (texts (g.live.filter eligible)) = [] := by
      simp only [Bool.or_eq_true, beq_iff_eq] at nothing
      rcases nothing with ((missing | empty) | no_terms) | no_tokens
      · have root : g.root = .nil := by
          cases shape : g.root with
          | nil => rfl
          | leaf | branch => simp [shape, Node.isNil] at missing
        have none_live : g.live = [] := by
          have perm := core.docs
          rw [root] at perm
          exact perm.symm.eq_nil
        rw [none_live]
        rfl
      · rw [count, length_eq_zero_iff] at empty
        rw [empty]
        rfl
      · refine matching_of_no_terms ?_
        rw [List.isEmpty_iff, queryTerms, List.map_eq_nil_iff] at no_terms
        exact no_terms
      · rw [total] at no_tokens
        exact matching_of_no_tokens no_tokens
    rw [ranking, none_matching, filter_nil, mergeSort_nil, take_nil, map_nil]
  case isFalse something =>
    simp only [Bool.or_eq_true, beq_iff_eq, not_or] at something
    obtain ⟨⟨⟨-, nonempty⟩, -⟩, tokens⟩ := something
    rw [total] at tokens
    rw [count] at nonempty
    obtain ⟨hits, found, candidates⟩ := findWinners_candidates good core scopes r operator after tokens nonempty
    refine ⟨hits, ?_, candidates⟩
    rw [← found, total, count]
    rfl

omit [IsStrictOrderedRing S] [Field S] [LinearOrder S] in
/-- The page of the first hits is that of the whole ranking. -/
theorem makePage_eq (codec : CursorCodec S) (limit : Nat) (hash authority : String) {hits : List (Ranked S)}
    {ranked : List (Candidate S)} (first : hits.map toCandidate = ranked.take (limit + 1)) :
    makePage codec g limit hash authority hits = firstPage codec g.number limit hash authority ranked := by
  have length : hits.length = min (limit + 1) ranked.length := by
    rw [← length_map toCandidate, first, length_take]
  have last : (hits[limit - 1]?).map toCandidate = ranked[limit - 1]? := by
    rw [← getElem?_map, first, getElem?_take, if_pos (by omega)]
  have page : (hits.take limit).map toCandidate = ranked.take limit := by
    rw [map_take, first, take_take, Nat.min_eq_left (Nat.le_succ limit)]
  unfold makePage firstPage
  congr 1
  by_cases more : limit < ranked.length
  · rw [if_pos more, if_pos (by omega), ← last]
    cases hits[limit - 1]? <;> rfl
  · rw [if_neg more, if_neg (by omega)]

theorem search_eq (good : c.Good) (codec : CursorCodec S) (core : p.generation.Core c.lib)
    {visibility : Option Visibility} {key : String}
    (scope_is : scopeOf p visibility = .ok (stats, set, authority, key))
    (scopes : Scope p.generation (visibility.map fun _ => set) eligible)
    (described : stats.Describes (p.generation.live.filter eligible)) (r : DiscoverRequest) (operator : String)
    (finalValidate : Except String Unit) {final : Nat} (steady : visibility.isSome → final = p.address) :
    searchWithOptions c codec p r ⟨operator, visibility, finalValidate⟩ final =
      exhaustiveSearch c codec p.generation.number (texts (p.generation.live.filter eligible)) authority key r operator
        finalValidate := by
  have compacted : ∀ d ∈ p.generation.live.filter eligible, d.Compacted c.lib := fun d mem =>
    core.compacted (List.mem_filter.1 mem).1
  unfold searchWithOptions exhaustiveSearch
  cases r.validate with
  | error message => rfl
  | ok _ =>
    cases parseOperator operator with
    | none => rfl
    | some operator =>
      dsimp only
      rw [scope_is, ok_bind, buildQuery_eq described compacted]
      cases plain : unsupported r.query with
      | true => rfl
      | false =>
        cases few : decide (maxQueryTerms < (countTerms (tokenize c.lib r.query)).length) with
        | true => rfl
        | false =>
          simp only [refuse_false, ok_bind, pure_bind]
          cases readCursor codec p.generation.number (queryHash c r operator key) authority r.cursor with
          | error e => rfl
          | ok after =>
            obtain ⟨hits, found, first⟩ := runQuery_eq good core scopes described r operator after
            rw [ok_bind, ok_bind, found, ok_bind]
            cases finalValidate with
            | error message => rfl
            | ok _ =>
              have current : (visibility.isSome && final != p.address) = false := by
                cases limited : visibility.isSome with
                | false => rfl
                | true => simp [steady limited]
              rw [current, refuse_false, ok_bind, makePage_eq codec r.limit _ _ first]

/-- A search of everything. -/
theorem search_all (good : c.Good) (codec : CursorCodec S) (core : p.generation.Core c.lib)
    (r : DiscoverRequest) (operator : String) (finalValidate : Except String Unit) (final : Nat) :
    searchWithOptions c codec p r ⟨operator, none, finalValidate⟩ final =
      exhaustiveSearch c codec p.generation.number (texts p.generation.live) "" "" r operator finalValidate := by
  have all : p.generation.live.filter (fun _ => true) = p.generation.live := filter_eq_self.2 fun _ _ => rfl
  have described : p.generation.stats.Describes (p.generation.live.filter fun _ => true) := by
    rw [all]
    exact core.stats
  have scopes : Scope p.generation (Option.map (fun _ => IdSet.nil) (none : Option Visibility)) fun _ => true :=
    ⟨fun _ _ => rfl, IdSet.wellFormed_nil _, fun limited => nomatch limited⟩
  have steady : (none : Option Visibility).isSome → final = p.address := fun limited => nomatch limited
  have answer := search_eq good codec core rfl scopes described r operator finalValidate steady
  rw [all] at answer
  exact answer

/-- A search of what is visible. -/
theorem search_visible (good : c.Good) (codec : CursorCodec S) (core : p.generation.Core c.lib)
    {refs : List EndpointRef} {v : Visibility} (made : newVisibility c p refs authority = .ok v)
    (r : DiscoverRequest) (operator : String) (finalValidate : Except String Unit) :
    searchWithOptions c codec p r ⟨operator, some v, finalValidate⟩ p.address =
      exhaustiveSearch c codec p.generation.number (texts (p.generation.visible refs)) authority (fingerprint c.lib refs) r
        operator finalValidate := by
  obtain ⟨valid, address, rfl, key⟩ := newVisibility_valid core made
  have scope_is : scopeOf p (some v) = .ok (v.stats, v.set, v.authorityRevision, fingerprint c.lib refs) := by
    rw [scopeOf, address, bne_self_eq_false, refuse_false, ok_bind, key]
    rfl
  have scopes : Scope p.generation (Option.map (fun _ => v.set) (some v)) (visibleTo refs) :=
    ⟨fun missing => (nomatch missing), valid.set, fun _ => valid.mem⟩
  exact search_eq good codec core scope_is scopes valid.stats r operator finalValidate fun _ => rfl

end Pagnet.Search
