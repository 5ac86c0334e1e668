import Pagnet.Search.Answers
import Pagnet.Search.Rebuild
import Pagnet.Search.Restored

/-!
# Searches of reachable generations

In every run a search returns the first results of the exhaustive ranking of the
visible documents. The ranking only depends on these documents, so a limited
search says nothing about the others.
-/

namespace Pagnet.Search
open Fabric List

/-! ## What a limited search depends on -/

variable {lib : Library} {g : Generation} {d : SearchDocument} {ref : EndpointRef} {changes : List Change}

theorem Generation.document_eq_some :
    g.document ref = some d ↔ ∃ e v, g.refs.get ref.toString = some e ∧ e.value = some v ∧ v.doc = d := by
  rw [Generation.document, Option.map_eq_some_iff]
  simp only [Option.bind_eq_some_iff]
  constructor
  · rintro ⟨v, ⟨e, found, value⟩, doc⟩
    exact ⟨e, v, found, value, doc⟩
  · rintro ⟨e, v, found, value, doc⟩
    exact ⟨v, ⟨e, found, value⟩, doc⟩

/-- The live documents are those of the references. -/
theorem Generation.Sound.mem_texts (sound : g.Sound lib) : d ∈ texts g.live ↔ g.document d.ref = some d := by
  rw [texts, mem_map]
  constructor
  · rintro ⟨v, mem, rfl⟩
    obtain ⟨ref, e, found, value⟩ := mem_live.1 mem
    have name : v.doc.ref.toString = ref := (sound.core.values found value).1
    exact Generation.document_eq_some.2 ⟨e, v, name ▸ found, value, rfl⟩
  · intro found
    obtain ⟨e, v, entry, value, doc⟩ := Generation.document_eq_some.1 found
    exact ⟨v, mem_live.2 ⟨_, e, entry, value⟩, doc⟩

theorem Generation.Sound.mem_visible (sound : g.Sound lib) {refs : List EndpointRef} :
    d ∈ texts (g.visible refs) ↔ d.ref ∈ refs ∧ g.document d.ref = some d := by
  rw [← sound.mem_texts]
  simp only [texts, Generation.visible, mem_map, List.mem_filter, visibleTo, decide_eq_true_eq]
  constructor
  · rintro ⟨v, ⟨mem, r, listed, name⟩, rfl⟩
    rw [← EndpointRef.toString_injective name]
    exact ⟨listed, v, mem, rfl⟩
  · rintro ⟨listed, v, mem, rfl⟩
    exact ⟨v, ⟨mem, _, listed, rfl⟩, rfl⟩

/-- The last effective upsert of a reference is one of the upserts. -/
theorem lastEffective_mem (h : lastEffective changes ref = some d) : Change.upsert d ∈ changes ∧ d.ref = ref := by
  induction changes with
  | nil => cases h
  | cons change earlier ih =>
    cases change with
    | upsert new =>
      rw [lastEffective] at h
      split at h
      case isTrue effective =>
        cases h
        exact ⟨mem_cons_self, effective.1⟩
      case isFalse => exact ⟨mem_cons_of_mem _ (ih h).1, (ih h).2⟩
    | delete deleted =>
      rw [lastEffective] at h
      split at h
      case isTrue => cases h
      case isFalse => exact ⟨mem_cons_of_mem _ (ih h).1, (ih h).2⟩

/-- Without deletions every reference that was ever upserted has a document. -/
theorem lastEffective_of_upserts (upserts : ∀ change ∈ changes, ∃ d, change = .upsert d)
    (mem : Change.upsert d ∈ changes) : (lastEffective changes d.ref).isSome := by
  induction changes generalizing d with
  | nil => cases mem
  | cons change earlier ih =>
    have rest : ∀ {d}, Change.upsert d ∈ earlier → (lastEffective earlier d.ref).isSome :=
      ih fun change mem => upserts change (mem_cons_of_mem _ mem)
    obtain ⟨new, rfl⟩ := upserts change mem_cons_self
    rw [lastEffective]
    split
    · rfl
    case isFalse ineffective =>
      rcases mem_cons.1 mem with same | old
      · obtain rfl := Change.upsert.inj same
        -- the revision was published before, so an earlier upsert has the reference
        have before : wasPublished earlier d.ref d.revision := by
          by_contra fresh
          exact ineffective ⟨rfl, Bool.eq_false_iff.2 fresh⟩
        obtain ⟨change, listed, is_revision⟩ := any_eq_true.1 before
        obtain ⟨other, rfl⟩ := upserts change (mem_cons_of_mem _ listed)
        have ref : other.ref = d.ref := by
          simp only [Change.isRevision, Bool.and_eq_true, decide_eq_true_eq] at is_revision
          exact is_revision.1
        rw [← ref]
        exact rest listed
      · exact rest old

/-- Two generations with the same documents list them in some order. -/
theorem texts_perm {docs docs' : List Indexed} (distinct : ((texts docs).map (·.ref.toString)).Nodup)
    (distinct' : ((texts docs').map (·.ref.toString)).Nodup) (same : ∀ d, d ∈ texts docs ↔ d ∈ texts docs') :
    (texts docs).Perm (texts docs') :=
  (perm_ext_iff_of_nodup (List.Nodup.of_map _ distinct) (List.Nodup.of_map _ distinct')).2 same

/-! ## Pages without a cursor -/

variable {S : Type} [Field S] [LinearOrder S] {c : Config S}

variable {authority key operator : String} {codec : CursorCodec S} {docs : List SearchDocument}
    {finalValidate : Except String Unit} {number : Nat} {r : DiscoverRequest}

/-- The first page of a request: the first results, and whether there are more. -/
theorem exhaustive_first_page {result : DiscoverResult S} (noCursor : r.cursor = "")
    (h : exhaustiveSearch c codec number docs authority key r operator finalValidate = .ok result) :
    ∃ op, parseOperator operator = some op ∧ result.candidates = (ranking c r op docs none).take r.limit ∧
      (result.nextCursor ≠ "" ↔ r.limit < (ranking c r op docs none).length) := by
  unfold exhaustiveSearch at h
  split at h
  case h_1 => cases h
  case h_2 =>
    split at h
    case h_1 => cases h
    case h_2 op parsed =>
      have h := past_refuse h
      have h := past_refuse h
      obtain ⟨after, read, h⟩ := of_bind h
      rw [readCursor, if_pos noCursor] at read
      cases read
      split at h
      case h_1 => cases h
      case h_2 =>
        cases h
        refine ⟨op, parsed, rfl, ?_⟩
        by_cases more : r.limit < (ranking c r op docs none).length
        · have last : r.limit - 1 < (ranking c r op docs none).length := by omega
          simp only [firstPage, if_pos more, getElem?_eq_getElem last]
          exact ⟨fun _ => more, fun _ => codec.encode_ne _⟩
        · simp [firstPage, more]

/-- Two rankings of the same documents have the same candidates. -/
theorem exhaustive_candidates {number' : Nat} {docs' : List SearchDocument} {authority' key' : String}
    (noCursor : r.cursor = "") (same : docs.Perm docs') (distinct : (docs.map (·.ref.toString)).Nodup) :
    (exhaustiveSearch c codec number docs authority key r operator finalValidate).map (·.candidates) =
      (exhaustiveSearch c codec number' docs' authority' key' r operator finalValidate).map (·.candidates) := by
  unfold exhaustiveSearch
  cases r.validate with
  | error message => rfl
  | ok _ =>
    cases parseOperator operator with
    | none => rfl
    | some op =>
      cases unsupported r.query with
      | true => rfl
      | false =>
        cases decide (maxQueryTerms < (countTerms (tokenize c.lib r.query)).length) with
        | true => rfl
        | false =>
          simp only [refuse_false, ok_bind, readCursor, if_pos noCursor]
          cases finalValidate with
          | error message => rfl
          | ok _ =>
            unfold ranking
            rw [mergeSort_perm_eq inOrder_iff ((matching_perm same).filter _) (matchingIn_nodup distinct)]
            rfl

variable [IsStrictOrderedRing S]

/-- A search of a reachable generation without a cursor is the exhaustive one, of everything or of what is visible. -/
theorem search_equals_exhaustive (good : c.Good) (codec : CursorCodec S) {s : System S} {trace : Trace S}
    (run : Run (step c) System.new trace s) {r : DiscoverRequest} (noCursor : r.cursor = "") (operator : String)
    (finalValidate : Except String Unit) :
    (∀ final, searchWithOptions c codec s.backend.current r ⟨operator, none, finalValidate⟩ final =
      exhaustiveSearch c codec s.generation.number (texts s.generation.live) "" "" r operator finalValidate) ∧
    (∀ refs authority v, newVisibility c s.backend.current refs authority = .ok v →
      searchWithOptions c codec s.backend.current r ⟨operator, some v, finalValidate⟩ s.backend.current.address =
        exhaustiveSearch c codec s.generation.number (texts (s.generation.visible refs)) authority
          (fingerprint c.lib refs) r operator finalValidate) ∧ (∀ number docs authority key result,
      exhaustiveSearch c codec number docs authority key r operator finalValidate = .ok result →
        ∃ op, parseOperator operator = some op ∧ result.candidates = (ranking c r op docs none).take r.limit ∧
          (result.nextCursor ≠ "" ↔ r.limit < (ranking c r op docs none).length)) := by
  have core := (reached_sound run).core
  refine ⟨fun final => search_all good codec core r operator finalValidate final, fun refs authority v made => ?_, ?_⟩
  · exact search_visible good codec core made r operator finalValidate
  · intro number docs authority key result
    exact exhaustive_first_page noCursor

/-! Searches in an index of two documents, of which a page holds one. -/

def sampleRequest : DiscoverRequest := ⟨"a", [], [], [], [], 1, ""⟩

def sampleCodec : CursorCodec Rat := ⟨fun _ => "next", fun _ => .error .unsupportedQuery, fun _ => by decide⟩

def twoDocuments : System Rat := finalState (step sampleConfig) System.new (sampleOps ++ moreOps)

theorem twoDocuments_state : twoDocuments.generation.number = 2 ∧
    (newVisibility sampleConfig twoDocuments.backend.current [sampleRef] "").isOk ∧
    twoDocuments.generation.document sampleRef = some changedDocument ∧
    twoDocuments.generation.document otherRef = some otherDocument := by
  decide +kernel

theorem twoDocuments_run :
    Run (step sampleConfig) System.new (traceOf (step sampleConfig) System.new (sampleOps ++ moreOps)) twoDocuments :=
  Run.start.inputs (sampleOps ++ moreOps)

/-- One of the two documents is visible. -/
theorem twoDocuments_visible : ∃ v, newVisibility sampleConfig twoDocuments.backend.current [sampleRef] "" = .ok v := by
  obtain ⟨-, visible, -⟩ := twoDocuments_state
  generalize newVisibility sampleConfig twoDocuments.backend.current [sampleRef] "" = made at visible
  cases made with
  | error e => cases visible
  | ok v => exact ⟨v, rfl⟩

theorem sampleConfig_good : sampleConfig.Good := ⟨by decide +kernel, fun _ nonneg => nonneg⟩

theorem search_equals_exhaustive_sample : ∃ v : Visibility,
    newVisibility sampleConfig twoDocuments.backend.current [sampleRef] "" = .ok v ∧
    searchWithOptions sampleConfig sampleCodec twoDocuments.backend.current sampleRequest ⟨"", none, .ok ()⟩ 0 =
      exhaustiveSearch sampleConfig sampleCodec 2 (texts twoDocuments.generation.live) "" "" sampleRequest "" (.ok ()) ∧
    searchWithOptions sampleConfig sampleCodec twoDocuments.backend.current sampleRequest ⟨"", some v, .ok ()⟩
        twoDocuments.backend.current.address =
      exhaustiveSearch sampleConfig sampleCodec 2 (texts (twoDocuments.generation.visible [sampleRef])) ""
        (fingerprint sampleLibrary [sampleRef]) sampleRequest "" (.ok ()) := by
  have answer := search_equals_exhaustive sampleConfig_good sampleCodec twoDocuments_run
    (show sampleRequest.cursor = "" from rfl) "" (.ok ())
  obtain ⟨v, made⟩ := twoDocuments_visible
  obtain ⟨number, -⟩ := twoDocuments_state
  rw [← number]
  exact ⟨v, made, answer.1 0, answer.2.1 _ _ v made⟩

/-- The candidates of a limited search are those of a search in a backend that holds the visible documents only, so
they are the same in all backends that agree on these. -/
theorem limited_search_reveals_nothing (good : c.Good) (codec : CursorCodec S) {s : System S} {trace : Trace S}
    (run : Run (step c) System.new trace s) {refs : List EndpointRef} {authority : String} {v : Visibility}
    (made : newVisibility c s.backend.current refs authority = .ok v) {r : DiscoverRequest} (noCursor : r.cursor = "")
    (operator : String) (finalValidate : Except String Unit) :
    (∀ (s' : System S) (trace' : Trace S), Run (step c) System.new trace' s' →
      (∀ e ∈ trace', e.input.publishes = true) → (∀ change ∈ history trace', ∃ d, change = .upsert d) →
      (∀ d, Change.upsert d ∈ history trace' ↔ ∃ ref ∈ refs, s.generation.document ref = some d) → ∀ final,
      (searchWithOptions c codec s.backend.current r ⟨operator, some v, finalValidate⟩ s.backend.current.address).map
          (·.candidates) =
        (searchWithOptions c codec s'.backend.current r ⟨operator, none, finalValidate⟩ final).map (·.candidates)) ∧
    (∀ (s' : System S) (trace' : Trace S) (authority' : String) (v' : Visibility), Run (step c) System.new trace' s' →
      newVisibility c s'.backend.current refs authority' = .ok v' →
      (∀ ref ∈ refs, s'.generation.document ref = s.generation.document ref) →
      (searchWithOptions c codec s.backend.current r ⟨operator, some v, finalValidate⟩ s.backend.current.address).map
          (·.candidates) = (searchWithOptions c codec s'.backend.current r ⟨operator, some v', finalValidate⟩
          s'.backend.current.address).map (·.candidates)) := by
  have sound := reached_sound run
  have visible : ((texts (s.generation.visible refs)).map (·.ref.toString)).Nodup :=
    texts_nodup sound.core (List.Perm.refl _) (visibleTo refs)
  constructor
  · intro s' trace' run' publications upserts inserted final
    obtain ⟨-, sound', tracks⟩ := run_tracks run' publications
    rw [search_visible good codec sound.core made, search_all good codec sound'.core]
    have distinct := texts_nodup sound'.core (List.Perm.refl _) fun _ => true
    rw [filter_eq_self.2 fun _ _ => rfl] at distinct
    refine exhaustive_candidates noCursor (texts_perm visible distinct fun d => ?_) visible
    change d ∈ texts (s.generation.visible refs) ↔ d ∈ texts s'.generation.live
    rw [sound.mem_visible, sound'.mem_texts, tracks.document]
    have unique : ∀ {d'}, Change.upsert d' ∈ history trace' → s.generation.document d'.ref = some d' ∧ d'.ref ∈ refs := by
      intro d' mem
      obtain ⟨ref, listed, found⟩ := (inserted d').1 mem
      obtain ⟨e, v, entry, value, rfl⟩ := Generation.document_eq_some.1 found
      rw [EndpointRef.toString_injective (sound.core.values entry value).1]
      exact ⟨found, listed⟩
    constructor
    · rintro ⟨listed, found⟩
      have mem := (inserted d).2 ⟨d.ref, listed, found⟩
      obtain ⟨d', last⟩ := Option.isSome_iff_exists.1 (lastEffective_of_upserts upserts mem)
      obtain ⟨mem', ref⟩ := lastEffective_mem last
      have found' := (unique mem').1
      rw [ref, found] at found'
      rw [last, found']
    · intro last
      obtain ⟨mem, -⟩ := lastEffective_mem last
      exact ⟨(unique mem).2, (unique mem).1⟩
  · intro s' trace' authority' v' run' made' agree
    have sound' := reached_sound run'
    have visible' : ((texts (s'.generation.visible refs)).map (·.ref.toString)).Nodup :=
      texts_nodup sound'.core (List.Perm.refl _) (visibleTo refs)
    rw [search_visible good codec sound.core made, search_visible good codec sound'.core made']
    refine exhaustive_candidates noCursor (texts_perm visible visible' fun d => ?_) visible
    change d ∈ texts (s.generation.visible refs) ↔ d ∈ texts (s'.generation.visible refs)
    rw [sound.mem_visible, sound'.mem_visible]
    exact and_congr_right fun listed => by rw [agree d.ref listed]

/-- The visible document of the two, alone. -/
def oneOps : List (Op Rat) := [.apply ⟨[changedDocument], [], ""⟩ false (.ok ())]

def oneDocument : System Rat := finalState (step sampleConfig) System.new oneOps

theorem oneDocument_state : oneDocument.generation.document otherRef = none ∧
    history (traceOf (step sampleConfig) System.new oneOps) = [.upsert changedDocument] := by
  decide +kernel

theorem limited_search_reveals_nothing_sample : ∃ v : Visibility,
    newVisibility sampleConfig twoDocuments.backend.current [sampleRef] "" = .ok v ∧
      twoDocuments.generation.document otherRef = some otherDocument ∧ oneDocument.generation.document otherRef = none ∧
      (searchWithOptions sampleConfig sampleCodec twoDocuments.backend.current sampleRequest ⟨"", some v, .ok ()⟩
          twoDocuments.backend.current.address).map (·.candidates) =
        (searchWithOptions sampleConfig sampleCodec oneDocument.backend.current sampleRequest ⟨"", none, .ok ()⟩ 0).map
          (·.candidates) := by
  have run : Run (step sampleConfig) System.new (traceOf (step sampleConfig) System.new oneOps) oneDocument :=
    Run.start.inputs oneOps
  obtain ⟨-, -, document, other⟩ := twoDocuments_state
  obtain ⟨gone, changes⟩ := oneDocument_state
  obtain ⟨v, made⟩ := twoDocuments_visible
  have answer := limited_search_reveals_nothing sampleConfig_good sampleCodec twoDocuments_run made
    (show sampleRequest.cursor = "" from rfl) "" (.ok ())
  refine ⟨v, made, other, gone, answer.1 _ _ run ?_ ?_ ?_ 0⟩
  · intro e mem
    rw [mem_singleton.1 mem]
    rfl
  · rw [changes]
    intro change mem
    exact ⟨_, mem_singleton.1 mem⟩
  · intro d
    rw [changes]
    simp [document, eq_comm]

end Pagnet.Search
