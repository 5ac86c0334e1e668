import Pagnet.Search.History

/-!
# The incremental index is the rebuilt one

After any run of publications the index is what a rebuild from the current
catalogue would make of it: every node of the tree summarizes exactly the
documents below it, the statistics are those of the live documents, and the
live documents are the last effective upserts of the publication history.
-/

namespace Pagnet.Search
open Fabric List

variable {S : Type} {c : Config S} {g g' : Generation}

/-- A node and all nodes below it. -/
def Node.nodes : Node → List Node
  | nil => []
  | leaf slots info => [leaf slots info]
  | branch l r info => branch l r info :: (l.nodes ++ r.nodes)

theorem Node.WellFormed.node {level : Nat} {root n : Node} (wf : root.WellFormed level) (mem : n ∈ root.nodes) :
    n.docs ≠ [] ∧ n.info.Describes n.docs := by
  induction root generalizing level with
  | nil => cases mem
  | leaf slots info =>
    cases level with
    | succ => exact wf.elim
    | zero =>
      rw [mem_singleton.1 mem]
      exact ⟨wf.2.2, wf.2.1⟩
  | branch l r info ofLeft ofRight =>
    cases level with
    | zero => exact wf.elim
    | succ level =>
      rcases mem_cons.1 mem with rfl | below
      · exact ⟨wf.2.2.2, wf.2.2.1⟩
      · rcases mem_append.1 below with left | right
        · exact ofLeft wf.1 left
        · exact ofRight wf.2.1 right

/-- The index that a rebuild from these changes would make. -/
structure Rebuilt (c : Config S) (g : Generation) (changes : List Change) : Prop where
  /-- No node is empty, and each one describes exactly the documents below it. -/
  nodes : ∀ n ∈ g.root.nodes, n.docs ≠ [] ∧ n.info.Describes n.docs
  /-- A slot holds the document of the reference with its storage id. -/
  slots : ∀ i < spanOf g.level, ∀ d, g.root.get g.level i = some d ↔
    ∃ ref e, g.refs.get ref = some e ∧ e.id = i ∧ e.value = some d
  /-- The tree holds each live document once. -/
  stored : g.root.docs.Perm g.live
  compacted : ∀ d ∈ g.live, d = indexDocument c.lib d.doc
  stats : g.stats.Describes g.live
  bytes : g.bytes = (g.live.map fun d => d.doc.toJson.size).sum
  ids : ∀ ref e, g.refs.get ref = some e → e.id < g.nextID
  unique : ∀ ref ref' e e', g.refs.get ref = some e → g.refs.get ref' = some e' → e.id = e'.id → ref = ref'
  span : g.nextID ≤ spanOf g.level
  documents : ∀ ref, g.document ref = lastEffective changes ref
  /-- A revision that was published before changes nothing. -/
  again : ∀ d g', wasPublished changes d.ref d.revision → upsert c g d = .ok g' → g' = g
  /-- Nor does a batch of such revisions, except for the labels of the generation. -/
  replayed : ∀ batch g' record, (∀ d ∈ batch.upserts, wasPublished changes d.ref d.revision) → batch.deletes = [] →
    prepare c g batch = .ok (g', record) →
      g' = { g with number := g'.number, cursor := g'.cursor, commitHash := g'.commitHash,
                    sourceSequence := g'.sourceSequence }

variable {changes : List Change}

theorem upsert_again (tracks : Tracks g changes) {d : SearchDocument}
    (before : wasPublished changes d.ref d.revision) (h : upsert c g d = .ok g') : g' = g := by
  obtain ⟨value, digest, -, ⟨-, same⟩ | ⟨missing, -⟩⟩ := upsert_ok h
  · exact same
  · rw [← tracks.seen, missing] at before
    cases before

theorem prepare_replayed (tracks : Tracks g changes) {batch : Batch} {record : CommitRecord S}
    (before : ∀ d ∈ batch.upserts, wasPublished changes d.ref d.revision) (plain : batch.deletes = [])
    (h : prepare c g batch = .ok (g', record)) :
    g' = { g with number := g'.number, cursor := g'.cursor, commitHash := g'.commitHash,
                  sourceSequence := g'.sourceSequence } := by
  obtain ⟨sequence, upserted, deleted, hash, p, rfl, -⟩ := prepare_ok.1 h
  have start : Tracks { g with sourceSequence := sequence } changes := tracks.same rfl rfl
  have turns : ∀ (upserts : List SearchDocument) (g g' : Generation), Tracks g changes →
      (∀ d ∈ upserts, wasPublished changes d.ref d.revision) → upserts.foldlM (upsert c) g = .ok g' → g' = g := by
    intro upserts
    induction upserts with
    | nil =>
      intro g g' _ _ h
      exact (Except.ok.inj h).symm
    | cons d rest ih =>
      intro g g' tracks before h
      obtain ⟨next, upserted, h⟩ := of_bind h
      rw [upsert_again tracks (before d mem_cons_self) upserted] at h
      exact ih g g' tracks (fun d mem => before d (mem_cons_of_mem _ mem)) h
  have same := turns _ _ _ start before p.upserts
  have none_deleted := p.deletes
  rw [plain] at none_deleted
  cases none_deleted
  rw [same]
  rfl

theorem rebuilt_of_sound (sound : g.Sound c.lib) (tracks : Tracks g changes) : Rebuilt c g changes where
  nodes n mem := sound.core.tree.node mem
  slots i inside d := by
    constructor
    · intro found
      obtain ⟨e, entry, same⟩ := sound.core.filled inside found
      refine ⟨d.ref, e, entry, same, ?_⟩
      rw [← sound.core.slots entry, same]
      exact found
    · rintro ⟨ref, e, entry, rfl, value⟩
      exact (sound.core.slots entry).trans value
  stored := sound.core.docs
  compacted d mem := (sound.core.compacted mem).eq_indexDocument
  stats := sound.core.stats
  bytes := by
    rw [sound.core.bytes]
    refine congrArg List.sum (map_congr_left fun d mem => ?_)
    conv_lhs => rw [(sound.core.compacted mem).eq_indexDocument]
    rfl
  ids _ _ := sound.core.ids
  unique _ _ _ _ := sound.core.unique
  span := sound.core.room
  documents := tracks.document
  again _ _ := upsert_again tracks
  replayed _ _ _ := prepare_replayed tracks

/-! ## Runs -/

/-- The changes of all publications of a run, the last one first. -/
def history (trace : Trace S) : List Change := (published trace).flatMap Batch.changes

theorem history_snoc (trace : Trace S) (e : Event (System S) (Op S) (Except Error (Option (CommitRecord S)))) :
    history (trace ++ [e]) = ((publishedBatch e.output).map Batch.changes).getD [] ++ history trace := by
  unfold history published
  rw [filterMap_append, reverse_append, flatMap_append]
  congr 1
  cases found : publishedBatch e.output <;> simp [found]

/-- A move that is no activation and no restored checkpoint. -/
theorem moves_tracks [DecidableEq S] {op : Op S} {out : Option Batch} (plain : op.publishes)
    (sound : g.Sound c.lib) (tracks : Tracks g changes) (moves : Moves c g g' op out) :
    g'.Sound c.lib ∧ Tracks g' ((out.map Batch.changes).getD [] ++ changes) := by
  cases moves with
  | stays same =>
    rw [same]
    exact ⟨sound, tracks⟩
  | publishes batch record prepared => exact ⟨prepare_sound sound prepared, prepare_tracks tracks sound prepared⟩
  | compacts => cases plain
  | restores _ _ _ kind => cases kind.1.symm.trans plain

/-- A run of publications keeps track of its history. -/
theorem run_tracks [DecidableEq S] {s : System S} {trace : Trace S} (run : Run (step c) System.new trace s)
    (publications : ∀ e ∈ trace, e.input.publishes) :
    s.Inv c ∧ s.generation.Sound c.lib ∧ Tracks s.generation (history trace) := by
  induction run with
  | start => exact ⟨System.inv_new, sound_initial c.lib, tracks_initial⟩
  | @next trace s run op ih =>
    obtain ⟨inv, sound, tracks⟩ := ih fun e mem => publications e (mem_append_left _ mem)
    have plain : op.publishes := publications (Event.of (step c) s op) (by simp)
    obtain ⟨kept, moves⟩ := step_moves inv op
    rw [history_snoc]
    exact ⟨kept, moves_tracks plain sound tracks moves⟩

/-- After any run of publications the index is the one a rebuild of its history makes. -/
theorem index_equals_rebuild [DecidableEq S] {s : System S} {trace : Trace S} (run : Run (step c) System.new trace s)
    (publications : ∀ e ∈ trace, e.input.publishes = true) : Rebuilt c s.generation (history trace) := by
  obtain ⟨-, sound, tracks⟩ := run_tracks run publications
  exact rebuilt_of_sound sound tracks

/-! A run that publishes two documents, changes one and deletes the other. -/

def sampleLibrary : Library := ⟨"15.0.0", Char.isAlpha, Char.isDigit, Char.toLower, Json.sampleDigest⟩

def sampleConfig : Config Rat := ⟨sampleLibrary, ⟨id, fun _ => ['1']⟩, ⟨1, 0⟩, none⟩

def sampleID (c : Char) : String := String.ofList (List.replicate 51 c ++ ['a'])

def sampleRef : EndpointRef := ⟨"d-" ++ sampleID 'a', sampleID 'a', "", by decide +kernel⟩

def otherRef : EndpointRef := ⟨"d-" ++ sampleID 'b', sampleID 'b', "", by decide +kernel⟩

def sampleDocument : SearchDocument := ⟨sampleRef, "1", "a", "", "a.b", [], [], "", "", none⟩

def changedDocument : SearchDocument := { sampleDocument with revision := "2", name := "a c" }

def otherDocument : SearchDocument := { sampleDocument with ref := otherRef }

def sampleOps : List (Op Rat) := [.apply ⟨[sampleDocument], [], ""⟩ false (.ok ())]

def moreOps : List (Op Rat) := [.apply ⟨[otherDocument, changedDocument], [], ""⟩ false (.ok ())]

def lastOps : List (Op Rat) := [.apply ⟨[], [⟨otherRef, "1"⟩], ""⟩ false (.ok ())]

theorem index_equals_rebuild_sample :
    history (traceOf (step sampleConfig) System.new (sampleOps ++ moreOps ++ lastOps)) =
        [.delete otherRef, .upsert changedDocument, .upsert otherDocument, .upsert sampleDocument] ∧
      Rebuilt sampleConfig (finalState (step sampleConfig) System.new (sampleOps ++ moreOps ++ lastOps)).generation
        (history (traceOf (step sampleConfig) System.new (sampleOps ++ moreOps ++ lastOps))) := by
  refine ⟨by decide +kernel, index_equals_rebuild (Run.start.inputs (sampleOps ++ moreOps ++ lastOps)) fun e mem => ?_⟩
  simp only [sampleOps, moreOps, lastOps, cons_append, nil_append, traceOf, mem_cons, not_mem_nil, or_false] at mem
  rcases mem with rfl | rfl | rfl <;> rfl

end Pagnet.Search
