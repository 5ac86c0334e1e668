import Pagnet.Search.Moves
import Pagnet.Search.Rows

/-!
# Restored generations

`RestoreCheckpoint` accepts a header and pages exactly when their rows are those
of a generation and have the digest of the header, and what it builds is sound.
With the generations that drop superseded revisions this covers every move, so
every generation of every run is sound.
-/

namespace Pagnet.Search
open Json Fabric List Dictionary

variable {S : Type} {c : Config S} {lib : Library} {header : CheckpointHeader S} {g base : Generation}

/-! ## Headers -/

/-- The bounds and the versions of a header. -/
structure HeaderBounds (c : Config S) (h : CheckpointHeader S) : Prop where
  format : h.format = formatVersion
  tokenizer : h.tokenizer = c.lib.tokenizerVersion
  scorer : h.scorer = scorerVersion
  parameters : h.parameters = c.parameters
  nextID : h.nextID ≤ maxDocuments
  span : leafSize ≤ h.span ∧ h.span ≤ maxDocuments ∧ h.span &&& (h.span - 1) = 0
  room : h.nextID ≤ h.span
  referenceRows : h.referenceRows = h.nextID
  revisionRows : h.revisionRows ≤ maxRevisions
  live : h.liveDocuments ≤ h.referenceRows
  length : h.totalLength ≤ h.liveDocuments * maxDocumentBytes
  digest : validDigest h.sha256
  root : (h.generation = 0 → h.rootCommitSHA256 = "") ∧ (0 < h.generation → validDigest h.rootCommitSHA256)
  cursor : h.upstreamCursor.utf8ByteSize ≤ 4096

theorem headerInvalid_eq_false [DecidableEq S] : headerInvalid c header = false ↔ HeaderBounds c header := by
  simp only [headerInvalid, Bool.or_eq_false_iff, bne_eq_false_iff_eq, decide_eq_false_iff_not, not_lt, Bool.and_eq_false_iff,
    beq_eq_false_iff_ne, Bool.not_eq_false', ne_eq, Nat.le_zero]
  constructor
  · rintro ⟨⟨⟨⟨⟨⟨⟨⟨⟨⟨⟨⟨⟨⟨⟨⟨a, b⟩, d⟩, e⟩, f⟩, i⟩, j⟩, k⟩, l⟩, m⟩, n⟩, o⟩, p⟩, q⟩, zero⟩, positive⟩, r⟩
    refine ⟨a, b, d, e, f, ⟨i, j, k⟩, l, m, n, o, p, q, ⟨fun is => zero.resolve_left (not_not_intro is), fun is => ?_⟩, r⟩
    exact positive.resolve_left (by omega)
  · intro h
    refine ⟨⟨⟨⟨⟨⟨⟨⟨⟨⟨⟨⟨⟨⟨⟨⟨h.format, h.tokenizer⟩, h.scorer⟩, h.parameters⟩, h.nextID⟩, h.span.1⟩, h.span.2.1⟩, h.span.2.2⟩,
      h.room⟩, h.referenceRows⟩, h.revisionRows⟩, h.live⟩, h.length⟩, h.digest⟩, ?_⟩, ?_⟩, h.cursor⟩
    · by_cases zero : header.generation = 0
      · exact .inr (h.root.1 zero)
      · exact .inl zero
    · by_cases zero : header.generation = 0
      · exact .inl zero
      · exact .inr (h.root.2 (Nat.pos_of_ne_zero zero))

/-- A header that may be put in the place of a generation. -/
structure HeaderFor (c : Config S) (base : Generation) (h : CheckpointHeader S) : Prop where
  order : h.sourceOrder = c.sourceOrder
  floor : h.replayFloor ≤ h.sourceSequence
  unordered : c.replayOrder = none → h.sourceSequence = 0 ∧ h.replayFloor = 0
  ordered : ∀ {order}, c.replayOrder = some order → 0 < h.generation → order.sequence h.upstreamCursor = .ok h.sourceSequence
  start : h.generation = 0 → h.nextID = 0 ∧ h.revisionRows = 0 ∧ h.sourceSequence = 0 ∧ h.replayFloor = 0 ∧
    h.upstreamCursor = "" ∧ h.liveDocuments = 0 ∧ h.totalLength = 0
  newer : base.number ≤ h.generation
  same : h.generation = base.number → h.rootCommitSHA256 = base.commitHash
  bounds : HeaderBounds c h

theorem checkSource_ok : checkSource c header = .ok () ↔ header.sourceOrder = c.sourceOrder ∧
    header.replayFloor ≤ header.sourceSequence ∧
    (c.replayOrder = none → header.sourceSequence = 0 ∧ header.replayFloor = 0) ∧
    ∀ {order}, c.replayOrder = some order → 0 < header.generation →
      order.sequence header.upstreamCursor = .ok header.sourceSequence := by
  unfold checkSource
  rw [refuse_bind_eq_ok]
  simp only [Bool.or_eq_false_iff, bne_eq_false_iff_eq, decide_eq_false_iff_not, not_lt]
  rw [and_assoc, and_assoc]
  refine and_congr_right fun _ => and_congr_right fun _ => ?_
  cases c.replayOrder with
  | none => simp [pure, Except.pure]
  | some order => simp [Nat.pos_iff_ne_zero]

theorem checkHeader_ok [DecidableEq S] : checkHeader c base header = .ok () ↔ HeaderFor c base header := by
  unfold checkHeader
  rw [bind_eq_ok]
  simp only [refuse_bind_eq_ok, refuse_eq_ok, headerInvalid_eq_false]
  constructor
  · rintro ⟨⟨⟩, source, start, stale, bounds⟩
    obtain ⟨order, floor, unordered, ordered⟩ := checkSource_ok.1 source
    simp only [Bool.or_eq_false_iff, Bool.and_eq_false_iff, beq_eq_false_iff_ne, bne_eq_false_iff_eq,
      decide_eq_false_iff_not, not_lt] at start stale
    refine ⟨order, floor, unordered, ordered, fun zero => ?_, stale.1, fun is => stale.2.resolve_left (not_not_intro is), bounds⟩
    obtain ⟨⟨⟨⟨⟨⟨a, b⟩, d⟩, e⟩, f⟩, i⟩, j⟩ := start.resolve_left (not_not_intro zero)
    exact ⟨a, b, d, e, f, i, j⟩
  · intro h
    refine ⟨(), checkSource_ok.2 ⟨h.order, h.floor, h.unordered, h.ordered⟩, ?_, ?_, h.bounds⟩
    · by_cases zero : header.generation = 0
      · obtain ⟨a, b, d, e, f, i, j⟩ := h.start zero
        simp [a, b, d, e, f, i, j]
      · simp [zero]
    · simp only [Bool.or_eq_false_iff, Bool.and_eq_false_iff, beq_eq_false_iff_ne, bne_eq_false_iff_eq,
        decide_eq_false_iff_not, not_lt]
      refine ⟨h.newer, ?_⟩
      by_cases same : header.generation = base.number
      · exact .inr (h.same same)
      · exact .inl same

/-- The span of a header is that of a tree. -/
theorem HeaderBounds.spanOf_level (bounds : HeaderBounds c header) :
    spanOf (emptyGeneration header).level = header.span := by
  obtain ⟨least, -, power⟩ := bounds.span
  have nonzero : header.span ≠ 0 := by
    simp only [leafSize] at least
    omega
  obtain ⟨k, is_power⟩ := (Nat.and_sub_one_eq_zero_iff_isPowerOfTwo nonzero).1 power
  rw [is_power] at least
  have five : 5 ≤ k := by
    rw [show leafSize = 2 ^ 5 from rfl, Nat.pow_le_pow_iff_right (by decide)] at least
    exact least
  obtain ⟨j, rfl⟩ : ∃ j, k = 5 + j := ⟨k - 5, by omega⟩
  have quotient : header.span / leafSize = 2 ^ j := by
    rw [is_power, pow_add, show leafSize = 2 ^ 5 from rfl, Nat.mul_div_cancel_left _ (by decide)]
  change spanOf (header.span / leafSize).log2 = header.span
  rw [quotient, Nat.log2_two_pow, spanOf, is_power, pow_add]
  rfl

/-- Nothing was read yet. -/
theorem rebuilding_start (bounds : HeaderBounds c header) :
    Rebuilding c header [] [] ⟨emptyGeneration header, hashHeader c header, 0, 0, .nil⟩ where
  rows := ⟨nofun, List.Pairwise.nil, List.Pairwise.nil⟩
  core :=
    { tree := Node.wellFormed_nil _
      slots := fun found => nomatch found
      filled := fun _ found => by
        rw [show (emptyGeneration header).root = .nil from rfl, Node.get_nil] at found
        cases found
      docs := List.Perm.nil
      ids := fun found => nomatch found
      unique := fun found => nomatch found
      values := fun found => nomatch found
      room := by
        rw [bounds.spanOf_level]
        exact bounds.room
      small := by
        rw [bounds.spanOf_level]
        exact bounds.span.2.1
      stats := Corpus.describes_nil
      bytes := rfl }
  labels := { }
  refs := rfl
  seen := rfl
  allocated := IdSet.wellFormed_nil _
  used i _ := by
    rw [IdSet.mem_nil]
    simp
  hashed := by simp
  references := rfl
  revisions := rfl

/-! ## The whole checkpoint -/

/-- A header, the rows of its pages and the state they leave, as `RestoreCheckpoint` accepts them. -/
structure Restores (c : Config S) (base : Generation) (header : CheckpointHeader S) (load : CheckpointLoader)
    (refRows : List CheckpointReference) (revRows : List CheckpointRevision) (st : Restoring) : Prop where
  checked : HeaderFor c base header
  complete : refRows.length = header.referenceRows
  references : Chain (referenceReader c header) load "" refRows
  revisions : Chain (revisionReader c header refRows complete.le) load "" revRows
  ledger : RevisionRows refRows revRows
  counted : revRows.length = header.revisionRows
  built : Rebuilding c header refRows revRows st
  live : st.next.stats.count = header.liveDocuments
  length : st.next.stats.totalLength = header.totalLength
  digest : hexEncode (c.lib.sha256 st.hashed) = header.sha256
  entries : ∀ a ∈ st.next.refs.toList, checkEntry c st.next a.1 a.2 = .ok ()

variable {load : CheckpointLoader} {refRows : List CheckpointReference} {revRows : List CheckpointRevision}

theorem restores_of_ok [DecidableEq S] (h : restoreGeneration c base header load = .ok g) :
    ∃ refRows revRows st, Restores c base header load refRows revRows st ∧ g = st.next := by
  obtain ⟨⟨⟩, passed, h⟩ := of_bind h
  have checked := checkHeader_ok.1 passed
  obtain ⟨st₁, first, h⟩ := of_bind h
  obtain ⟨st, second, h⟩ := of_bind h
  obtain ⟨totals, h⟩ := of_refuse h
  obtain ⟨⟨⟩, entries, h⟩ := of_bind h
  simp only [Bool.or_eq_false_iff, bne_eq_false_iff_eq] at totals
  obtain ⟨⟨⟨⟨references, revisions⟩, live⟩, length⟩, digest⟩ := totals
  obtain ⟨refRows, refChain, built₁, bound⟩ :=
    (referenceReader c header).chain_of_load (rebuilding_start checked.bounds) first
  have start : (revisionReader c header refRows bound).built [] st₁ := ⟨⟨by simp, by simp, .nil⟩, built₁⟩
  obtain ⟨revRows, revChain, ⟨ledger, built⟩, -⟩ := (revisionReader c header refRows bound).chain_of_load start second
  rw [each_eq] at entries
  have complete : refRows.length = header.referenceRows := built.references.symm.trans references
  refine ⟨refRows, revRows, st, ⟨checked, complete, refChain, revChain, ledger, built.revisions.symm.trans revisions, built,
    live, length, digest, ?_⟩, (Except.ok.inj h).symm⟩
  exact foldlM_unit_eq_ok.1 entries

/-- Rows of a generation with the digest of the header are accepted. -/
theorem ok_of_rows [DecidableEq S] (checked : HeaderFor c base header) (complete : refRows.length = header.referenceRows)
    (references : Chain (referenceReader c header) load "" refRows) (rows : ReferenceRows c.lib header.nextID refRows)
    (revisions : Chain (revisionReader c header refRows complete.le) load "" revRows) (ledger : RevisionRows refRows revRows)
    (counted : revRows.length = header.revisionRows)
    (final : ∀ st, Rebuilding c header refRows revRows st → st.next.stats.count = header.liveDocuments ∧
      st.next.stats.totalLength = header.totalLength ∧ hexEncode (c.lib.sha256 st.hashed) = header.sha256 ∧
      ∀ a ∈ st.next.refs.toList, checkEntry c st.next a.1 a.2 = .ok ()) :
    ∃ st, Rebuilding c header refRows revRows st ∧ restoreGeneration c base header load = .ok st.next := by
  obtain ⟨st₁, first, built₁⟩ := (referenceReader c header).load_of_chain references (rebuilding_start checked.bounds) rfl
    rows complete.le (Nat.lt_succ_of_le complete.le)
  have start : (revisionReader c header refRows complete.le).built [] st₁ := ⟨⟨nofun, nofun, .nil⟩, built₁⟩
  obtain ⟨st, second, -, built⟩ := (revisionReader c header refRows complete.le).load_of_chain revisions start rfl ledger
    counted.le (Nat.lt_succ_of_le counted.le)
  obtain ⟨live, length, digest, entries⟩ := final st built
  refine ⟨st, built, ?_⟩
  refine bind_eq_ok.2 ⟨(), checkHeader_ok.2 checked, bind_eq_ok.2 ⟨st₁, first, bind_eq_ok.2 ⟨st, second, ?_⟩⟩⟩
  refine refuse_bind_eq_ok.2 ⟨?_, bind_eq_ok.2 ⟨(), ?_, rfl⟩⟩
  · simp [built.references, built.revisions, complete, counted, live, length, digest]
  · rw [each_eq]
    exact foldlM_unit_eq_ok.2 entries

variable {e : Entry} {ref : String} {kept : Dictionary String String × Nat}

/-- What `checkEntry` found of the current revision of an entry. -/
theorem checkEntry_ok : checkEntry c g ref e = .ok () ↔
    ∃ digest, g.seen.get (historyKey ref e.revision) = some digest ∧
      ∀ {d}, e.value = some d → ∃ value, compact c.lib d.doc = .ok (value, digest) := by
  unfold checkEntry
  cases found : g.seen.get (historyKey ref e.revision) with
  | none => simp
  | some digest =>
    cases value : e.value with
    | none => simp
    | some d =>
      constructor
      · intro h
        obtain ⟨⟨indexed, expected⟩, compacted, h⟩ := of_bind h
        have same : digest = expected := by simpa using h
        refine ⟨digest, rfl, ?_⟩
        rintro _ ⟨⟩
        exact ⟨indexed, same ▸ compacted⟩
      · rintro ⟨_, ⟨⟩, documents⟩
        obtain ⟨indexed, compacted⟩ := documents rfl
        exact bind_eq_ok.2 ⟨_, compacted, by simp⟩

theorem Restores.sound {st : Restoring} (restores : Restores c base header load refRows revRows st) :
    st.next.Sound c.lib where
  core := restores.built.core
  ledger := by
    have built := restores.built
    constructor
    case rows =>
      rw [built.refs, length_map, built.labels.nextID, restores.complete]
      exact restores.checked.bounds.referenceRows
    case versions =>
      rw [built.seen, length_map, built.labels.versions]
      exact restores.counted
    case bounded =>
      rw [built.labels.versions]
      exact restores.checked.bounds.revisionRows
    case entries =>
      intro ref e found
      obtain ⟨digest, seen, documents⟩ := checkEntry_ok.1 (restores.entries _ (get_eq_some.1 found))
      obtain ⟨r, mem, rfl, rfl⟩ := built.mem_refs.1 found
      have readable := built.rows.readable r mem
      refine ⟨⟨r.ref, readable.named, rfl⟩, ⟨digest, seen⟩, readable.revision, fun {d} value => ?_⟩
      obtain ⟨doc, document, rfl⟩ := Option.map_eq_some_iff.1 value
      obtain ⟨indexed, compacted⟩ := documents value
      obtain ⟨-, -, -, rfl, -⟩ := compact_ok compacted
      exact ⟨(readable.document document).2.1, digest, compacted, seen⟩
    case keys =>
      intro key digest found
      rw [get_eq_some, built.seen] at found
      obtain ⟨r, mem, same⟩ := mem_map.1 found
      cases same
      obtain ⟨a, listed, revision, key_is, nonempty, short⟩ := restores.ledger.identity r mem
      refine ⟨⟨a.ref, revision, key_is, (built.rows.readable a listed).named, ?_, nonempty, short⟩,
        restores.ledger.digest r mem⟩
      change (st.next.refs.get a.key).isSome
      rw [built.mem_refs.2 ⟨a, listed, rfl, rfl⟩]
      rfl

/-! ## Superseded revisions -/

/-- The revisions that are kept of the references visited so far. -/
structure Kept (g : Generation) (done : List (String × Entry)) (kept : Dictionary String String × Nat) : Prop where
  count : kept.1.toList.length = kept.2
  visited : kept.2 = done.length
  current : ∀ {key digest}, kept.1.get key = some digest → g.seen.get key = some digest ∧
    ∃ a ∈ done, key = historyKey a.1 a.2.revision
  all : ∀ a ∈ done, ∃ digest, kept.1.get (historyKey a.1 a.2.revision) = some digest

theorem Kept.next {done : List (String × Entry)} {kept kept' : Dictionary String String × Nat} {a : String × Entry}
    (before : Kept g done kept) (fresh : ∀ b ∈ done, historyKey b.1 b.2.revision ≠ historyKey a.1 a.2.revision)
    (h : keepRevision g kept a.1 a.2 = .ok kept') : Kept g (done ++ [a]) kept' := by
  unfold keepRevision at h
  split at h
  case h_1 => cases h
  rename_i digest found
  cases h
  have missing : kept.1.get (historyKey a.1 a.2.revision) = none := by
    refine Option.eq_none_iff_forall_ne_some.2 fun prior known => ?_
    obtain ⟨-, b, mem, same⟩ := before.current known
    exact fresh b mem same.symm
  constructor
  case count => rw [length_put_of_none missing, before.count]
  case visited => rw [length_append, length_singleton, before.visited]
  case current =>
    intro key prior known
    rw [get_put] at known
    split at known
    case isTrue here => exact ⟨by rw [here, found, known], a, by simp, here⟩
    case isFalse =>
      obtain ⟨seen, b, mem, same⟩ := before.current known
      exact ⟨seen, b, mem_append_left _ mem, same⟩
  case all =>
    intro b mem
    rw [get_put]
    split
    · exact ⟨digest, rfl⟩
    case isFalse other =>
      rcases mem_append.1 mem with old | new
      · exact before.all b old
      · exact absurd (by rw [mem_singleton.1 new]) other

/-- Different references have different keys. -/
theorem Generation.Sound.keys_apart (sound : g.Sound lib) {a b : String × Entry} (memA : a ∈ g.refs.toList)
    (memB : b ∈ g.refs.toList) (apart : a.1 ≠ b.1) : historyKey a.1 a.2.revision ≠ historyKey b.1 b.2.revision := by
  obtain ⟨r, -, name⟩ := (sound.ledger.entries (get_eq_some.2 memA)).canonical
  obtain ⟨r', -, name'⟩ := (sound.ledger.entries (get_eq_some.2 memB)).canonical
  rw [← name, ← name'] at apart ⊢
  intro same
  exact apart (congrArg EndpointRef.toString (historyKey_inj same).1)

theorem kept_all (sound : g.Sound lib)
    (h : g.refs.each (keepRevision g) (.empty, 0) = .ok kept) : Kept g g.refs.toList kept := by
  rw [each_eq] at h
  suffices fold : ∀ (rest done : List (String × Entry)) (before after : Dictionary String String × Nat),
      done ++ rest = g.refs.toList → Kept g done before →
      rest.foldlM (fun kept a => keepRevision g kept a.1 a.2) before = .ok after → Kept g g.refs.toList after by
    refine fold g.refs.toList [] (.empty, 0) kept rfl ⟨rfl, rfl, fun found => (nomatch found), fun _ mem => ?_⟩ h
    exact nomatch mem
  intro rest
  induction rest with
  | nil =>
    intro done before after whole kept h
    cases h
    rw [← whole, append_nil]
    exact kept
  | cons a rest ih =>
    intro done before after whole kept h
    obtain ⟨middle, visited, h⟩ := of_bind h
    have sorted := g.refs.toList_sorted
    rw [← whole] at sorted
    refine ih (done ++ [a]) middle after (by rw [← whole]; simp) (kept.next (fun b mem => ?_) visited) h
    refine sound.keys_apart ?_ ?_ ((pairwise_append.1 sorted).2.2 b mem a mem_cons_self).ne
    · rw [← whole]
      exact mem_append_left _ mem
    · rw [← whole]
      exact mem_append_right _ mem_cons_self

theorem compactHistory_ok (h : compactHistory c base = .ok g) : ∃ order kept, c.replayOrder = some order ∧
    base.sourceSequence ≠ 0 ∧ base.refs.each (keepRevision base) (.empty, 0) = .ok kept ∧
    g = { base with seen := kept.1, versions := kept.2, replayFloor := base.sourceSequence } := by
  obtain ⟨allowed, h⟩ := of_refuse h
  obtain ⟨kept, visited, h⟩ := of_bind h
  simp only [Bool.or_eq_false_iff, beq_eq_false_iff_ne, Option.isNone_eq_false_iff] at allowed
  obtain ⟨order, ordered⟩ := Option.isSome_iff_exists.1 allowed.1
  exact ⟨order, kept, ordered, allowed.2, visited, (Except.ok.inj h).symm⟩

theorem compactHistory_sound (sound : base.Sound c.lib) (h : compactHistory c base = .ok g) : g.Sound c.lib := by
  obtain ⟨-, kept, -, -, visited, rfl⟩ := compactHistory_ok h
  have kept_is := kept_all sound visited
  refine ⟨sound.core.same, ?_⟩
  have entry_of : ∀ {ref e}, base.refs.get ref = some e → ∀ {digest},
      base.seen.get (historyKey ref e.revision) = some digest → kept.1.get (historyKey ref e.revision) = some digest := by
    intro ref e found digest known
    obtain ⟨prior, current⟩ := kept_is.all _ (get_eq_some.1 found)
    rw [current, ← known, (kept_is.current current).1]
  constructor
  case rows => exact sound.ledger.rows
  case versions => exact kept_is.count
  case bounded =>
    have rows := sound.ledger.rows
    have room := sound.core.room.trans sound.core.small
    have visited := kept_is.visited
    simp only [maxDocuments] at room
    simp only [maxRevisions]
    omega
  case entries =>
    intro ref e found
    obtain ⟨canonical, ⟨digest, known⟩, revision, value⟩ := sound.ledger.entries found
    refine ⟨canonical, ⟨digest, entry_of found known⟩, revision, fun is => ?_⟩
    obtain ⟨same, digest, compacted, known⟩ := value is
    exact ⟨same, digest, compacted, entry_of found known⟩
  case keys => exact fun found => sound.ledger.keys (kept_is.current found).1

/-! ## Every generation -/

theorem moves_sound [DecidableEq S] {op : Op S} {out : Option Batch} (sound : base.Sound c.lib)
    (moves : Moves c base g op out) : g.Sound c.lib := by
  cases moves with
  | stays same =>
    rw [same]
    exact sound
  | publishes batch record prepared => exact prepare_sound sound prepared
  | compacts i compacted => exact compactHistory_sound sound compacted
  | restores header load restored =>
    obtain ⟨refRows, revRows, st, restores, rfl⟩ := restores_of_ok restored
    exact restores.sound

/-- Every generation of every run is sound. -/
theorem reached_sound [DecidableEq S] {s : System S} {trace : Trace S} (run : Run (step c) System.new trace s) :
    s.generation.Sound c.lib :=
  reached_keeps (sound_initial c.lib) (fun _ _ _ _ sound moves => moves_sound sound moves) run

end Pagnet.Search
