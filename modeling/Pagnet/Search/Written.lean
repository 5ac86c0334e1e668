import Pagnet.Search.Restored
import Pagnet.Search.Twin

/-!
# Written checkpoints

What `makeCheckpoint` and `Page` write of a sound generation is what
`RestoreCheckpoint` reads: the header is within its bounds, the rows are those
of a generation, and the pages of any sizes are a chain of all rows.
-/

namespace Pagnet.Search
open Json Fabric List Dictionary

variable {S : Type} {c : Config S} {lib : Library} {g g' : Generation}

/-! ## Labels -/

/-- The labels that publications and restored headers give a generation. -/
structure Generation.Labelled (c : Config S) (g : Generation) : Prop where
  floor : g.replayFloor ≤ g.sourceSequence
  unordered : c.replayOrder = none → g.sourceSequence = 0 ∧ g.replayFloor = 0
  ordered : ∀ {order}, c.replayOrder = some order → 0 < g.number → order.sequence g.cursor = .ok g.sourceSequence
  start : g.number = 0 → g.nextID = 0 ∧ g.versions = 0 ∧ g.sourceSequence = 0 ∧ g.replayFloor = 0 ∧ g.cursor = "" ∧
    g.commitHash = ""
  digest : 0 < g.number → validDigest g.commitHash
  cursor : g.cursor.utf8ByteSize ≤ 4096

theorem labelled_initial : Generation.initial.Labelled c :=
  ⟨Nat.le_refl _, fun _ => ⟨rfl, rfl⟩, fun _ positive => absurd positive (Nat.lt_irrefl 0),
    fun _ => ⟨rfl, rfl, rfl, rfl, rfl, rfl⟩, fun positive => absurd positive (Nat.lt_irrefl 0), Nat.zero_le _⟩

variable {hash after part : String} {record : CommitRecord S} {sequence limit : Nat} {batch : Batch}
    {p : CheckpointPage}

theorem hashRecord_valid (h : hashRecord c record = .ok hash) : validDigest hash := by
  have h := past_refuse h
  have h := past_refuse h
  cases h
  exact validDigest_digest ..

theorem batchSequence_ok {cursor : String} (h : batchSequence c g cursor = .ok sequence) :
    (c.replayOrder = none ∧ sequence = g.sourceSequence) ∨ ∃ order, c.replayOrder = some order ∧
      order.sequence cursor = .ok sequence ∧ g.sourceSequence < sequence ∧ g.replayFloor < sequence := by
  unfold batchSequence at h
  split at h
  case h_1 none_there => exact .inl ⟨none_there, (Except.ok.inj h).symm⟩
  case h_2 order ordered =>
    split at h
    case h_1 => cases h
    case h_2 position placed =>
      obtain ⟨later, h⟩ := of_refuse h
      cases h
      simp only [Bool.or_eq_false_iff, decide_eq_false_iff_not, not_le] at later
      exact .inr ⟨order, ordered, placed, later.1, later.2⟩

/-- Upserts and deletions leave the floor alone and the position where it was put. -/
theorem Prepares.position {upserted deleted : Generation} (p : Prepares c g batch sequence upserted deleted hash) :
    deleted.sourceSequence = sequence ∧ deleted.replayFloor = g.replayFloor := by
  have upserts : ∀ g₁ d g₂, g₁.sourceSequence = sequence ∧ g₁.replayFloor = g.replayFloor → upsert c g₁ d = .ok g₂ →
      g₂.sourceSequence = sequence ∧ g₂.replayFloor = g.replayFloor := by
    intro g₁ d g₂ before h
    obtain ⟨value, digest, -, ⟨-, rfl⟩ | ⟨-, -, g₃, e, allocated, rfl⟩⟩ := upsert_ok h
    · exact before
    · have kept : g₃.sourceSequence = g₁.sourceSequence ∧ g₃.replayFloor = g₁.replayFloor := by
        unfold allocate at allocated
        split at allocated
        · obtain ⟨rfl, -⟩ := Prod.mk.inj (Except.ok.inj allocated)
          exact ⟨rfl, rfl⟩
        · have allocated := past_refuse allocated
          obtain ⟨rfl, -⟩ := Prod.mk.inj (Except.ok.inj allocated)
          exact ⟨rfl, rfl⟩
      exact ⟨kept.1.trans before.1, kept.2.trans before.2⟩
  have deletes : ∀ g₁ d g₂, g₁.sourceSequence = sequence ∧ g₁.replayFloor = g.replayFloor → delete g₁ d = .ok g₂ →
      g₂.sourceSequence = sequence ∧ g₂.replayFloor = g.replayFloor := by
    intro g₁ d g₂ before h
    obtain ⟨e, -, -, ⟨-, rfl⟩ | ⟨-, rfl⟩⟩ := delete_ok h
    · exact before
    · exact before
  have first := foldlM_keeps upserts (by exact ⟨rfl, rfl⟩) p.upserts
  exact foldlM_keeps deletes first p.deletes

theorem prepare_labelled (labelled : g.Labelled c) (h : prepare c g batch = .ok (g', record)) : g'.Labelled c := by
  obtain ⟨sequence, upserted, deleted, hash, p, rfl, -⟩ := prepare_ok.1 h
  obtain ⟨source, floor⟩ := p.position
  constructor
  case floor =>
    change deleted.replayFloor ≤ deleted.sourceSequence
    rw [source, floor]
    rcases batchSequence_ok p.ordered with ⟨-, rfl⟩ | ⟨-, -, -, -, later⟩
    · exact labelled.floor
    · exact later.le
  case unordered =>
    intro none_there
    change deleted.sourceSequence = 0 ∧ deleted.replayFloor = 0
    rw [source, floor]
    rcases batchSequence_ok p.ordered with ⟨-, rfl⟩ | ⟨order, some_there, -⟩
    · exact labelled.unordered none_there
    · rw [none_there] at some_there
      cases some_there
  case ordered =>
    intro order some_there _
    change order.sequence batch.upstreamCursor = .ok deleted.sourceSequence
    rw [source]
    rcases batchSequence_ok p.ordered with ⟨none_there, -⟩ | ⟨other, also, placed, -⟩
    · rw [none_there] at some_there
      cases some_there
    · rw [some_there] at also
      cases also
      exact placed
  case start => exact fun zero => absurd zero (Nat.succ_ne_zero _)
  case digest => exact fun _ => hashRecord_valid p.hashed
  case cursor => exact p.bounds.2

theorem moves_labelled [DecidableEq S] {op : Op S} {out : Option Batch} (labelled : g.Labelled c)
    (moves : Moves c g g' op out) : g'.Labelled c := by
  cases moves with
  | stays same =>
    rw [same]
    exact labelled
  | publishes batch record prepared => exact prepare_labelled labelled prepared
  | compacts i compacted =>
    obtain ⟨order, kept, ordered, positive, -, rfl⟩ := compactHistory_ok compacted
    refine ⟨Nat.le_refl _, fun none_there => ?_, labelled.ordered, fun zero => ?_, labelled.digest, labelled.cursor⟩
    · rw [ordered] at none_there
      cases none_there
    · exact absurd (labelled.start zero).2.2.1 positive
  | restores header load restored =>
    obtain ⟨refRows, revRows, st, restores, rfl⟩ := restores_of_ok restored
    obtain ⟨number, nextID, level, versions, source, floor, cursor, hash⟩ := restores.built.labels
    have checked := restores.checked
    refine ⟨?_, ?_, ?_, ?_, ?_, ?_⟩
    · rw [floor, source]
      exact checked.floor
    · rw [floor, source]
      exact checked.unordered
    · rw [number, cursor, source]
      exact checked.ordered
    · rw [number, nextID, versions, source, floor, cursor, hash]
      intro zero
      obtain ⟨no_id, no_revision, no_sequence, no_floor, no_cursor, -, -⟩ := checked.start zero
      exact ⟨no_id, no_revision, no_sequence, no_floor, no_cursor, checked.bounds.root.1 zero⟩
    · rw [number, hash]
      exact checked.bounds.root.2
    · rw [cursor]
      exact checked.bounds.cursor

theorem reached_labelled [DecidableEq S] {s : System S} {trace : Trace S} (run : Run (step c) System.new trace s) :
    s.generation.Labelled c :=
  reached_keeps labelled_initial (fun _ _ _ _ labelled moves => moves_labelled labelled moves) run

/-! ## Rows -/

/-- The row of a reference. -/
def rowOf (a : String × Entry) : CheckpointReference :=
  ⟨(parseEndpointRef a.1).getD .zero, a.2.id, a.2.revision, a.2.value.map (·.doc)⟩

def Generation.referenceRows (g : Generation) : List CheckpointReference := g.refs.toList.map rowOf

/-- The row of a revision. -/
def revisionOf (a : String × String) : CheckpointRevision := ⟨a.1, a.2⟩

def Generation.revisionRows (g : Generation) : List CheckpointRevision := g.seen.toList.map revisionOf

/-- A row of a sound generation stands for its entry. -/
structure Faithful (lib : Library) (nextID : Nat) (a : String × Entry) : Prop where
  row : referenceRow a.1 a.2 = .ok (rowOf a)
  key : (rowOf a).key = a.1
  entry : (rowOf a).entry lib = a.2
  readable : (rowOf a).Readable lib nextID

theorem Generation.Sound.faithful (sound : g.Sound lib) {a : String × Entry} (mem : a ∈ g.refs.toList) :
    Faithful lib g.nextID a := by
  obtain ⟨ref, e⟩ := a
  have found := get_eq_some.2 mem
  have recorded := sound.ledger.entries found
  obtain ⟨r, nonzero, rfl⟩ := recorded.canonical
  have parsed := parse_toString nonzero
  have row_is : rowOf (r.toString, e) = ⟨r, e.id, e.revision, e.value.map (·.doc)⟩ := by
    simp only [rowOf, parsed, Option.getD_some]
  have value : (e.value.map (·.doc)).map (indexDocument lib) = e.value := by
    cases is : e.value with
    | none => rfl
    | some d => exact congrArg some ((sound.core.values found is).2.eq_indexDocument).symm
  refine ⟨?_, by rw [row_is]; rfl, ?_, ?_⟩
  · rw [referenceRow, parsed, row_is]
  · rw [row_is]
    simp only [CheckpointReference.entry, value]
  · rw [row_is]
    refine ⟨nonzero, sound.core.ids found, recorded.revision, fun {doc} document => ?_⟩
    obtain ⟨d, is, rfl⟩ := Option.map_eq_some_iff.1 document
    have values := sound.core.values found is
    refine ⟨EndpointRef.toString_injective values.1, (recorded.value is).1, ?_⟩
    rw [← values.2.eq_indexDocument]
    exact values.2

theorem Generation.Sound.referenceRows (sound : g.Sound lib) : ReferenceRows lib g.nextID g.referenceRows where
  readable r mem := by
    obtain ⟨a, listed, rfl⟩ := mem_map.1 mem
    exact (sound.faithful listed).readable
  ascending := by
    rw [Generation.referenceRows, pairwise_map]
    refine g.refs.toList_sorted.imp_of_mem fun {a b} memA memB lt => ?_
    rw [(sound.faithful memA).key, (sound.faithful memB).key]
    exact lt
  ids := by
    rw [Generation.referenceRows, pairwise_map]
    refine g.refs.toList_sorted.imp_of_mem fun {a b} memA memB lt same => ?_
    exact lt.ne (sound.core.unique (get_eq_some.2 memA) (get_eq_some.2 memB) same)

theorem Generation.Sound.revisionRows (sound : g.Sound lib) : RevisionRows g.referenceRows g.revisionRows where
  identity r mem := by
    obtain ⟨⟨key, digest⟩, listed, rfl⟩ := mem_map.1 mem
    have row := sound.ledger.keys (get_eq_some.2 listed)
    obtain ⟨ref, revision, rfl, -, known, nonempty, short⟩ := row.identity
    obtain ⟨e, found⟩ := Option.isSome_iff_exists.1 known
    have mem := get_eq_some.1 found
    refine ⟨rowOf (ref.toString, e), mem_map_of_mem mem, revision, ?_, nonempty, short⟩
    rw [(sound.faithful mem).key]
    rfl
  digest r mem := by
    obtain ⟨⟨key, digest⟩, listed, rfl⟩ := mem_map.1 mem
    exact (sound.ledger.keys (get_eq_some.2 listed)).digest
  ascending := by
    rw [Generation.revisionRows, pairwise_map]
    exact g.seen.toList_sorted

/-- The entries of the rows. -/
theorem Generation.Sound.entries_of_rows (sound : g.Sound lib) :
    g.referenceRows.map (fun r => (r.key, r.entry lib)) = g.refs.toList := by
  rw [Generation.referenceRows, map_map]
  conv_rhs => rw [← map_id g.refs.toList]
  refine map_congr_left fun a mem => ?_
  have faithful := sound.faithful mem
  rw [Function.comp, faithful.key, faithful.entry]
  rfl

/-! ## The commitment -/

/-- The bytes that the digest of a header commits to. -/
def commitment (c : Config S) (header : CheckpointHeader S) (refRows : List CheckpointReference)
    (revRows : List CheckpointRevision) : List UInt8 :=
  hashHeader c header ++ refRows.flatMap (fun r => frame r.toJson) ++ revRows.flatMap fun r => frame r.toJson

theorem hashGeneration_eq (sound : g.Sound c.lib) : hashGeneration c g =
    .ok (commitment c (checkpointHeader c g) g.referenceRows g.revisionRows) := by
  have references : ∀ (rows : List (String × Entry)) (hashed : List UInt8), (∀ a ∈ rows, a ∈ g.refs.toList) →
      rows.foldlM (fun hashed a => do frameReference hashed (← referenceRow a.1 a.2)) hashed =
        .ok (hashed ++ (rows.map rowOf).flatMap fun r => frame r.toJson) := by
    intro rows
    induction rows with
    | nil => intro hashed _; simp [pure, Except.pure]
    | cons a rows ih =>
      intro hashed listed
      have faithful := sound.faithful (listed a mem_cons_self)
      have framed : frameReference hashed (rowOf a) = .ok (hashed ++ frame (rowOf a).toJson) := by
        rw [frameReference, faithful.readable.encodable]
        rfl
      rw [foldlM_cons, faithful.row, ok_bind, framed, ok_bind, ih _ fun b mem => listed b (mem_cons_of_mem _ mem)]
      simp
  have revisions : ∀ (rows : List (String × String)) (hashed : List UInt8),
      rows.foldlM (fun hashed a => Except.ok (frameRevision hashed ⟨a.1, a.2⟩)) hashed =
        (.ok (hashed ++ (rows.map revisionOf).flatMap fun r => frame r.toJson) :
          Except Error (List UInt8)) := by
    intro rows
    induction rows with
    | nil => intro hashed; simp [pure, Except.pure]
    | cons a rows ih =>
      intro hashed
      rw [foldlM_cons, ok_bind, ih]
      simp [frameRevision, revisionOf]
  unfold hashGeneration
  rw [each_eq, references _ _ fun _ mem => mem, ok_bind, each_eq, revisions]
  rfl

/-- A hexadecimal digest is a valid one. -/
theorem validDigest_hexEncode (bytes : Fin 32 → UInt8) : validDigest (hexEncode bytes) :=
  validDigest_digest ⟨"", fun _ => false, fun _ => false, id, fun _ => bytes⟩ []

/-- The header of a checkpoint. -/
def sealedHeader (c : Config S) (g : Generation) : CheckpointHeader S :=
  { checkpointHeader c g with
    sha256 := hexEncode (c.lib.sha256 (commitment c (checkpointHeader c g) g.referenceRows g.revisionRows)) }

/-- A checkpoint of a sound generation has its header. -/
theorem makeCheckpoint_header {b b' : Backend} {compacted : Bool} {ck : Checkpoint S} (sound : b.current.generation.Sound c.lib)
    (h : makeCheckpoint c b compacted = .ok (b', ck)) :
    ck.header = sealedHeader c ck.generation.generation ∧ ck.generation.generation.Sound c.lib := by
  have pinned : ck.generation.generation.Sound c.lib := by
    obtain ⟨-, ⟨-, same⟩ | ⟨g, compacted, -, same⟩⟩ := makeCheckpoint_ok h
    · rw [same]
      exact sound
    · rw [same]
      exact compactHistory_sound sound compacted
  refine ⟨?_, pinned⟩
  obtain ⟨⟨b₁, p⟩, -, h⟩ := of_bind h
  obtain ⟨hashed, hashed_is, h⟩ := of_bind h
  obtain ⟨-, rfl⟩ := Prod.mk.inj (Except.ok.inj h)
  change p.generation.Sound c.lib at pinned
  rw [hashGeneration_eq pinned] at hashed_is
  cases hashed_is
  rfl

theorem Generation.Core.totalLength_le (core : g.Core lib) : g.stats.totalLength ≤ g.stats.count * maxDocumentBytes := by
  rw [core.stats.totalLength, core.stats.count]
  refine sum_le_of_bounded fun d mem => ?_
  have bounded := (core.compacted mem).bounded
  exact bounded.2.trans bounded.1

theorem Generation.Sound.count_le (sound : g.Sound lib) : g.stats.count ≤ g.nextID := by
  rw [sound.core.stats.count, ← sound.ledger.rows]
  exact length_filterMap_le ..

/-- A fresh backend may take the header. -/
theorem sealedHeader_for (sound : g.Sound c.lib) (labelled : g.Labelled c) :
    HeaderFor c Generation.initial (sealedHeader c g) where
  order := rfl
  floor := labelled.floor
  unordered := labelled.unordered
  ordered := labelled.ordered
  start zero := by
    obtain ⟨ids, versions, sequence, floor, cursor, -⟩ := labelled.start zero
    have empty : g.stats.count = 0 := by
      have := sound.count_le
      omega
    have short : g.stats.totalLength = 0 := by
      have := sound.core.totalLength_le
      rw [empty] at this
      omega
    exact ⟨ids, versions, sequence, floor, cursor, empty, short⟩
  newer := Nat.zero_le _
  same zero := (labelled.start zero).2.2.2.2.2
  bounds :=
    { format := rfl
      tokenizer := rfl
      scorer := rfl
      parameters := rfl
      nextID := sound.core.room.trans sound.core.small
      span := by
        refine ⟨?_, sound.core.small, ?_⟩
        · exact Nat.le_mul_of_pos_right _ (Nat.two_pow_pos _)
        · change spanOf g.level &&& (spanOf g.level - 1) = 0
          have power : spanOf g.level = 2 ^ (5 + g.level) := by
            rw [pow_add]
            rfl
          rw [power]
          exact (Nat.and_sub_one_eq_zero_iff_isPowerOfTwo (Nat.two_pow_pos _).ne').2 ⟨_, rfl⟩
      room := sound.core.room
      referenceRows := rfl
      revisionRows := sound.ledger.bounded
      live := sound.count_le
      length := sound.core.totalLength_le
      digest := validDigest_hexEncode _
      root := ⟨fun zero => (labelled.start zero).2.2.2.2.2, labelled.digest⟩
      cursor := labelled.cursor }

/-! ## Pages of any sizes -/

section
variable {ν Row : Type} {header : CheckpointHeader S} {load : CheckpointLoader} {part : String}

/-- A page of the entries behind a key, as `cutRows` cuts it. -/
structure CutPage (rd : Reader c header part Row) (load : CheckpointLoader) (rows : List Row) (after : String)
    (p : CheckpointPage) (limit : Nat) : Prop where
  loaded : Loaded c header load part after p
  plain : rd.plain p
  positive : 0 < limit
  shows : rd.rowsOf p = (rows.filter fun r => decide (after < rd.key r)).take limit
  next : p.next = if limit < (rows.filter fun r => decide (after < rd.key r)).length then lastKey rd.key (rd.rowsOf p) else ""

variable {rows : List Row}

/-- The rows behind a key are those behind the last row of the page from this key on. -/
theorem behind_last (rd : Reader c header part Row) (ascending : rows.Pairwise fun a b => rd.key a < rd.key b)
    (after : String) {limit : Nat} (positive : 0 < limit)
    (more : limit < (rows.filter fun r => decide (after < rd.key r)).length) : rows.filter (fun r => decide
      (lastKey rd.key ((rows.filter fun r => decide (after < rd.key r)).take limit) < rd.key r)) =
      (rows.filter fun r => decide (after < rd.key r)).drop limit := by
  generalize behind_is : rows.filter (fun r => decide (after < rd.key r)) = behind at more ⊢
  have sorted : behind.Pairwise fun a b => rd.key a < rd.key b := behind_is ▸ ascending.filter _
  have some_rows : behind.take limit ≠ [] := by
    rw [← length_pos_iff, length_take]
    omega
  obtain ⟨init, last, cut⟩ := (eq_nil_or_concat (behind.take limit)).resolve_left some_rows
  rw [concat_eq_append] at cut
  have key_is : lastKey rd.key (behind.take limit) = rd.key last := by
    rw [cut, lastKey_append _ _ (by simp), lastKey_singleton]
  have shown : last ∈ behind.take limit := by
    rw [cut]
    simp
  have listed : last ∈ behind := mem_of_mem_take shown
  have later : after < rd.key last := by
    rw [← behind_is] at listed
    exact of_decide_eq_true (List.mem_filter.1 listed).2
  -- a row behind the last one is behind the key, so only those have to be cut
  have twice : rows.filter (fun r => decide (rd.key last < rd.key r)) =
      behind.filter fun r => decide (rd.key last < rd.key r) := by
    rw [← behind_is, filter_filter]
    refine filter_congr fun r _ => ?_
    by_cases beyond : rd.key last < rd.key r
    · simp [beyond, later.trans beyond]
    · simp [beyond]
  rw [key_is, twice, ← take_append_drop limit behind, filter_append, drop_append_of_le_length (by simp; omega)]
  rw [← take_append_drop limit behind, cut] at sorted
  obtain ⟨front, -, across⟩ := pairwise_append.1 sorted
  have front_out : (behind.take limit).filter (fun r => decide (rd.key last < rd.key r)) = [] := by
    rw [filter_eq_nil_iff, cut]
    intro r mem
    rcases mem_append.1 mem with before | same
    · have lt := (pairwise_append.1 front).2.2 r before last (by simp)
      exact fun beyond => absurd (of_decide_eq_true beyond) (not_lt.2 lt.le)
    · rw [mem_singleton.1 same]
      exact fun beyond => lt_irrefl _ (of_decide_eq_true beyond)
  have rest_in : (behind.drop limit).filter (fun r => decide (rd.key last < rd.key r)) = behind.drop limit :=
    filter_eq_self.2 fun r mem => decide_eq_true (across last (by simp) r mem)
  rw [front_out, rest_in]
  simp

/-- Pages of any sizes are a chain of all rows. -/
theorem chain_of_pages (rd : Reader c header part Row) (accepts : rd.accepts rows)
    (served : ∀ after, after = "" ∨ after ∈ rows.map rd.key → ∃ p limit, CutPage rd load rows after p limit) :
    Chain rd load "" rows := by
  -- the pages from a key on show the rows behind it
  have from_key : ∀ after, after = "" ∨ after ∈ rows.map rd.key →
      Chain rd load after (rows.filter fun r => decide (after < rd.key r)) := by
    intro after known
    induction many : (rows.filter fun r => decide (after < rd.key r)).length using Nat.strong_induction_on
      generalizing after with
    | _ n ih =>
      obtain ⟨p, limit, cut⟩ := served after known
      have positive := cut.positive
      have next := cut.next
      split at next
      case isTrue more =>
        have behind := behind_last rd (rd.ascending accepts) after positive more
        rw [← cut.shows, ← next] at behind
        have nonempty : rd.rowsOf p ≠ [] := by
          rw [cut.shows, ← length_pos_iff, length_take]
          omega
        have listed : p.next ∈ rows.map rd.key := by
          obtain ⟨init, last, ends⟩ := (eq_nil_or_concat (rd.rowsOf p)).resolve_left nonempty
          rw [concat_eq_append] at ends
          rw [next, ends, lastKey_append _ _ (by simp), lastKey_singleton]
          have inside : last ∈ rd.rowsOf p := by
            rw [ends]
            simp
          rw [cut.shows] at inside
          exact mem_map_of_mem (mem_of_mem_filter (mem_of_mem_take inside))
        have tail := ih _ (by rw [behind, length_drop]; omega) p.next (.inr listed) rfl
        rw [behind] at tail
        have whole := Chain.more cut.loaded cut.plain nonempty next tail
        rwa [cut.shows, take_append_drop] at whole
      case isFalse last =>
        have whole := Chain.final cut.loaded cut.plain next
        rwa [cut.shows, take_of_length_le (not_lt.1 last)] at whole
  have all : rows.filter (fun r => decide ("" < rd.key r)) = rows := by
    refine filter_eq_self.2 fun r mem => decide_eq_true ?_
    exact lt_of_le_of_ne (not_lt.1 (not_lt_empty _)) (rd.named accepts r mem).symm
  exact all ▸ from_key "" (.inl rfl)

end

/-- What is cut of the rows behind a key: a page of them, and the key of its last row if there are more. -/
theorem cutRows_eq {ν : Type} (rows : List (String × ν)) (positive : 0 < limit) :
    cutRows (rows.take (limit + 1)) limit =
      (rows.take limit, if limit < rows.length then lastKey Prod.fst (rows.take limit) else "") := by
  unfold cutRows
  rw [length_take]
  by_cases more : limit < rows.length
  · have last : (rows.take limit).getLast? = (rows.take (limit + 1))[limit - 1]? := by
      rw [getLast?_eq_getElem?, length_take, Nat.min_eq_left more.le, getElem?_take, getElem?_take,
        if_pos (by omega), if_pos (by omega)]
    rw [if_pos (by omega), if_pos more, lastKey, last, take_take, Nat.min_eq_left (Nat.le_succ limit)]
  · rw [if_neg (by omega), if_neg more, take_of_length_le (by omega), take_of_length_le (by omega)]

/-- Rows that are made of the entries have their keys. -/
theorem filter_map_key {ν Row : Type} {entries : List (String × ν)} {make : String × ν → Row} {key : Row → String}
    (keyed : ∀ a ∈ entries, key (make a) = a.1) (after : String) :
    (entries.map make).filter (fun r => decide (after < key r)) =
      (entries.filter fun a => decide (after < a.1)).map make := by
  rw [filter_map]
  congr 1
  refine filter_congr fun a mem => ?_
  rw [Function.comp, keyed a mem]

theorem lastKey_map {ν Row : Type} {entries : List (String × ν)} {make : String × ν → Row} {key : Row → String}
    (keyed : ∀ a ∈ entries, key (make a) = a.1) : lastKey key (entries.map make) = lastKey Prod.fst entries := by
  unfold lastKey
  rw [getLast?_map]
  cases found : entries.getLast? with
  | none => rfl
  | some a => exact keyed a (mem_of_getLast? found)

/-- The storage answers with the pages of a checkpoint, each of some size for which `Page` succeeds. -/
def Serves (c : Config S) (ck : Checkpoint S) (load : CheckpointLoader) : Prop :=
  ∀ part after, (part = checkpointReferences ∧ (after = "" ∨ after ∈ ck.generation.generation.refs.toList.map Prod.fst) ∨
      part = checkpointRevisions ∧ (after = "" ∨ after ∈ ck.generation.generation.seen.toList.map Prod.fst)) →
    ∃ limit p, page c ck part after limit = .ok p ∧ load part after maxBatchDocuments = .ok p

theorem page_ok {ck : Checkpoint S} (h : page c ck part after limit = .ok p) : 0 < limit ∧ limit ≤ maxBatchDocuments ∧
      ∃ references revisions next, pageRows ck part after limit = .ok (references, revisions, next) ∧
        p.references = references ∧ p.revisions = revisions ∧ p.next = next ∧ p.section = part ∧ p.after = after ∧
        p.generation = ck.header.generation ∧ checksumPage c p = .ok p.sha256 := by
  obtain ⟨bounds, h⟩ := of_refuse h
  obtain ⟨⟨references, revisions, next⟩, rows, h⟩ := of_bind h
  obtain ⟨sum, checksum, h⟩ := of_bind h
  cases h
  simp only [Bool.or_eq_false_iff, decide_eq_false_iff_not, not_lt] at bounds
  exact ⟨bounds.1.1, bounds.1.2, references, revisions, next, rows, rfl, rfl, rfl, rfl, rfl, rfl, checksum⟩

variable {load : CheckpointLoader} {ck : Checkpoint S}

theorem loaded_of_page (h : page c ck part after limit = .ok p)
    (answer : load part after maxBatchDocuments = .ok p) : Loaded c ck.header load part after p := by
  obtain ⟨-, -, references, revisions, next, -, -, -, -, part_is, after_is, generation, checksum⟩ := page_ok h
  refine ⟨?_, checksum, part_is, generation, after_is⟩
  rw [loadPage, answer]

section
variable {ν Row : Type} {entries : List (String × ν)} {make : String × ν → Row}

/-- Pages that are cut of entries are a chain of the rows made of them. -/
theorem chain_of_entries (rd : Reader c ck.header part Row) (keyed : ∀ a ∈ entries, rd.key (make a) = a.1)
    (accepts : rd.accepts (entries.map make))
    (served : ∀ after, after = "" ∨ after ∈ entries.map Prod.fst → ∃ limit p, page c ck part after limit = .ok p ∧
      load part after maxBatchDocuments = .ok p ∧ (0 < limit → limit ≤ maxBatchDocuments →
        rd.rowsOf p = ((entries.filter fun a => decide (after < a.1)).take limit).map make ∧
        p.next = (cutRows ((entries.filter fun a => decide (after < a.1)).take (limit + 1)) limit).2 ∧
        rd.plain p)) : Chain rd load "" (entries.map make) := by
  have keys : (entries.map make).map rd.key = entries.map Prod.fst := by
    rw [map_map]
    exact map_congr_left keyed
  refine chain_of_pages rd accepts fun after known => ?_
  rw [keys] at known
  obtain ⟨limit, p, made, answer, shown⟩ := served after known
  obtain ⟨positive, small, -⟩ := page_ok made
  obtain ⟨shows, next, plain⟩ := shown positive small
  rw [cutRows_eq _ positive] at next
  have inside : ∀ a ∈ (entries.filter fun a => decide (after < a.1)).take limit, a ∈ entries :=
    fun a mem => mem_of_mem_filter (mem_of_mem_take mem)
  refine ⟨p, limit, loaded_of_page made answer, plain, positive, ?_, ?_⟩
  · rw [filter_map_key keyed, ← map_take, shows]
  · rw [filter_map_key keyed, length_map, shows, lastKey_map fun a mem => keyed a (inside a mem), next]

end

/-- The pages of the references. -/
theorem references_chain (sound : ck.generation.generation.Sound c.lib) (ids : ck.header.nextID = ck.generation.generation.nextID)
    (serves : Serves c ck load) : Chain (referenceReader c ck.header) load "" ck.generation.generation.referenceRows := by
  have accepts : ReferenceRows c.lib ck.header.nextID ck.generation.generation.referenceRows := ids ▸ sound.referenceRows
  refine chain_of_entries (referenceReader c ck.header) (fun a mem => (sound.faithful mem).key) accepts fun after known => ?_
  obtain ⟨limit, p, made, answer⟩ := serves checkpointReferences after (.inl ⟨rfl, known⟩)
  refine ⟨limit, p, made, answer, fun positive small => ?_⟩
  obtain ⟨-, -, references, revisions, next, rows, refs_is, revs_is, next_is, -⟩ := page_ok made
  obtain ⟨made_rows, mapped, rows⟩ := of_bind rows
  cases rows
  rw [seekRows_eq] at next_is mapped
  rw [cutRows_eq _ positive, mapM_eq_ok fun a mem => (sound.faithful (mem_of_mem_filter (mem_of_mem_take mem))).row] at mapped
  cases mapped
  refine ⟨refs_is, next_is, revs_is, ?_⟩
  rw [refs_is, length_map, length_take]
  exact (Nat.min_le_left ..).trans small

/-- The pages of the revisions. -/
theorem revisions_chain (sound : ck.generation.generation.Sound c.lib)
    (complete : ck.generation.generation.referenceRows.length ≤ ck.header.referenceRows) (serves : Serves c ck load) :
    Chain (revisionReader c ck.header ck.generation.generation.referenceRows complete) load ""
      ck.generation.generation.revisionRows := by
  have accepts : RevisionRows ck.generation.generation.referenceRows ck.generation.generation.revisionRows :=
    sound.revisionRows
  refine chain_of_entries (revisionReader c ck.header _ complete) (fun _ _ => rfl) accepts fun after known => ?_
  obtain ⟨limit, p, made, answer⟩ := serves checkpointRevisions after (.inr ⟨rfl, known⟩)
  refine ⟨limit, p, made, answer, fun positive small => ?_⟩
  obtain ⟨-, -, references, revisions, next, rows, refs_is, revs_is, next_is, -⟩ := page_ok made
  rw [pageRows, if_neg (by decide), if_pos rfl] at rows
  obtain ⟨rfl, rfl, rfl⟩ : [] = references ∧ _ = revisions ∧ _ = next := by simpa using rows
  rw [seekRows_eq] at revs_is next_is
  rw [cutRows_eq _ positive] at revs_is
  refine ⟨revs_is, next_is, refs_is, ?_⟩
  rw [revs_is, length_map, length_take]
  exact (Nat.min_le_left ..).trans small

end Pagnet.Search
