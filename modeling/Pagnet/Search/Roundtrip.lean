import Pagnet.Search.Commitment
import Pagnet.Search.Reached
import Pagnet.Search.SameAnswers

/-!
# Checkpoint and tail

A checkpoint that is read back, in pages of any sizes, gives a twin of the
generation it was taken of, and the records published after it do to the twin
what their batches did to the generation. Rows that are not the committed ones
are refused unless they have the same digest.
-/

namespace Pagnet.Search
open Json Fabric List

variable {S : Type} {c : Config S} {lib : Library} {g g' : Generation} {ck : Checkpoint S} {load : CheckpointLoader}

/-! ## Reading a checkpoint back -/

/-- Any chains of all rows of a generation restore a twin of it. -/
theorem restore_of_chains [DecidableEq S] (sound : g.Sound c.lib) (labelled : g.Labelled c)
    (references : Chain (referenceReader c (sealedHeader c g)) load "" g.referenceRows)
    (complete : g.referenceRows.length = (sealedHeader c g).referenceRows)
    (revisions : Chain (revisionReader c (sealedHeader c g) g.referenceRows complete.le) load "" g.revisionRows) :
    ∃ g', restoreGeneration c .initial (sealedHeader c g) load = .ok g' ∧ g.Twin g' := by
  have checked := sealedHeader_for sound labelled
  have counted : g.revisionRows.length = (sealedHeader c g).revisionRows := by
    rw [Generation.revisionRows, length_map]
    exact sound.ledger.versions
  have twin : ∀ st, Rebuilding c (sealedHeader c g) g.referenceRows g.revisionRows st → g.Twin st.next := by
    intro st built
    obtain ⟨number, nextID, level, versions, source, floor, cursor, hash⟩ := built.labels
    have span : (emptyGeneration (sealedHeader c g)).level = g.level := by
      have same := checked.bounds.spanOf_level
      have spans : spanOf (emptyGeneration (sealedHeader c g)).level = spanOf g.level := same
      exact Nat.pow_right_injective (Nat.le_refl 2) (Nat.eq_of_mul_eq_mul_left (by decide) spans)
    refine ⟨⟨number, nextID, level.trans span, versions, source, floor, cursor, hash⟩, ?_, ?_⟩
    · rw [built.refs, sound.entries_of_rows]
    · rw [built.seen, Generation.revisionRows, map_map]
      exact map_id _
  have final : ∀ st, Rebuilding c (sealedHeader c g) g.referenceRows g.revisionRows st →
      st.next.stats.count = (sealedHeader c g).liveDocuments ∧
        st.next.stats.totalLength = (sealedHeader c g).totalLength ∧
        hexEncode (c.lib.sha256 st.hashed) = (sealedHeader c g).sha256 ∧
        ∀ a ∈ st.next.refs.toList, checkEntry c st.next a.1 a.2 = .ok () := by
    intro st built
    have same := (twin st built).same sound.core built.core
    refine ⟨same.count, same.totalLength, by rw [built.hashed]; rfl, fun a mem => ?_⟩
    rw [(twin st built).refs] at mem
    have recorded := sound.ledger.entries (Dictionary.get_eq_some.2 mem)
    rw [checkEntry_ok, same.ledger]
    obtain ⟨digest, known⟩ := recorded.digest
    refine ⟨digest, known, fun {d} value => ?_⟩
    obtain ⟨-, digest', compacted, known'⟩ := recorded.value value
    rw [known] at known'
    cases known'
    exact ⟨d, compacted⟩
  obtain ⟨st, built, restored⟩ :=
    ok_of_rows checked complete references sound.referenceRows revisions sound.revisionRows counted final
  exact ⟨st.next, restored, twin st built⟩

/-- The pages of a checkpoint, of any sizes, restore a twin of its generation. -/
theorem restore_checkpoint_twin [DecidableEq S] (sound : ck.generation.generation.Sound c.lib)
    (labelled : ck.generation.generation.Labelled c) (header : ck.header = sealedHeader c ck.generation.generation)
    (serves : Serves c ck load) :
    ∃ g', restoreGeneration c .initial ck.header load = .ok g' ∧ ck.generation.generation.Twin g' := by
  have complete : ck.generation.generation.referenceRows.length = ck.header.referenceRows := by
    rw [header, Generation.referenceRows, length_map]
    exact sound.ledger.rows
  have references := references_chain sound (by rw [header]; rfl) serves
  have revisions := revisions_chain sound complete.le serves
  obtain ⟨pointer, base, held⟩ := ck
  dsimp only at header
  subst header
  exact restore_of_chains sound labelled references complete revisions

variable {b : Backend} {p : CheckpointPage} {batch : Batch} {r : CommitRecord S} {op : Op S} {s s' : System S}

theorem makeCheckpoint_sound (sound : b.current.generation.Sound c.lib) : makeCheckpoint c b false =
    .ok (b, ⟨b.current, b.current.address, sealedHeader c b.current.generation⟩) := by
  rw [makeCheckpoint, pinGeneration, if_neg Bool.false_ne_true, ok_bind]
  dsimp only
  rw [hashGeneration_eq sound]
  rfl

/-- The pages of a checkpoint with at most one reference announce no page behind them. -/
theorem page_references_last {limit : Nat} (few : ck.generation.generation.refs.toList.length ≤ 1)
    (made : page c ck checkpointReferences "" limit = .ok p) : p.next = "" := by
  obtain ⟨positive, -, references, revisions, next, rows, -, -, next_is, -⟩ := page_ok made
  obtain ⟨read, -, rows⟩ := of_bind rows
  cases rows
  have one := (length_filter_le (fun a => decide ("" < a.1)) ck.generation.generation.refs.toList).trans few
  rw [next_is, Dictionary.seekRows_eq, cutRows_eq _ positive]
  exact if_neg (by omega)

/-! ## A page behind the last one -/

/-- A page with its checksum. -/
def withChecksum (c : Config S) (p : CheckpointPage) : CheckpointPage :=
  { p with sha256 := c.lib.digest p.toJson.render }

/-- All references in one page that announces another one. -/
def announcingPage (c : Config S) (g : Generation) : CheckpointPage :=
  withChecksum c ⟨(checkpointHeader c g).generation, checkpointReferences, "",
    lastKey CheckpointReference.key g.referenceRows, g.referenceRows, [], ""⟩

/-- The page behind them, without rows. -/
def emptyPage (c : Config S) (g : Generation) : CheckpointPage :=
  withChecksum c ⟨(checkpointHeader c g).generation, checkpointReferences,
    lastKey CheckpointReference.key g.referenceRows, "", [], [], ""⟩

/-- All revisions in one page. -/
def revisionsPage (c : Config S) (g : Generation) : CheckpointPage :=
  withChecksum c ⟨(checkpointHeader c g).generation, checkpointRevisions, "", "", [], g.revisionRows, ""⟩

/-- The storage with these three pages. -/
def trailingLoader (c : Config S) (g : Generation) : CheckpointLoader := fun part after _ =>
  if part = checkpointRevisions then .ok (revisionsPage c g)
  else if after = "" then .ok (announcingPage c g)
  else .ok (emptyPage c g)

/-- The checksums that the pages need, which are refused for pages that are too large. -/
structure Fits (c : Config S) (g : Generation) : Prop where
  references : g.referenceRows.length ≤ maxBatchDocuments
  revisions : g.revisionRows.length ≤ maxBatchDocuments
  announcing : (checksumPage c (announcingPage c g)).isOk
  empty : (checksumPage c (emptyPage c g)).isOk
  revised : (checksumPage c (revisionsPage c g)).isOk

theorem checksumPage_withChecksum (fits : (checksumPage c (withChecksum c p)).isOk) :
    checksumPage c (withChecksum c p) = .ok (withChecksum c p).sha256 := by
  cases sum : checksumPage c (withChecksum c p) with
  | error e =>
    rw [sum] at fits
    cases fits
  | ok digest =>
    obtain ⟨-, rest⟩ := of_refuse sum
    have rest := past_refuse rest
    exact congrArg Except.ok (Except.ok.inj rest).symm

theorem lastKey_references (sound : g.Sound lib) (some : g.referenceRows ≠ []) :
    lastKey CheckpointReference.key g.referenceRows ≠ "" := by
  obtain ⟨init, last, ends⟩ := (eq_nil_or_concat g.referenceRows).resolve_left some
  have accepts := sound.referenceRows
  rw [ends, concat_eq_append] at accepts ⊢
  rw [lastKey_append _ _ (by simp), lastKey_singleton]
  exact CheckpointReference.key_ne (accepts.readable last (by simp)).named

theorem trailing_restored [DecidableEq S] (sound : g.Sound c.lib) (labelled : g.Labelled c) (some : g.referenceRows ≠ [])
    (fits : Fits c g) : ∃ g', restoreGeneration c .initial (sealedHeader c g) (trailingLoader c g) = .ok g' ∧ g.Twin g' := by
  have complete : g.referenceRows.length = (sealedHeader c g).referenceRows := by
    rw [Generation.referenceRows, length_map]
    exact sound.ledger.rows
  have behind : Chain (referenceReader c (sealedHeader c g)) (trailingLoader c g)
      (lastKey CheckpointReference.key g.referenceRows) [] :=
    .final (p := emptyPage c g) ⟨by rw [loadPage, trailingLoader, if_neg (by decide), if_neg (lastKey_references sound some)],
      checksumPage_withChecksum fits.empty, rfl, rfl, rfl⟩ ⟨rfl, Nat.zero_le _⟩ rfl
  have references : Chain (referenceReader c (sealedHeader c g)) (trailingLoader c g) "" (g.referenceRows ++ []) :=
    .more (p := announcingPage c g) ⟨by rw [loadPage, trailingLoader, if_neg (by decide), if_pos rfl],
      checksumPage_withChecksum fits.announcing, rfl, rfl, rfl⟩ ⟨rfl, fits.references⟩ some rfl behind
  have revisions : Chain (revisionReader c (sealedHeader c g) g.referenceRows complete.le) (trailingLoader c g) ""
      g.revisionRows :=
    .final (p := revisionsPage c g) ⟨by rw [loadPage, trailingLoader, if_pos rfl],
      checksumPage_withChecksum fits.revised, rfl, rfl, rfl⟩ ⟨rfl, fits.revisions⟩ rfl
  rw [append_nil] at references
  exact restore_of_chains sound labelled references complete revisions

/-! ## What was read instead -/

/-- What was read instead of the pages of a checkpoint: chained pages with the committed rows, or a collision. -/
theorem committed_rows [DecidableEq S] {base : Generation} (sound : g.Sound c.lib)
    (h : restoreGeneration c base (sealedHeader c g) load = .ok g') :
    ∃ refRows revRows, ∃ complete : refRows.length = (sealedHeader c g).referenceRows,
      Chain (referenceReader c (sealedHeader c g)) load "" refRows ∧
      Chain (revisionReader c (sealedHeader c g) refRows complete.le) load "" revRows ∧
      ((refRows.map (·.toJson.render) = g.referenceRows.map (·.toJson.render) ∧
          revRows.map (·.toJson.render) = g.revisionRows.map (·.toJson.render)) ∨
        Collision c.lib (commitment c (sealedHeader c g) refRows revRows)
          (commitment c (sealedHeader c g) g.referenceRows g.revisionRows)) := by
  obtain ⟨refRows, revRows, st, restores, -⟩ := restores_of_ok h
  refine ⟨refRows, revRows, restores.complete, restores.references, restores.revisions, ?_⟩
  have counts : refRows.length = g.referenceRows.length := by
    rw [restores.complete, Generation.referenceRows, length_map]
    exact sound.ledger.rows.symm
  have digest := restores.digest
  rw [restores.built.hashed] at digest
  exact rows_of_digest restores.checked.bounds.nextID restores.built.rows sound.referenceRows restores.ledger
    sound.revisionRows counts digest

/-! ## The records after it -/

/-- A record that was published on a generation and made the next one. -/
structure Published [DecidableEq S] (c : Config S) (g g' : Generation) (r : CommitRecord S) : Prop where
  hash : hashRecord c r = .ok r.sha256
  valid : Backend.recordMatches c r r.sha256
  base : r.baseGeneration = g.number
  next : r.generation ≠ g.number
  prepared : ∃ made, prepare c g r.batch = .ok (g', made) ∧ made.sha256 = r.sha256

/-- A prepared record is one. -/
theorem published_of_prepare [DecidableEq S] (labelled : g.Labelled c) (word : g.number < 2 ^ 64)
    (h : prepare c g batch = .ok (g', r)) : Published c g g' r := by
  obtain ⟨sequence, upserted, deleted, hash, p, rfl, rfl⟩ := prepare_ok.1 h
  have fits : g.number + 1 < 2 ^ 64 := lt_of_le_of_ne word p.number
  refine ⟨p.hashed, ?_, rfl, Nat.succ_ne_self _, _, h, rfl⟩
  have source : (c.replayOrder.isSome || sequence == 0) := by
    rcases batchSequence_ok p.ordered with ⟨none_there, rfl⟩ | ⟨order, some_there, -⟩
    · rw [(labelled.unordered none_there).1]
      simp
    · rw [some_there]
      rfl
  have modulus : (g.number + 1) % 2 ^ 64 = g.number + 1 := Nat.mod_eq_of_lt fits
  simp only [Backend.recordMatches, makeRecord, source, modulus, Bool.and_eq_true, beq_iff_eq, bne_iff_ne, ne_eq,
    and_true, true_and]
  exact Nat.succ_ne_zero _

theorem perform_published [DecidableEq S] (inv : s.Inv c) (labelled : s.generation.Labelled c)
    (word : s.generation.number < 2 ^ 64) (h : perform c s op = .ok (s', some r)) :
    Published c s.generation s'.generation r := by
  cases op with
  | prepare | checkpoint | restoreCheckpoint | build =>
    obtain ⟨_, -, h⟩ := of_bind h
    cases h
  | publish i commit =>
    simp only [perform] at h
    split at h
    case h_1 => cases h
    case h_2 p found =>
      obtain ⟨b, stored, h⟩ := of_bind h
      obtain ⟨rfl, rec_is⟩ := Prod.mk.inj (Except.ok.inj h)
      cases rec_is
      obtain ⟨same, rfl⟩ := Backend.publish_ok stored
      exact published_of_prepare labelled word (((inv.prepared p (mem_of_getElem? found)).current same.symm).2)
  | apply batch preserveCursor commit =>
    obtain ⟨⟨b, p⟩, applied, h⟩ := of_bind h
    obtain ⟨rfl, rec_is⟩ := Prod.mk.inj (Except.ok.inj h)
    cases rec_is
    obtain ⟨⟨b₁, p₁⟩, prepared, applied⟩ := of_bind applied
    obtain ⟨b₂, stored, applied⟩ := of_bind applied
    cases applied
    obtain ⟨next, record, made, same, rfl⟩ := prepare_publish prepared stored
    rw [same]
    exact published_of_prepare labelled word made
  | restore record =>
    obtain ⟨⟨b, published⟩, restored, h⟩ := of_bind h
    obtain ⟨rfl, rec_is⟩ := Prod.mk.inj (Except.ok.inj h)
    obtain ⟨hash, hashed, restored⟩ := of_bind restored
    obtain ⟨valid, restored⟩ := of_refuse restored
    rw [Bool.not_eq_false'] at valid
    have sum : record.sha256 = hash := by
      simp only [Backend.recordMatches, Bool.and_eq_true, beq_iff_eq] at valid
      exact valid.1.1.2
    rw [← sum] at hashed valid
    split at restored
    case isTrue =>
      cases restored
      cases rec_is
    case isFalse =>
      obtain ⟨base, restored⟩ := of_refuse restored
      obtain ⟨⟨b₁, p⟩, prepared, restored⟩ := of_bind restored
      obtain ⟨same, restored⟩ := of_refuse restored
      obtain ⟨b₂, stored, restored⟩ := of_bind restored
      cases restored
      obtain rfl := Option.some.inj rec_is
      obtain ⟨next, made_record, made, is_record, rfl⟩ := prepare_publish prepared stored
      have number : s.backend.current.generation.number = record.baseGeneration := by simpa using base
      rw [is_record] at same
      refine ⟨hashed, valid, number.symm, ?_, made_record, made, by simpa using same⟩
      have range := valid
      simp only [Backend.recordMatches, Bool.and_eq_true, beq_iff_eq, bne_iff_ne] at range
      intro eq
      change record.generation = s.backend.current.generation.number at eq
      omega
  | activate | install =>
    simp only [perform] at h
    split at h
    case h_1 => cases h
    case h_2 =>
      obtain ⟨_, -, h⟩ := of_bind h
      cases h

/-- Restoring the record does to a twin what its batch did. -/
theorem restore_twin [DecidableEq S] (published : Published c g g' r)
    (twin : g.Twin b.current.generation) : ∃ g₁, b.restore c r = .ok (⟨⟨b.allocated, g₁⟩, b.allocated + 1⟩, true) ∧ g'.Twin g₁ := by
  obtain ⟨made, prepared, sum⟩ := published.prepared
  obtain ⟨g₁, prepared', twin₁⟩ := prepare_twin twin prepared
  refine ⟨g₁, ?_, twin₁⟩
  have number := twin.labels.number
  have another : ¬(decide (b.current.generation.number = r.generation) &&
      decide (b.current.generation.commitHash = r.sha256)) := by
    rw [number]
    simp [published.next.symm]
  have base : (b.current.generation.number != r.baseGeneration) = false := by
    rw [number, published.base]
    simp
  have same : (made.sha256 != r.sha256) = false := by
    rw [sum]
    simp
  unfold Backend.restore
  rw [published.hash, ok_bind, published.valid, Bool.not_true, refuse_false, ok_bind, if_neg another, base, refuse_false,
    ok_bind, Backend.prepare, prepared', ok_bind]
  simp only [Backend.allocate, pure, Except.pure, ok_bind]
  rw [same, refuse_false, ok_bind]
  simp [Backend.publish, pure, Except.pure]

/-- The records that were published in a run, in their order. -/
def recordsOf (trace : Trace S) : List (CommitRecord S) :=
  trace.filterMap fun e =>
    match e.output with
    | .ok (some record) => some record
    | _ => none

/-- A state whose generation may be continued. -/
structure System.Ready [DecidableEq S] (c : Config S) (s : System S) : Prop where
  inv : s.Inv c
  sound : s.generation.Sound c.lib
  labelled : s.generation.Labelled c
  word : s.generation.number < 2 ^ 64

theorem step_ready [DecidableEq S] (ready : s.Ready c) (plain : op.publishes) : (step c s op).1.Ready c := by
  obtain ⟨inv, moves⟩ := step_moves ready.inv op
  refine ⟨inv, moves_sound ready.sound moves, moves_labelled ready.labelled moves, ?_⟩
  generalize (step c s op).1.generation = after, publishedBatch (step c s op).2 = out at moves
  cases moves with
  | stays same =>
    rw [same]
    exact ready.word
  | publishes batch record prepared =>
    obtain ⟨_, _, _, _, p, rfl, -⟩ := prepare_ok.1 prepared
    exact lt_of_le_of_ne ready.word p.number
  | compacts => cases plain
  | restores _ _ _ kind => cases kind.1.symm.trans plain

/-- A step that published nothing left the generation as it was. -/
theorem step_unpublished [DecidableEq S] (ready : s.Ready c) (plain : op.publishes)
    (nothing : ∀ r, (step c s op).2 ≠ .ok (some r)) : (step c s op).1.generation = s.generation := by
  obtain ⟨-, moves⟩ := step_moves ready.inv op
  have silent : publishedBatch (step c s op).2 = none := by
    cases out : (step c s op).2 with
    | error e => rfl
    | ok record =>
      cases record with
      | none => rfl
      | some r => exact absurd out (nothing r)
  rw [silent] at moves
  generalize (step c s op).1.generation = after at moves ⊢
  cases moves with
  | stays same => exact same
  | compacts => cases plain
  | restores _ _ _ kind => cases kind.1.symm.trans plain

/-- Restoring the records of a run one after another follows it. -/
theorem tail_twin [DecidableEq S] {t : System S} {tail : Trace S} (run : Run (step c) s tail s')
    (publications : ∀ e ∈ tail, e.input.publishes) (ready : s.Ready c) (twin : s.generation.Twin t.generation) :
    s'.Ready c ∧ ∃ trace t', Run (step c) t trace t' ∧ trace.map (·.input) = (recordsOf tail).map Op.restore ∧
      (∀ e ∈ trace, ∃ r, e.output = .ok (some r)) ∧ s'.generation.Twin t'.generation := by
  induction run with
  | start => exact ⟨ready, [], t, .start, rfl, by simp, twin⟩
  | @next tail s₁ run op ih =>
    obtain ⟨ready₁, trace, t₁, run', inputs, accepted, twin₁⟩ :=
      ih fun e mem => publications e (mem_append_left _ mem)
    have plain : op.publishes := publications (Event.of (step c) s₁ op) (by simp)
    refine ⟨step_ready ready₁ plain, ?_⟩
    by_cases published : ∃ r, (step c s₁ op).2 = .ok (some r)
    · obtain ⟨r, output⟩ := published
      have record : Published c s₁.generation (step c s₁ op).1.generation r := by
        cases done : perform c s₁ op with
        | error e =>
          rw [step, done] at output
          cases output
        | ok out =>
          obtain ⟨s₂, written⟩ := out
          have step_is : step c s₁ op = (s₂, .ok written) := by rw [step, done]
          rw [step_is] at output ⊢
          cases output
          exact perform_published ready₁.inv ready₁.labelled ready₁.word done
      obtain ⟨g₁, restored, twin₂⟩ := restore_twin record twin₁
      have performed : step c t₁ (.restore r) =
          ({ t₁ with backend := ⟨⟨t₁.backend.allocated, g₁⟩, t₁.backend.allocated + 1⟩ }, .ok (some r)) := by
        rw [step, perform, restored]
        rfl
      refine ⟨trace ++ [Event.of (step c) t₁ (.restore r)], _, run'.next (.restore r), ?_, ?_, ?_⟩
      · rw [map_append, inputs, recordsOf, recordsOf, filterMap_append, map_append]
        simp [output]
      · intro e mem
        rcases mem_append.1 mem with old | new
        · exact accepted e old
        · rw [mem_singleton.1 new, Event.of_output, performed]
          exact ⟨r, rfl⟩
      · rw [performed]
        exact twin₂
    · have nothing : ∀ r, (step c s₁ op).2 ≠ .ok (some r) := fun r is => published ⟨r, is⟩
      refine ⟨trace, t₁, run', ?_, accepted, ?_⟩
      · rw [inputs, recordsOf, recordsOf, filterMap_append]
        have silent : [Event.of (step c) s₁ op].filterMap (fun e =>
            match e.output with
            | .ok (some record) => some record
            | _ => none) = [] := by
          rw [filterMap_cons, Event.of_output]
          cases out : (step c s₁ op).2 with
          | error e => rfl
          | ok record =>
            cases record with
            | none => rfl
            | some r => exact absurd out (nothing r)
        rw [silent, append_nil]
      · rw [step_unpublished ready₁ plain nothing]
        exact twin₁

/-! ## Checkpoint and tail -/

/-- The state after a checkpoint was taken and activated. -/
theorem activated_ready [DecidableEq S] {trace : Trace S} (run : Run (step c) System.new trace s)
    (word : s.generation.number < 2 ^ 64) {compacted : Bool} {b' : Backend}
    (taken : makeCheckpoint c s.backend compacted = .ok (b, ck)) (activated : activateCheckpoint b ck = .ok b') :
    System.Ready c { s with backend := b', checkpoints := s.checkpoints ++ [ck] } ∧
      b'.current.generation = ck.generation.generation := by
  have inv : s.Inv c := run.invariant System.inv_new fun s op inv => (step_moves inv op).1
  have pinned : perform c s (.checkpoint compacted) =
      .ok ({ s with backend := b, checkpoints := s.checkpoints ++ [ck] }, none) := by
    rw [perform, taken]
    rfl
  have replaced : perform c { s with backend := b, checkpoints := s.checkpoints ++ [ck] } (.activate s.checkpoints.length) =
      .ok ({ s with backend := b', checkpoints := s.checkpoints ++ [ck] }, none) := by
    have found : (s.checkpoints ++ [ck])[s.checkpoints.length]? = some ck := by simp
    rw [perform]
    rw [found]
    dsimp only
    rw [activated]
    rfl
  obtain ⟨inv₁, moves₁⟩ := perform_moves inv pinned
  obtain ⟨inv₂, moves₂⟩ := perform_moves inv₁ replaced
  have sound₁ := moves_sound (reached_sound run) moves₁
  have labelled₁ := moves_labelled (reached_labelled run) moves₁
  refine ⟨⟨inv₂, moves_sound sound₁ moves₂, moves_labelled labelled₁ moves₂, ?_⟩, ?_⟩
  · have number : ∀ {g g' : Generation} {op : Op S}, (op = .checkpoint compacted ∨ ∃ i, op = .activate i) →
        Moves c g g' op none → g'.number = g.number := by
      intro g g' op which moves
      cases moves with
      | stays same => rw [same]
      | compacts i compacted =>
        obtain ⟨-, -, -, -, -, rfl⟩ := compactHistory_ok compacted
        rfl
      | restores _ _ _ kind =>
        rcases which with rfl | ⟨i, rfl⟩
        · cases kind.1
        · exact absurd rfl (kind.2 i)
    rw [number (.inr ⟨_, rfl⟩) moves₂, number (.inl rfl) moves₁]
    exact word
  · obtain ⟨-, rfl⟩ := activateCheckpoint_ok activated
    rfl

theorem restoreCheckpoint_new [DecidableEq S] {header : CheckpointHeader S} {load : CheckpointLoader} {g : Generation}
    (restored : restoreGeneration c .initial header load = .ok g) :
    restoreCheckpoint c Backend.new header load = .ok ⟨⟨1, g⟩, 2⟩ := by
  rw [restoreCheckpoint, buildCheckpoint, show Backend.new.current.generation = .initial from rfl, restored]
  rfl

variable [Field S] [LinearOrder S] [IsStrictOrderedRing S]

/-- A checkpoint of a reachable generation is read back in pages of any sizes, and with the records published after it
the fresh backend follows the one the checkpoint was activated on. Whatever is read instead has the committed rows, or is
refused, or collides with them. -/
theorem checkpoint_and_tail_restore (good : c.Good) {s : System S} {trace : Trace S}
    (run : Run (step c) System.new trace s) (word : s.generation.number < 2 ^ 64) {compacted : Bool} {b : Backend}
    (taken : makeCheckpoint c s.backend compacted = .ok (b, ck)) :
    (∀ load, Serves c ck load → ∀ b', activateCheckpoint b ck = .ok b' → ∀ (tail : Trace S) (s' : System S),
      Run (step c) { s with backend := b', checkpoints := s.checkpoints ++ [ck] } tail s' →
      (∀ e ∈ tail, e.input.publishes = true) →
      ∃ (restored : System S) (trace' : Trace S), Run (step c) System.new trace' restored ∧
        trace'.map (·.input) = .restoreCheckpoint ck.header load :: (recordsOf tail).map Op.restore ∧
        (∀ e ∈ trace', ∃ out, e.output = .ok out) ∧ s'.generation.Same restored.generation ∧
        SameAnswers c s'.backend.current restored.backend.current) ∧
    ∀ (t : System S) (load : CheckpointLoader),
      (∃ e, step c t (.restoreCheckpoint ck.header load) = (t, .error e)) ∨
      ∃ refRows revRows, ∃ complete : refRows.length = ck.header.referenceRows,
        Chain (referenceReader c ck.header) load "" refRows ∧
        Chain (revisionReader c ck.header refRows complete.le) load "" revRows ∧
        ((refRows.map (·.toJson.render) = ck.generation.generation.referenceRows.map (·.toJson.render) ∧
            revRows.map (·.toJson.render) = ck.generation.generation.revisionRows.map (·.toJson.render)) ∨
          Collision c.lib (commitment c ck.header refRows revRows)
            (commitment c ck.header ck.generation.generation.referenceRows ck.generation.generation.revisionRows)) := by
  obtain ⟨header, pinned⟩ := makeCheckpoint_header (reached_sound run) taken
  constructor
  · intro load serves b' activated tail s' tail_run publications
    obtain ⟨ready, generation⟩ := activated_ready run word taken activated
    have labelled : ck.generation.generation.Labelled c := generation ▸ ready.labelled
    obtain ⟨g', restored, twin⟩ := restore_checkpoint_twin pinned labelled header serves
    have first : step c System.new (.restoreCheckpoint ck.header load) =
        ({ (System.new : System S) with backend := ⟨⟨1, g'⟩, 2⟩ }, .ok none) := by
      rw [step, perform, show (System.new : System S).backend = .new from rfl, restoreCheckpoint_new restored]
      rfl
    have opening : Run (step c) (System.new : System S) [Event.of (step c) System.new (.restoreCheckpoint ck.header load)]
        (step c System.new (.restoreCheckpoint ck.header load)).1 := Run.start.next _
    obtain ⟨ready', more, t', run', inputs, accepted, twin'⟩ := tail_twin tail_run publications ready
      (t := (step c System.new (.restoreCheckpoint ck.header load)).1) (by
        rw [first]
        change b'.current.generation.Twin g'
        rw [generation]
        exact twin)
    have whole := opening.append run'
    refine ⟨t', _, whole, ?_, ?_, ?_, ?_⟩
    · rw [map_append, inputs]
      rfl
    · intro e mem
      rcases mem_append.1 mem with earliest | later
      · rw [mem_singleton.1 earliest, Event.of_output, first]
        exact ⟨none, rfl⟩
      · obtain ⟨r, output⟩ := accepted e later
        exact ⟨some r, output⟩
    · exact twin'.same ready'.sound.core (reached_sound whole).core
    · exact twin'.sameAnswers good ready'.sound.core (reached_sound whole).core
  · intro t load
    cases opened : restoreGeneration c t.generation ck.header load with
    | error e =>
      refine .inl ⟨e, ?_⟩
      have refused : restoreCheckpoint c t.backend ck.header load = .error e := by
        rw [restoreCheckpoint, buildCheckpoint, show restoreGeneration c t.backend.current.generation _ _ = _ from opened]
        rfl
      rw [step, perform, refused]
      rfl
    | ok g' =>
      rw [header] at opened
      have read := committed_rows pinned opened
      rw [← header] at read
      exact .inr read

/-! The checkpoint of one document, read back in pages of one row, and what is published behind it. -/

def sampleSystem : System Rat := finalState (step sampleConfig) System.new sampleOps

theorem sampleSystem_rows : sampleSystem.generation.number = 1 ∧
    sampleSystem.generation.referenceRows = [⟨sampleRef, 0, "1", some sampleDocument⟩] ∧
    sampleSystem.generation.revisionRows = [⟨historyKey sampleRef.toString "1", sampleLibrary.digest sampleDocument.toJson.render⟩] := by
  decide +kernel

section
variable (s : System Rat)

def checkpointOf : Checkpoint Rat :=
  ⟨s.backend.current, s.backend.current.address, sealedHeader sampleConfig s.generation⟩

/-- Pages of one row. -/
def rowLoader : CheckpointLoader := fun part after _ =>
  (page sampleConfig (checkpointOf s) part after 1).mapError fun _ => "no page"

/-- The system that goes on with the checkpoint activated. -/
def checkpointed : System Rat := { s with checkpoints := s.checkpoints ++ [checkpointOf s] }

/-- Every page can be read. -/
def Paged : Prop :=
  (∀ after ∈ "" :: s.generation.refs.toList.map Prod.fst,
    (page sampleConfig (checkpointOf s) checkpointReferences after 1).isOk) ∧
  ∀ after ∈ "" :: s.generation.seen.toList.map Prod.fst,
    (page sampleConfig (checkpointOf s) checkpointRevisions after 1).isOk

variable {s}

theorem rowLoader_serves (paged : Paged s) : Serves sampleConfig (checkpointOf s) (rowLoader s) := by
  rintro part after inside
  have succeeds : (page sampleConfig (checkpointOf s) part after 1).isOk := by
    rcases inside with ⟨rfl, known⟩ | ⟨rfl, known⟩
    · exact paged.1 after (mem_cons.2 known)
    · exact paged.2 after (mem_cons.2 known)
  cases made : page sampleConfig (checkpointOf s) part after 1 with
  | error e =>
    rw [made] at succeeds
    cases succeeds
  | ok p => exact ⟨1, p, made, by rw [rowLoader, made]; rfl⟩

end

theorem checkpoint_and_tail_restore_sample : ∃ (restored : System Rat) (trace : Trace Rat),
    Run (step sampleConfig) System.new trace restored ∧
      trace.map (·.input) = .restoreCheckpoint (checkpointOf sampleSystem).header (rowLoader sampleSystem) ::
        (recordsOf (traceOf (step sampleConfig) (checkpointed sampleSystem) (moreOps ++ lastOps))).map Op.restore ∧
      (finalState (step sampleConfig) (checkpointed sampleSystem) (moreOps ++ lastOps)).generation.Same
        restored.generation := by
  have run : ∃ trace, Run (step sampleConfig) System.new trace sampleSystem := ⟨_, Run.start.inputs sampleOps⟩
  have paged : Paged sampleSystem := by
    unfold Paged
    decide +kernel
  have number := sampleSystem_rows.1
  generalize sampleSystem = s at *
  obtain ⟨trace, run⟩ := run
  have taken := makeCheckpoint_sound (b := s.backend) (reached_sound run)
  have answer := checkpoint_and_tail_restore sampleConfig_good run (by rw [number]; decide) taken
  obtain ⟨restored, trace, run, inputs, -, same, -⟩ := answer.1 _ (rowLoader_serves paged) s.backend
    (by rw [activateCheckpoint, bne_self_eq_false]; rfl) _ _ (Run.start.inputs (moreOps ++ lastOps)) fun e mem => by
      simp only [moreOps, lastOps, cons_append, nil_append, traceOf, mem_cons, not_mem_nil, or_false] at mem
      rcases mem with rfl | rfl <;> rfl
  exact ⟨restored, trace, run, inputs, same⟩

/-! A page behind the only reference of the checkpoint. -/

/-- No page of the checkpoint announces another one, whatever its size; storage that announces one is read all the
same. -/
theorem trailing_page_accepted :
    makeCheckpoint sampleConfig sampleSystem.backend false = .ok (sampleSystem.backend, (checkpointOf sampleSystem)) ∧
    (∀ limit p, page sampleConfig (checkpointOf sampleSystem) checkpointReferences "" limit = .ok p → p.next = "") ∧
    (∃ p, trailingLoader sampleConfig sampleSystem.generation checkpointReferences "" maxBatchDocuments = .ok p ∧
      p.next ≠ "") ∧ ∃ b, restoreCheckpoint sampleConfig Backend.new (checkpointOf sampleSystem).header
      (trailingLoader sampleConfig sampleSystem.generation) = .ok b := by
  obtain ⟨number, references, revisions⟩ := sampleSystem_rows
  have run : ∃ trace, Run (step sampleConfig) System.new trace sampleSystem := ⟨_, Run.start.inputs sampleOps⟩
  rw [checkpointOf]
  generalize sampleSystem = s at *
  obtain ⟨trace, run⟩ := run
  have sound := reached_sound run
  have one : s.generation.refs.toList.length = 1 := by
    rw [← length_map (f := rowOf)]
    exact congrArg List.length references
  have some : s.generation.referenceRows ≠ [] := by simp [references]
  have numbered : (checkpointHeader sampleConfig s.generation).generation = 1 := number
  have fits : Fits sampleConfig s.generation := by
    constructor
    case references => rw [references]; decide
    case revisions => rw [revisions]; decide
    case announcing => rw [announcingPage, references, numbered]; decide +kernel
    case empty => rw [emptyPage, references, numbered]; decide +kernel
    case revised => rw [revisionsPage, revisions, numbered]; decide +kernel
  obtain ⟨g', restored, -⟩ := trailing_restored sound (reached_labelled run) some fits
  refine ⟨makeCheckpoint_sound sound, fun _ _ made => page_references_last one.le made, ⟨_, rfl, ?_⟩, ?_⟩
  · exact lastKey_references sound some
  · exact ⟨⟨⟨1, g'⟩, 2⟩, restoreCheckpoint_new restored⟩

end Pagnet.Search
