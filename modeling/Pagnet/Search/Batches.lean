import Pagnet.Search.Sound

/-!
# What a batch does

An upsert or a deletion keeps a generation sound, and so does the batch they
are part of. The ledger of revisions remembers every revision a reference ever
had with the digest of its content, so a revision that comes again changes
nothing, also after the document was deleted.
-/

namespace Pagnet.Search
open Json Fabric Dictionary

variable {S : Type} {c : Config S} {lib : Library} {g g' : Generation}

/-! ## The ledger of revisions -/

theorem historyKey_toList (ref revision : String) :
    (historyKey ref revision).toList = ref.toList ++ '\x00' :: revision.toList := by
  simp [historyKey]

/-- The text of a key up to the separator is the reference, and the rest the revision. -/
theorem historyKey_cut (r : EndpointRef) (revision : String) :
    (historyKey r.toString revision).toList.takeWhile (· ≠ '\x00') = r.toString.toList ∧
      (historyKey r.toString revision).toList.dropWhile (· ≠ '\x00') = '\x00' :: revision.toList := by
  have plain : ∀ ch ∈ r.toString.toList, decide (ch ≠ '\x00') := by
    intro ch mem
    rw [decide_eq_true_eq]
    rintro rfl
    exact r.not_mem_nul mem
  rw [historyKey_toList, List.takeWhile_append_of_pos plain, List.dropWhile_append_of_pos plain]
  simp

/-- A key names one reference and one revision. -/
theorem historyKey_inj {r r' : EndpointRef} {revision revision' : String}
    (h : historyKey r.toString revision = historyKey r'.toString revision') : r = r' ∧ revision = revision' := by
  have cut := historyKey_cut r revision
  rw [h, (historyKey_cut r' revision').1, (historyKey_cut r' revision').2] at cut
  exact ⟨(EndpointRef.toString_injective (String.toList_injective cut.1)).symm,
    (String.toList_injective (List.cons.inj cut.2).2).symm⟩

/-- An entry whose revision, and whose content if it is live, is in the ledger. -/
structure Entry.Recorded (lib : Library) (seen : Dictionary String String) (ref : String) (e : Entry) : Prop where
  canonical : ∃ r : EndpointRef, r ≠ .zero ∧ r.toString = ref
  digest : ∃ digest, seen.get (historyKey ref e.revision) = some digest
  revision : e.revision ≠ "" ∧ e.revision.utf8ByteSize ≤ 256
  value : ∀ {d}, e.value = some d → d.doc.revision = e.revision ∧
    ∃ digest, compact lib d.doc = .ok (d, digest) ∧ seen.get (historyKey ref e.revision) = some digest

/-- A row of the ledger. -/
structure LedgerRow (refs : Dictionary String Entry) (key digest : String) : Prop where
  identity : ∃ (r : EndpointRef) (revision : String), key = historyKey r.toString revision ∧ r ≠ .zero ∧
    (refs.get r.toString).isSome ∧ revision ≠ "" ∧ revision.utf8ByteSize ≤ 256
  digest : validDigest digest

structure Generation.Ledger (lib : Library) (g : Generation) : Prop where
  rows : g.refs.toList.length = g.nextID
  versions : g.seen.toList.length = g.versions
  bounded : g.versions ≤ maxRevisions
  entries : ∀ {ref e}, g.refs.get ref = some e → e.Recorded lib g.seen ref
  keys : ∀ {key digest}, g.seen.get key = some digest → LedgerRow g.refs key digest

structure Generation.Sound (lib : Library) (g : Generation) : Prop where
  core : g.Core lib
  ledger : g.Ledger lib

variable {e : Entry} {ref digest : String} {seen : Dictionary String String} {d : SearchDocument}
    {refs : Dictionary String Entry} {base next : Generation} {batch : Batch} {record : CommitRecord S}

/-- The ledger grows. -/
theorem Entry.Recorded.mono {seen' : Dictionary String String}
    (recorded : e.Recorded lib seen ref) (grows : ∀ {key digest}, seen.get key = some digest → seen'.get key = some digest) :
    e.Recorded lib seen' ref where
  canonical := recorded.canonical
  digest := recorded.digest.imp fun _ => grows
  revision := recorded.revision
  value is := by
    obtain ⟨same, digest, compacted, found⟩ := recorded.value is
    exact ⟨same, digest, compacted, grows found⟩

/-! ## Upserts and deletions -/

/-- What an upsert that succeeds does. -/
theorem upsert_ok (h : upsert c g d = .ok g') : ∃ value digest, compact c.lib d = .ok (value, digest) ∧
    (g.seen.get (historyKey d.ref.toString d.revision) = some digest ∧ g' = g ∨
      g.seen.get (historyKey d.ref.toString d.revision) = none ∧ g.versions < maxRevisions ∧
        ∃ g₁ e, allocate g d.ref.toString = .ok (g₁, e) ∧
          g' = { replaceValue g₁ d.ref.toString e (some value) d.revision with
            versions := g₁.versions + 1, seen := g₁.seen.put (historyKey d.ref.toString d.revision) digest }) := by
  obtain ⟨⟨value, digest⟩, compacted, h⟩ := of_bind h
  refine ⟨value, digest, compacted, ?_⟩
  dsimp only at h
  split at h
  case h_1 prior found =>
    obtain ⟨same, h⟩ := of_refuse h
    have eq : prior = digest := by simpa using same
    exact .inl ⟨eq ▸ found, (Except.ok.inj h).symm⟩
  case h_2 missing =>
    obtain ⟨room, h⟩ := of_refuse h
    obtain ⟨⟨g₁, e⟩, allocated, h⟩ := of_bind h
    exact .inr ⟨missing, by simpa using room, g₁, e, allocated, (Except.ok.inj h).symm⟩

/-- What a deletion that succeeds does. -/
theorem delete_ok {d : Deletion} (h : delete g d = .ok g') :
    ∃ e, g.refs.get d.ref.toString = some e ∧ e.revision = d.expectedRevision ∧
      (e.value = none ∧ g' = g ∨ e.value ≠ none ∧ g' = replaceValue g d.ref.toString e none e.revision) := by
  have h := past_refuse h
  split at h
  case h_1 => cases h
  case h_2 e found =>
    obtain ⟨same, h⟩ := of_refuse h
    refine ⟨e, found, by simpa using same, ?_⟩
    split at h
    case h_1 deleted => exact .inl ⟨deleted, (Except.ok.inj h).symm⟩
    case h_2 d live => exact .inr ⟨by simp [live], (Except.ok.inj h).symm⟩

theorem LedgerRow.put {key : String} (row : LedgerRow refs key digest)
    (ref : String) (e : Entry) : LedgerRow (refs.put ref e) key digest where
  identity := by
    obtain ⟨r, revision, eq, nonzero, known, rest⟩ := row.identity
    refine ⟨r, revision, eq, nonzero, ?_, rest⟩
    rw [get_put]
    split
    · rfl
    · exact known
  digest := row.digest

/-- The ledger after an entry was written, with the revisions that were seen until then. -/
theorem ledger_entries
    (entries : ∀ {ref e}, refs.get ref = some e → e.Recorded lib seen ref) (written : e.Recorded lib seen ref)
    {ref' : String} {e' : Entry} (found : (refs.put ref e).get ref' = some e') : e'.Recorded lib seen ref' := by
  rw [get_put] at found
  split at found
  case isTrue here =>
    rw [here, ← Option.some.inj found]
    exact written
  case isFalse => exact entries found

theorem compact_self {value : Indexed} (h : compact lib d = .ok (value, digest)) :
    value.doc = d ∧ value.ref = d.ref.toString ∧ value.Compacted lib := by
  obtain ⟨-, -, -, eq, -⟩ := compact_ok h
  have doc : value.doc = d := by rw [eq]; rfl
  exact ⟨doc, congrArg (·.ref.toString) doc, digest, doc.symm ▸ h⟩

theorem upsert_sound (sound : g.Sound c.lib) (h : upsert c g d = .ok g') : g'.Sound c.lib := by
  obtain ⟨value, digest, compacted, ⟨-, rfl⟩ | ⟨missing, room, g₁, e, allocated, rfl⟩⟩ := upsert_ok h
  · exact sound
  obtain ⟨nonzero, revision, -, -, digest_is⟩ := compact_ok compacted
  obtain ⟨doc, ref, indexed⟩ := compact_self compacted
  obtain ⟨core, alloc⟩ := allocate_core sound.core allocated
  have fits : ∀ d', some value = some d' → d'.ref = d.ref.toString ∧ d'.Compacted c.lib := by
    rintro _ ⟨⟩
    exact ⟨ref, indexed⟩
  have written := replaceValue_core core alloc.placed fits d.revision
  have grows : ∀ {key prior}, g.seen.get key = some prior →
      (g₁.seen.put (historyKey d.ref.toString d.revision) digest).get key = some prior := by
    intro key prior found
    rw [alloc.seen, get_put, if_neg]
    · exact found
    · rintro rfl
      rw [missing] at found
      cases found
  have found_new : (g₁.seen.put (historyKey d.ref.toString d.revision) digest).get
      (historyKey d.ref.toString d.revision) = some digest := get_put_self ..
  refine ⟨written.same, ?_⟩
  constructor
  case rows =>
    have rows := sound.ledger.rows
    change (g₁.refs.put _ _).toList.length = g₁.nextID
    rw [alloc.refs]
    rcases alloc.source with ⟨found, rfl⟩ | ⟨absent, -, next, -⟩
    · rw [length_put_of_some found, rows]
    · rw [length_put_of_none absent, rows, next]
  case versions =>
    rw [alloc.seen, alloc.versions, length_put_of_none missing, sound.ledger.versions]
  case bounded =>
    rw [alloc.versions]
    exact room
  case entries =>
    intro ref' e' found
    refine ledger_entries (fun old => ?_) ?_ found
    · rw [alloc.refs] at old
      exact (sound.ledger.entries old).mono grows
    · refine ⟨⟨d.ref, nonzero, rfl⟩, ⟨digest, found_new⟩, revision, ?_⟩
      rintro _ ⟨⟩
      exact ⟨congrArg SearchDocument.revision doc, digest, doc.symm ▸ compacted, found_new⟩
  case keys =>
    intro key prior found
    rw [get_put] at found
    split at found
    case isTrue here =>
      refine ⟨⟨d.ref, d.revision, here, nonzero, ?_, revision⟩, ?_⟩
      · change ((g₁.refs.put _ _).get _).isSome
        rw [get_put_self]
        rfl
      · rw [← Option.some.inj found, digest_is]
        exact validDigest_digest ..
    case isFalse =>
      have row := sound.ledger.keys (alloc.seen ▸ found)
      rw [← alloc.refs] at row
      exact row.put ..

theorem delete_sound {d : Deletion} (sound : g.Sound lib) (h : delete g d = .ok g') : g'.Sound lib := by
  obtain ⟨e, found, -, ⟨-, rfl⟩ | ⟨-, rfl⟩⟩ := delete_ok h
  · exact sound
  refine ⟨replaceValue_core sound.core (sound.core.placed found) (fun _ is => by cases is) e.revision, ?_⟩
  constructor
  case rows => exact (length_put_of_some found _).trans sound.ledger.rows
  case versions => exact sound.ledger.versions
  case bounded => exact sound.ledger.bounded
  case entries =>
    intro ref' e' written
    have old := sound.ledger.entries found
    have deleted : Entry.Recorded lib g.seen d.ref.toString ⟨e.id, none, e.revision⟩ :=
      ⟨old.canonical, old.digest, old.revision, fun is => by cases is⟩
    exact ledger_entries sound.ledger.entries deleted written
  case keys => exact fun seen => (sound.ledger.keys seen).put ..

/-! ## Batches -/

/-- What a batch that is prepared passed, step by step. -/
structure Prepares (c : Config S) (base : Generation) (batch : Batch) (sequence : Nat) (upserted deleted : Generation)
    (hash : String) : Prop where
  bounds : batch.upserts.length + batch.deletes.length ≤ maxBatchDocuments ∧ batch.upstreamCursor.utf8ByteSize ≤ 4096
  ordered : batchSequence c base batch.upstreamCursor = .ok sequence
  upserts : batch.upserts.foldlM (upsert c) { base with sourceSequence := sequence } = .ok upserted
  deletes : batch.deletes.foldlM delete upserted = .ok deleted
  number : base.number + 1 ≠ 2 ^ 64
  hashed : hashRecord c (makeRecord c base sequence batch) = .ok hash

/-- The generation of a batch, with the labels of its publication. -/
def Generation.labelled (deleted base : Generation) (batch : Batch) (hash : String) : Generation :=
  { deleted with number := base.number + 1, cursor := batch.upstreamCursor, commitHash := hash }

theorem prepare_ok :
    prepare c base batch = .ok (next, record) ↔ ∃ sequence upserted deleted hash,
      Prepares c base batch sequence upserted deleted hash ∧ next = deleted.labelled base batch hash ∧
        record = { makeRecord c base sequence batch with sha256 := hash } := by
  constructor
  · intro h
    obtain ⟨bounds, h⟩ := of_refuse h
    obtain ⟨sequence, ordered, h⟩ := of_bind h
    obtain ⟨upserted, upserts, h⟩ := of_bind h
    obtain ⟨deleted, deletes, h⟩ := of_bind h
    obtain ⟨number, h⟩ := of_refuse h
    obtain ⟨hash, hashed, h⟩ := of_bind h
    cases h
    refine ⟨sequence, upserted, deleted, hash, ⟨?_, ordered, upserts, deletes, by simpa using number, hashed⟩, rfl, rfl⟩
    simpa using bounds
  · rintro ⟨sequence, upserted, deleted, hash, p, rfl, rfl⟩
    refine refuse_bind_eq_ok.2 ⟨by simpa using p.bounds, ?_⟩
    refine bind_eq_ok.2 ⟨sequence, p.ordered, ?_⟩
    refine bind_eq_ok.2 ⟨upserted, p.upserts, ?_⟩
    refine bind_eq_ok.2 ⟨deleted, p.deletes, ?_⟩
    refine refuse_bind_eq_ok.2 ⟨by simpa using p.number, ?_⟩
    exact bind_eq_ok.2 ⟨hash, p.hashed, rfl⟩

theorem Generation.Sound.same {g' : Generation} (sound : g.Sound lib) (same : g.SameIndex g' := by exact { })
    (seen : g'.seen = g.seen := by rfl) (versions : g'.versions = g.versions := by rfl) : g'.Sound lib where
  core := sound.core.same same
  ledger := by
    refine ⟨?_, ?_, ?_, ?_, ?_⟩
    · rw [same.refs, same.nextID]
      exact sound.ledger.rows
    · rw [seen, versions]
      exact sound.ledger.versions
    · rw [versions]
      exact sound.ledger.bounded
    · rw [same.refs, seen]
      exact sound.ledger.entries
    · rw [same.refs, seen]
      exact sound.ledger.keys

theorem Prepares.sound {upserted deleted : Generation} {sequence : Nat} {hash : String}
    (p : Prepares c base batch sequence upserted deleted hash) (sound : base.Sound c.lib) : deleted.Sound c.lib := by
  have start : Generation.Sound c.lib { base with sourceSequence := sequence } :=
    sound.same
  have first := foldlM_keeps (fun g d g' sound h => upsert_sound sound h) start p.upserts
  exact foldlM_keeps (fun g d g' sound h => delete_sound sound h) first p.deletes

theorem prepare_sound (sound : base.Sound c.lib)
    (h : prepare c base batch = .ok (next, record)) : next.Sound c.lib := by
  obtain ⟨sequence, upserted, deleted, hash, p, rfl, -⟩ := prepare_ok.1 h
  exact (p.sound sound).same

theorem sound_initial (lib : Library) : Generation.initial.Sound lib where
  core := by
    refine ⟨Node.wellFormed_nil 0, ?_, ?_, List.Perm.nil, ?_, ?_, ?_, Nat.zero_le _, ?_, Corpus.describes_nil, rfl⟩
    · intro ref e found
      cases found
    · intro i d _ found
      rw [Generation.initial, Node.get_nil] at found
      cases found
    · intro ref e found
      cases found
    · intro ref ref' e e' found
      cases found
    · intro ref e d found
      cases found
    · decide
  ledger := by
    refine ⟨rfl, rfl, Nat.zero_le _, ?_, ?_⟩
    · intro ref e found
      cases found
    · intro key digest found
      cases found

end Pagnet.Search
