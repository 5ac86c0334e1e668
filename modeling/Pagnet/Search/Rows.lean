import Pagnet.Search.Batches
import Pagnet.Search.IdSets
import Pagnet.Search.Pages

/-!
# Reading rows

A generation that is built from rows is sound at every row, and its references,
its ledger and the bytes of its commitment are those of the rows read so far.
A row is refused exactly when the rows with it are not those of a generation.
-/

namespace Pagnet.Search
open Json Fabric List Dictionary

variable {S : Type} {c : Config S} {lib : Library} {header : CheckpointHeader S} {g : Generation}

/-- What a generation is besides its rows. -/
structure Generation.SameLabels (g g' : Generation) : Prop where
  number : g'.number = g.number := by rfl
  nextID : g'.nextID = g.nextID := by rfl
  level : g'.level = g.level := by rfl
  versions : g'.versions = g.versions := by rfl
  sourceSequence : g'.sourceSequence = g.sourceSequence := by rfl
  replayFloor : g'.replayFloor = g.replayFloor := by rfl
  cursor : g'.cursor = g.cursor := by rfl
  commitHash : g'.commitHash = g.commitHash := by rfl

namespace CheckpointReference

def key (r : CheckpointReference) : String := r.ref.toString

def entry (lib : Library) (r : CheckpointReference) : Entry := ⟨r.storageID, r.document.map (indexDocument lib), r.revision⟩

/-- A row that stands for an entry. -/
structure Readable (lib : Library) (nextID : Nat) (r : CheckpointReference) : Prop where
  named : r.ref ≠ .zero
  id : r.storageID < nextID
  revision : r.revision ≠ "" ∧ r.revision.utf8ByteSize ≤ 256
  document : ∀ {d}, r.document = some d → d.ref = r.ref ∧ d.revision = r.revision ∧ (indexDocument lib d).Compacted lib

variable {r : CheckpointReference}

theorem Readable.encodable {nextID : Nat} (readable : r.Readable lib nextID) : r.encodable := by
  unfold CheckpointReference.encodable
  cases found : r.document with
  | none => simp [readable.named]
  | some d =>
    obtain ⟨ref, -, digest, compacted⟩ := readable.document found
    have writes : d.encodable := compact_encodable compacted
    simp [readable.named, ref, writes]

theorem key_ne (named : r.ref ≠ .zero) : r.key ≠ "" := fun empty =>
  named (EndpointRef.toString_injective (empty.trans EndpointRef.toString_zero.symm))

end CheckpointReference

/-- The rows of the references of some generation. -/
structure ReferenceRows (lib : Library) (nextID : Nat) (rows : List CheckpointReference) : Prop where
  readable : ∀ r ∈ rows, r.Readable lib nextID
  ascending : rows.Pairwise fun a b => a.key < b.key
  ids : rows.Pairwise fun a b => a.storageID ≠ b.storageID

/-- One more row. -/
theorem referenceRows_snoc {nextID : Nat} {rows : List CheckpointReference} (before : ReferenceRows lib nextID rows)
    (r : CheckpointReference) : ReferenceRows lib nextID (rows ++ [r]) ↔
      r.Readable lib nextID ∧ lastKey CheckpointReference.key rows < r.key ∧ ∀ a ∈ rows, a.storageID ≠ r.storageID := by
  constructor
  · intro all
    have readable := all.readable r (by simp)
    exact ⟨readable, lastKey_lt_snoc all.ascending (CheckpointReference.key_ne readable.named), fun a mem =>
      (pairwise_append.1 all.ids).2.2 a mem r (by simp)⟩
  · rintro ⟨readable, later, fresh⟩
    exact ⟨forall_mem_append.2 ⟨before.readable, forall_mem_singleton.2 readable⟩,
      ascending_snoc before.ascending later,
      pairwise_append.2 ⟨before.ids, pairwise_singleton .., by simpa using fresh⟩⟩

/-! ## One reference -/

variable {r : CheckpointReference} {last ref : String} {out : Restoring × String} {st : Restoring} {e : Entry}

theorem compactRow_ok {value : Option Indexed} :
    compactRow c r = .ok value ↔ value = r.document.map (indexDocument c.lib) ∧
      ∀ {d}, r.document = some d → d.ref = r.ref ∧ d.revision = r.revision ∧ (indexDocument c.lib d).Compacted c.lib := by
  unfold compactRow
  cases found : r.document with
  | none => simp [eq_comm]
  | some d =>
    constructor
    · intro h
      obtain ⟨same, h⟩ := of_refuse h
      obtain ⟨⟨indexed, digest⟩, compacted, h⟩ := of_bind h
      simp only [Bool.or_eq_false_iff, bne_eq_false_iff_eq] at same
      obtain ⟨-, -, -, rfl, -⟩ := compact_ok compacted
      refine ⟨(Except.ok.inj h).symm, ?_⟩
      rintro _ ⟨⟩
      exact ⟨same.1, same.2, digest, compacted⟩
    · rintro ⟨rfl, document⟩
      obtain ⟨ref, revision, digest, compacted⟩ := document rfl
      refine refuse_bind_eq_ok.2 ⟨by simp [ref, revision], bind_eq_ok.2 ⟨_, compacted, rfl⟩⟩

/-- The state with one more reference. -/
def Restoring.withReference (lib : Library) (st : Restoring) (r : CheckpointReference) : Restoring where
  next := { insertValue st.next r.storageID (r.entry lib).value with
    refs := (insertValue st.next r.storageID (r.entry lib).value).refs.put r.key (r.entry lib) }
  hashed := st.hashed ++ frame r.toJson
  references := st.references + 1
  revisions := st.revisions
  allocated := setAdd st.next.level st.allocated 0 r.storageID

theorem absorbReference_ok :
    absorbReference c header (st, last) r = .ok out ↔ r.Readable c.lib header.nextID ∧ last < r.key ∧
      (setAdd st.next.level st.allocated 0 r.storageID).count ≠ st.allocated.count ∧
      out = (st.withReference c.lib r, r.key) := by
  constructor
  · intro h
    obtain ⟨parsed, h⟩ := of_refuse h
    obtain ⟨order, h⟩ := of_refuse h
    obtain ⟨fresh, h⟩ := of_refuse h
    obtain ⟨value, compacted, h⟩ := of_bind h
    obtain ⟨hashed, framed, h⟩ := of_bind h
    obtain ⟨rfl, document⟩ := compactRow_ok.1 compacted
    obtain ⟨-, rfl⟩ : r.encodable ∧ hashed = st.hashed ++ frame r.toJson := by
      obtain ⟨encodable, framed⟩ := of_refuse framed
      exact ⟨by simpa using encodable, (Except.ok.inj framed).symm⟩
    rw [isNone_parse, decide_eq_false_iff_not] at parsed
    simp only [Bool.or_eq_false_iff, decide_eq_false_iff_not, not_le, not_lt, beq_eq_false_iff_ne] at order fresh
    exact ⟨⟨parsed, order.1.1.2, ⟨order.1.2, order.2⟩, document⟩, order.1.1.1, fresh, (Except.ok.inj h).symm⟩
  · rintro ⟨readable, later, fresh, rfl⟩
    refine refuse_bind_eq_ok.2 ⟨?_, refuse_bind_eq_ok.2 ⟨?_, refuse_bind_eq_ok.2 ⟨?_, ?_⟩⟩⟩
    · rw [isNone_parse, decide_eq_false readable.named]
    · simp only [Bool.or_eq_false_iff, decide_eq_false_iff_not, not_le, not_lt, beq_eq_false_iff_ne]
      exact ⟨⟨⟨later, readable.id⟩, readable.revision.1⟩, readable.revision.2⟩
    · exact beq_eq_false_iff_ne.2 fresh
    refine bind_eq_ok.2 ⟨_, compactRow_ok.2 ⟨rfl, readable.document⟩, bind_eq_ok.2 ⟨st.hashed ++ frame r.toJson, ?_, rfl⟩⟩
    exact refuse_bind_eq_ok.2 ⟨by rw [readable.encodable]; rfl, rfl⟩

/-! ## The index of the references read so far -/

/-- A new reference without a document. -/
theorem core_put_none (core : g.Core lib) (placed : g.Placed ref e)
    (missing : g.refs.get ref = none) (empty : e.value = none) :
    Generation.Core lib { g with refs := g.refs.put ref e } := by
  have live : g.live.Perm (Generation.live { g with refs := g.refs.put ref e }) := by
    have same := live_put_perm g.refs ref e
    rw [toList_remove_of_get missing, empty] at same
    exact same.symm
  -- the entries after the write: the written one, and the old ones
  have entries : ∀ {ref' e'}, (g.refs.put ref e).get ref' = some e' →
      ref' = ref ∧ e' = e ∨ g.refs.get ref' = some e' := by
    intro ref' e' found
    rw [get_put] at found
    split at found
    case isTrue here => exact .inl ⟨here, (Option.some.inj found).symm⟩
    case isFalse => exact .inr found
  refine { core with
    docs := core.docs.trans live, stats := core.stats.perm live
    bytes := core.bytes.trans (live.map Indexed.encodedBytes).sum_eq
    slots := ?slots, filled := ?filled, ids := ?ids, unique := ?unique, values := ?values }
  case slots =>
    intro ref' e' found
    rcases entries found with ⟨-, rfl⟩ | found
    · exact placed.slot
    · exact core.slots found
  case filled =>
    intro i d inside found
    obtain ⟨e', entry, same⟩ := core.filled inside found
    refine ⟨e', ?_, same⟩
    have other : d.ref ≠ ref := by
      rintro rfl
      rw [missing] at entry
      cases entry
    exact (get_put g.refs ref e d.ref).trans ((if_neg other).trans entry)
  case ids =>
    intro ref' e' found
    rcases entries found with ⟨-, rfl⟩ | found
    · exact placed.id
    · exact core.ids found
  case unique =>
    intro ref' ref'' e' e'' found found' same
    rcases entries found with ⟨here, rfl⟩ | old <;> rcases entries found' with ⟨here', rfl⟩ | old'
    · exact here.trans here'.symm
    · exact here.trans (placed.owner old' same.symm).symm
    · exact (placed.owner old same).trans here'.symm
    · exact core.unique old old' same
  case values =>
    intro ref' e' d found value
    rcases entries found with ⟨-, rfl⟩ | found
    · rw [empty] at value
      cases value
    · exact core.values found value

theorem Generation.Core.bytes_lt (core : g.Core lib) : g.bytes < 2 ^ 64 := by
  rw [core.bytes]
  exact core.small_live.bytes

/-- A new reference, as `replaceValue` would write it. -/
theorem insertValue_core (core : g.Core lib) (missing : g.refs.get ref = none)
    (inside : e.id < g.nextID) (fresh : ∀ {ref' e'}, g.refs.get ref' = some e' → e'.id ≠ e.id)
    (fits : ∀ d, e.value = some d → d.ref = ref ∧ d.Compacted lib) :
    Generation.Core lib { insertValue g e.id e.value with refs := (insertValue g e.id e.value).refs.put ref e } := by
  have slot : g.root.get g.level e.id = none := by
    cases found : g.root.get g.level e.id with
    | none => rfl
    | some d =>
      obtain ⟨e', entry, same⟩ := core.filled (inside.trans_le core.room) found
      exact absurd same (fresh entry)
  have placed : g.Placed ref ⟨e.id, none, e.revision⟩ :=
    ⟨.inr ⟨missing, rfl⟩, inside, slot, fun found same => absurd same (fresh found)⟩
  obtain ⟨id, value, revision⟩ := e
  cases value with
  | none => exact core_put_none core placed missing rfl
  | some d =>
    have written := replaceValue_core core placed fits revision
    have nothing : sub64 g.bytes (encodedBytes none) = g.bytes := sub64_eq (Nat.zero_le _) core.bytes_lt
    unfold replaceValue at written
    rw [nothing] at written
    exact written

/-- The generation of the rows read so far, and what was hashed of them. -/
structure Rebuilding (c : Config S) (header : CheckpointHeader S) (refRows : List CheckpointReference)
    (revRows : List CheckpointRevision) (st : Restoring) : Prop where
  rows : ReferenceRows c.lib header.nextID refRows
  core : st.next.Core c.lib
  labels : (emptyGeneration header).SameLabels st.next
  refs : st.next.refs.toList = refRows.map fun r => (r.key, r.entry c.lib)
  seen : st.next.seen.toList = revRows.map fun r => (r.key, r.sha256)
  allocated : st.allocated.WellFormed st.next.level
  used : ∀ i < spanOf st.next.level, st.allocated.mem st.next.level i ↔ ∃ r ∈ refRows, r.storageID = i
  hashed : st.hashed = hashHeader c header ++ refRows.flatMap (fun r => frame r.toJson) ++
    revRows.flatMap fun r => frame r.toJson
  references : st.references = refRows.length
  revisions : st.revisions = revRows.length

namespace Rebuilding

variable {refRows : List CheckpointReference} {revRows : List CheckpointRevision} {st : Restoring}

theorem mem_refs (built : Rebuilding c header refRows revRows st) {ref : String} {e : Entry} :
    st.next.refs.get ref = some e ↔ ∃ r ∈ refRows, r.key = ref ∧ r.entry c.lib = e := by
  rw [get_eq_some, built.refs, mem_map]
  simp only [Prod.mk.injEq]

/-- The count of the set of ids tells whether the id of a row is new. -/
theorem fresh_iff (built : Rebuilding c header refRows revRows st) {id : Nat} (inside : id < header.nextID) :
    (setAdd st.next.level st.allocated 0 id).count ≠ st.allocated.count ↔ ∀ a ∈ refRows, a.storageID ≠ id := by
  have bound : id < spanOf st.next.level := by
    refine lt_of_lt_of_le ?_ built.core.room
    rw [built.labels.nextID]
    exact inside
  have added : Added st.next.level st.allocated (setAdd st.next.level st.allocated 0 id) id :=
    setAdd_added built.allocated (Nat.zero_le _) (by omega)
  rw [added.count built.allocated bound]
  cases present : st.allocated.mem st.next.level id with
  | true =>
    obtain ⟨r, mem, same⟩ := (built.used id bound).1 present
    simp only [if_true, Nat.add_zero, ne_eq, not_true_eq_false, false_iff]
    exact fun fresh => fresh r mem same
  | false =>
    simp only [Bool.false_eq_true, if_false, ne_eq, Nat.add_eq_left, one_ne_zero, not_false_eq_true, true_iff]
    intro a mem same
    rw [(built.used id bound).2 ⟨a, mem, same⟩] at present
    cases present

theorem withReference (built : Rebuilding c header refRows [] st) {r : CheckpointReference}
    (rows : ReferenceRows c.lib header.nextID (refRows ++ [r])) :
    Rebuilding c header (refRows ++ [r]) [] (st.withReference c.lib r) := by
  have readable := rows.readable r (by simp)
  have later : ∀ a ∈ refRows, a.key < r.key := fun a mem =>
    (pairwise_append.1 rows.ascending).2.2 a mem r (by simp)
  have apart : ∀ a ∈ refRows, a.storageID ≠ r.storageID := fun a mem =>
    (pairwise_append.1 rows.ids).2.2 a mem r (by simp)
  have inside : r.storageID < st.next.nextID := by
    rw [built.labels.nextID]
    exact readable.id
  have missing : st.next.refs.get r.key = none := by
    refine Option.eq_none_iff_forall_ne_some.2 fun e found => ?_
    obtain ⟨a, mem, same, -⟩ := built.mem_refs.1 found
    exact absurd same (later a mem).ne
  have core := insertValue_core (e := r.entry c.lib) built.core missing inside ?_ ?_
  · have same : (insertValue st.next r.storageID (r.entry c.lib).value).refs = st.next.refs ∧
        (insertValue st.next r.storageID (r.entry c.lib).value).seen = st.next.seen ∧
        st.next.SameLabels (insertValue st.next r.storageID (r.entry c.lib).value) := by
      cases (r.entry c.lib).value <;> exact ⟨rfl, rfl, { }⟩
    obtain ⟨refs, seen, labels⟩ := same
    have added : Added st.next.level st.allocated (setAdd st.next.level st.allocated 0 r.storageID) r.storageID :=
      setAdd_added built.allocated (Nat.zero_le _) (by have := built.core.room; omega)
    have level : (st.withReference c.lib r).next.level = st.next.level := labels.level
    constructor
    case rows => exact rows
    case core => exact core
    case labels =>
      obtain ⟨number, nextID, level, versions, sequence, floor, cursor, hash⟩ := built.labels
      exact ⟨labels.number.trans number, labels.nextID.trans nextID, labels.level.trans level,
        labels.versions.trans versions, labels.sourceSequence.trans sequence, labels.replayFloor.trans floor,
        labels.cursor.trans cursor, labels.commitHash.trans hash⟩
    case refs =>
      have last : ∀ a ∈ st.next.refs.toList, a.1 < r.key := by
        intro a mem
        rw [built.refs] at mem
        obtain ⟨row, listed, rfl⟩ := mem_map.1 mem
        exact later row listed
      change ((insertValue st.next r.storageID (r.entry c.lib).value).refs.put r.key (r.entry c.lib)).toList = _
      rw [refs, toList_put_last last, built.refs, map_append]
      rfl
    case seen => exact (congrArg Dictionary.toList seen).trans built.seen
    case allocated =>
      rw [level]
      exact added.wellFormed
    case used =>
      intro i bound
      rw [level] at bound ⊢
      have mem := added.mem i bound
      change (setAdd st.next.level st.allocated 0 r.storageID).mem st.next.level i ↔ _
      rw [mem, Bool.or_eq_true, decide_eq_true_eq, built.used i bound]
      simp only [mem_append, mem_singleton]
      constructor
      · rintro (rfl | ⟨a, mem, same⟩)
        · exact ⟨r, .inr rfl, rfl⟩
        · exact ⟨a, .inl mem, same⟩
      · rintro ⟨a, mem | rfl, same⟩
        · exact .inr ⟨a, mem, same⟩
        · exact .inl same.symm
    case hashed =>
      change st.hashed ++ frame r.toJson = _
      rw [built.hashed]
      simp
    case references =>
      change st.references + 1 = _
      rw [built.references, length_append, length_singleton]
    case revisions => exact built.revisions
  · intro ref' e' found
    obtain ⟨a, mem, -, rfl⟩ := built.mem_refs.1 found
    exact apart a mem
  · intro d value
    obtain ⟨doc, found, rfl⟩ := Option.map_eq_some_iff.1 value
    obtain ⟨ref, -, compacted⟩ := readable.document found
    exact ⟨congrArg EndpointRef.toString ref, compacted⟩

end Rebuilding

/-- The first section. -/
def referenceReader (c : Config S) (header : CheckpointHeader S) :
    Reader c header checkpointReferences CheckpointReference where
  key := CheckpointReference.key
  rowsOf := CheckpointPage.references
  plain p := p.revisions = [] ∧ p.references.length ≤ maxBatchDocuments
  absorb := absorbReference c header
  limit := header.referenceRows
  accepts := ReferenceRows c.lib header.nextID
  built rows st := Rebuilding c header rows [] st
  page_ok := by
    intro after st p out
    unfold absorbPage
    rw [if_pos rfl, refuse_bind_eq_ok, bind_eq_ok]
    simp only [Bool.or_eq_false_iff, bne_eq_false_iff_eq, decide_eq_false_iff_not, not_lt, length_eq_zero_iff, Prod.exists]
    refine and_congr_right fun _ => exists_congr fun st' => exists_congr fun last => and_congr_right fun _ => ?_
    exact ⟨fun h => (Except.ok.inj h).symm, fun h => h ▸ rfl⟩
  step := by
    intro rows st built r
    have cases_of := referenceRows_snoc built.rows r
    cases read : absorbReference c header (st, lastKey CheckpointReference.key rows) r with
    | ok out =>
      obtain ⟨readable, later, fresh, rfl⟩ := absorbReference_ok.1 read
      exact .inl ⟨_, rfl, built.withReference (cases_of.2 ⟨readable, later, (built.fresh_iff readable.id).1 fresh⟩)⟩
    | error e =>
      refine .inr ⟨fun accepted => ?_, e, rfl⟩
      obtain ⟨readable, later, fresh⟩ := cases_of.1 accepted
      rw [absorbReference_ok.2 ⟨readable, later, (built.fresh_iff readable.id).2 fresh, rfl⟩] at read
      cases read
  accepted built := built.rows
  initial all := ⟨fun r mem => all.readable r (mem_append_left _ mem),
    (pairwise_append.1 all.ascending).1, (pairwise_append.1 all.ids).1⟩
  ascending all := all.ascending
  named all r mem := CheckpointReference.key_ne (all.readable r mem).named
  counted built := by
    rw [built.references, built.revisions]
    simp

/-! ## The ledger -/

/-- The rows of the revisions of the references of some generation. -/
structure RevisionRows (refRows : List CheckpointReference) (rows : List CheckpointRevision) : Prop where
  identity : ∀ r ∈ rows, ∃ a ∈ refRows, ∃ revision, r.key = historyKey a.key revision ∧ revision ≠ "" ∧
    revision.utf8ByteSize ≤ 256
  digest : ∀ r ∈ rows, validDigest r.sha256
  ascending : rows.Pairwise fun a b => a.key < b.key

theorem historyKey_ne (ref revision : String) : historyKey ref revision ≠ "" := by
  intro empty
  have chars := congrArg String.toList empty
  rw [historyKey_toList] at chars
  simp at chars

theorem splitKey_eq {key revision : String} (h : splitKey key = some (ref, revision)) : key = historyKey ref revision := by
  unfold splitKey at h
  split at h
  case h_1 => cases h
  case h_2 separator rest cut =>
    obtain ⟨rfl, rfl⟩ := Prod.mk.inj (Option.some.inj h)
    have parts := takeWhile_append_dropWhile (p := (· ≠ '\x00')) (l := key.toList)
    have nul : separator = '\x00' := by
      have head := head?_dropWhile_not (fun ch => decide (ch ≠ '\x00')) key.toList
      rw [cut] at head
      simpa using head
    refine String.toList_injective ?_
    rw [cut, nul] at parts
    rw [historyKey_toList, String.toList_ofList, String.toList_ofList, parts]

theorem splitKey_historyKey (r : EndpointRef) (revision : String) :
    splitKey (historyKey r.toString revision) = some (r.toString, revision) := by
  obtain ⟨before, after⟩ := historyKey_cut r revision
  unfold splitKey
  rw [after, before]
  simp

/-- The state with one more revision. -/
def Restoring.withRevision (st : Restoring) (r : CheckpointRevision) : Restoring :=
  { st with
    next := { st.next with seen := st.next.seen.put r.key r.sha256 }
    hashed := frameRevision st.hashed r
    revisions := st.revisions + 1 }

theorem absorbRevision_ok {r : CheckpointRevision} :
    absorbRevision (st, last) r = .ok out ↔ last < r.key ∧ validDigest r.sha256 ∧
      (∃ ref revision, splitKey r.key = some (ref, revision) ∧ revision ≠ "" ∧ revision.utf8ByteSize ≤ 256 ∧
        (st.next.refs.get ref).isSome) ∧ out = (st.withRevision r, r.key) := by
  constructor
  · intro h
    obtain ⟨order, h⟩ := of_refuse h
    simp only [Bool.or_eq_false_iff, decide_eq_false_iff_not, not_le, Bool.not_eq_false'] at order
    split at h
    case h_1 => cases h
    case h_2 ref revision cut =>
      obtain ⟨identity, h⟩ := of_refuse h
      obtain ⟨known, h⟩ := of_refuse h
      simp only [Bool.or_eq_false_iff, decide_eq_false_iff_not, not_lt, beq_eq_false_iff_ne] at identity
      refine ⟨order.1, order.2, ⟨ref, revision, cut, identity.1, identity.2, ?_⟩, (Except.ok.inj h).symm⟩
      exact Option.isNone_eq_false_iff.1 known
  · rintro ⟨later, digest, ⟨ref, revision, cut, nonempty, short, known⟩, rfl⟩
    refine refuse_bind_eq_ok.2 ⟨by simp [later, digest], ?_⟩
    rw [cut]
    refine refuse_bind_eq_ok.2 ⟨by simp [nonempty, short], refuse_bind_eq_ok.2 ⟨?_, rfl⟩⟩
    exact Option.isNone_eq_false_iff.2 known

namespace Rebuilding

variable {refRows : List CheckpointReference} {revRows : List CheckpointRevision} {st : Restoring}

/-- A key that is cut at its first separator names a revision of a reference that was read. -/
theorem identity_iff (built : Rebuilding c header refRows revRows st) (key : String) :
    (∃ ref revision, splitKey key = some (ref, revision) ∧ revision ≠ "" ∧ revision.utf8ByteSize ≤ 256 ∧
        (st.next.refs.get ref).isSome) ↔
      ∃ a ∈ refRows, ∃ revision, key = historyKey a.key revision ∧ revision ≠ "" ∧ revision.utf8ByteSize ≤ 256 := by
  constructor
  · rintro ⟨ref, revision, cut, nonempty, short, known⟩
    obtain ⟨e, found⟩ := Option.isSome_iff_exists.1 known
    obtain ⟨a, mem, rfl, -⟩ := built.mem_refs.1 found
    exact ⟨a, mem, revision, splitKey_eq cut, nonempty, short⟩
  · rintro ⟨a, mem, revision, rfl, nonempty, short⟩
    refine ⟨a.key, revision, splitKey_historyKey a.ref revision, nonempty, short, ?_⟩
    rw [built.mem_refs.2 ⟨a, mem, rfl, rfl⟩]
    rfl

theorem withRevision (built : Rebuilding c header refRows revRows st) {r : CheckpointRevision}
    (later : ∀ a ∈ revRows, a.key < r.key) : Rebuilding c header refRows (revRows ++ [r]) (st.withRevision r) where
  __ := built
  core := built.core.same
  labels := { built.labels with }
  seen := by
    have last : ∀ a ∈ st.next.seen.toList, a.1 < r.key := by
      intro a mem
      rw [built.seen] at mem
      obtain ⟨row, listed, rfl⟩ := mem_map.1 mem
      exact later row listed
    change (st.next.seen.put r.key r.sha256).toList = _
    rw [toList_put_last last, built.seen, map_append]
    rfl
  hashed := by
    change st.hashed ++ frame r.toJson = _
    rw [built.hashed]
    simp
  revisions := by
    change st.revisions + 1 = _
    rw [built.revisions, length_append, length_singleton]

end Rebuilding

/-- One more row. -/
theorem revisionRows_snoc {refRows : List CheckpointReference} {rows : List CheckpointRevision}
    (before : RevisionRows refRows rows) (r : CheckpointRevision) : RevisionRows refRows (rows ++ [r]) ↔
      lastKey CheckpointRevision.key rows < r.key ∧ validDigest r.sha256 ∧
        ∃ a ∈ refRows, ∃ revision, r.key = historyKey a.key revision ∧ revision ≠ "" ∧ revision.utf8ByteSize ≤ 256 := by
  constructor
  · intro all
    have identity := all.identity r (by simp)
    refine ⟨?_, all.digest r (by simp), identity⟩
    obtain ⟨a, -, revision, key_is, -⟩ := identity
    have named : r.key ≠ "" := key_is ▸ historyKey_ne _ _
    exact lastKey_lt_snoc all.ascending named
  · rintro ⟨later, digest, identity⟩
    exact ⟨forall_mem_append.2 ⟨before.identity, forall_mem_singleton.2 identity⟩,
      forall_mem_append.2 ⟨before.digest, forall_mem_singleton.2 digest⟩, ascending_snoc before.ascending later⟩

/-- The second section. -/
def revisionReader (c : Config S) (header : CheckpointHeader S) (refRows : List CheckpointReference)
    (complete : refRows.length ≤ header.referenceRows) : Reader c header checkpointRevisions CheckpointRevision where
  key := CheckpointRevision.key
  rowsOf := CheckpointPage.revisions
  plain p := p.references = [] ∧ p.revisions.length ≤ maxBatchDocuments
  absorb := absorbRevision
  limit := header.revisionRows
  accepts := RevisionRows refRows
  built rows st := RevisionRows refRows rows ∧ Rebuilding c header refRows rows st
  page_ok := by
    intro after st p out
    unfold absorbPage
    rw [if_neg (by decide), refuse_bind_eq_ok, bind_eq_ok]
    simp only [Bool.or_eq_false_iff, bne_eq_false_iff_eq, decide_eq_false_iff_not, not_lt, length_eq_zero_iff, Prod.exists]
    refine and_congr_right fun _ => exists_congr fun st' => exists_congr fun last => and_congr_right fun _ => ?_
    exact ⟨fun h => (Except.ok.inj h).symm, fun h => h ▸ rfl⟩
  step := by
    rintro rows st ⟨accepted, built⟩ r
    have cases_of := revisionRows_snoc accepted r
    cases read : absorbRevision (st, lastKey CheckpointRevision.key rows) r with
    | ok out =>
      obtain ⟨later, digest, identity, rfl⟩ := absorbRevision_ok.1 read
      have all := cases_of.2 ⟨later, digest, (built.identity_iff r.key).1 identity⟩
      refine .inl ⟨_, rfl, all, built.withRevision fun a mem => ?_⟩
      exact (pairwise_append.1 all.ascending).2.2 a mem r (by simp)
    | error e =>
      refine .inr ⟨fun all => ?_, e, rfl⟩
      obtain ⟨later, digest, identity⟩ := cases_of.1 all
      rw [absorbRevision_ok.2 ⟨later, digest, (built.identity_iff r.key).2 identity, rfl⟩] at read
      cases read
  accepted built := built.1
  initial all := ⟨fun r mem => all.identity r (mem_append_left _ mem),
    fun r mem => all.digest r (mem_append_left _ mem), (pairwise_append.1 all.ascending).1⟩
  ascending all := all.ascending
  named all r mem := by
    obtain ⟨a, -, revision, key_is, -⟩ := all.identity r mem
    exact key_is ▸ historyKey_ne _ _
  counted := by
    rintro rows st ⟨-, built⟩
    rw [built.references, built.revisions, decide_eq_false (not_lt.2 complete), Bool.false_or]

end Pagnet.Search
