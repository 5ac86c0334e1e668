import Pagnet.Search.Publication

/-!
# Checkpoints

`fabric/search/checkpoint.go`: a generation is written as a header and pages of
rows, which carry their own checksums, and is built again from them. The digest
of the header commits to the rows and not to how they are cut into pages.
-/

namespace Pagnet.Search
open Json Fabric

variable {S : Type}

def checkpointReferences : String := "refs"

def checkpointRevisions : String := "revisions"

structure CheckpointHeader (S : Type) where
  sourceOrder : String
  sourceSequence : Nat
  replayFloor : Nat
  format : Nat
  tokenizer : String
  scorer : String
  parameters : Parameters S
  generation : Nat
  nextID : Nat
  span : Nat
  upstreamCursor : String
  rootCommitSHA256 : String
  referenceRows : Nat
  revisionRows : Nat
  liveDocuments : Nat
  totalLength : Nat
  sha256 : String

structure CheckpointReference where
  ref : EndpointRef
  storageID : Nat
  revision : String
  document : Option SearchDocument
  deriving DecidableEq

structure CheckpointRevision where
  key : String
  sha256 : String
  deriving DecidableEq

structure CheckpointPage where
  generation : Nat
  «section» : String
  after : String
  next : String
  references : List CheckpointReference
  revisions : List CheckpointRevision
  sha256 : String
  deriving DecidableEq

/-- Section, key and page size to a page, or an error of the storage. -/
abbrev CheckpointLoader := String → String → Nat → Except String CheckpointPage

structure Checkpoint (S : Type) where
  generation : Pointer
  base : Nat
  header : CheckpointHeader S

/-! ## Encoded rows -/

/-- The encoding of a header without its digest. -/
def CheckpointHeader.toJson (scalar : Scalar S) (h : CheckpointHeader S) : Value :=
  .ofFields [("sourceOrder", .ofString h.sourceOrder), ("sourceSequence", .ofInt h.sourceSequence),
    ("replayFloor", .ofInt h.replayFloor), ("format", .ofInt h.format), ("tokenizer", .ofString h.tokenizer),
    ("scorer", .ofString h.scorer), ("parameters", h.parameters.toJson scalar), ("generation", .ofInt h.generation),
    ("nextId", .ofInt h.nextID), ("span", .ofInt h.span), ("upstreamCursor", .ofString h.upstreamCursor),
    ("rootCommitSHA256", .ofString h.rootCommitSHA256), ("referenceRows", .ofInt h.referenceRows),
    ("revisionRows", .ofInt h.revisionRows), ("liveDocuments", .ofInt h.liveDocuments),
    ("totalLength", .ofInt h.totalLength), ("sha256", .ofString "")]

def documentJson : Option SearchDocument → Value
  | none => .null
  | some d => d.toJson

def CheckpointReference.toJson (r : CheckpointReference) : Value :=
  .ofFields [("ref", .ofString r.ref.toString), ("storageId", .ofInt r.storageID), ("revision", .ofString r.revision),
    ("document", documentJson r.document)]

def CheckpointReference.encodable (r : CheckpointReference) : Bool :=
  r.ref ≠ .zero && r.document.all fun d => d.ref ≠ .zero && d.encodable

def CheckpointRevision.toJson (r : CheckpointRevision) : Value :=
  .ofFields [("key", .ofString r.key), ("sha256", .ofString r.sha256)]

/-- The encoding of a page without its checksum. -/
def CheckpointPage.toJson (p : CheckpointPage) : Value :=
  .ofFields ([("generation", .ofInt p.generation), ("section", .ofString p.section), ("after", .ofString p.after),
    ("next", .ofString p.next)] ++
    omitEmpty "references" [] (fun rows => .ofList (rows.map CheckpointReference.toJson)) p.references ++
    omitEmpty "revisions" [] (fun rows => .ofList (rows.map CheckpointRevision.toJson)) p.revisions ++
    [("sha256", .ofString "")])

variable (c : Config S)

def checksumPage (p : CheckpointPage) : Except Error String := do
  refuse (!p.references.all CheckpointReference.encodable) .unencodable
  refuse (maxCommitBytes < p.toJson.size) (.invalidInput "Checkpoint page byte budget exceeded")
  return c.lib.digest p.toJson.render

/-- `binary.BigEndian.PutUint64`. -/
def bigEndian64 (n : Nat) : List UInt8 := (List.range 8).map fun i => UInt8.ofNat (n / 256 ^ (7 - i))

/-- What `hashFrame` writes: the length of an encoding, and the encoding. -/
def frame (v : Value) : List UInt8 := bigEndian64 v.size ++ bytesOf v.render

def frameReference (hashed : List UInt8) (r : CheckpointReference) : Except Error (List UInt8) := do
  refuse (!r.encodable) .unencodable
  return hashed ++ frame r.toJson

def frameRevision (hashed : List UInt8) (r : CheckpointRevision) : List UInt8 := hashed ++ frame r.toJson

variable (header : CheckpointHeader S)

def hashHeader : List UInt8 :=
  bytesOf "pagnet.fabric.search-checkpoint.v1\x00".toList ++ frame (header.toJson c.scalar)

/-! ## Writing a checkpoint -/

/-- `referenceRow`, which panics on a reference that is not canonical. -/
def referenceRow (ref : String) (e : Entry) : Except Error CheckpointReference :=
  match parseEndpointRef ref with
  | none => .error (.crash "validated internal reference became invalid")
  | some parsed => .ok ⟨parsed, e.id, e.revision, e.value.map (·.doc)⟩

variable (g : Generation)

/-- Keep the digest of the current revision of a reference. -/
def keepRevision (kept : Dictionary String String × Nat) (ref : String) (e : Entry) :
    Except Error (Dictionary String String × Nat) :=
  match g.seen.get (historyKey ref e.revision) with
  | none => .error (.protocolError "Current revision digest missing")
  | some digest => .ok (kept.1.put (historyKey ref e.revision) digest, kept.2 + 1)

/-- The generation without the digests of superseded revisions. -/
def compactHistory : Except Error Generation := do
  refuse (c.replayOrder.isNone || g.sourceSequence == 0)
    (.invalidInput "Replay floor requires an attested ordered source cursor")
  let kept ← g.refs.each (keepRevision g) (.empty, 0)
  return { g with seen := kept.1, versions := kept.2, replayFloor := g.sourceSequence }

def checkpointHeader : CheckpointHeader S :=
  { sourceOrder := c.sourceOrder, sourceSequence := g.sourceSequence, replayFloor := g.replayFloor,
    format := formatVersion, tokenizer := c.lib.tokenizerVersion, scorer := scorerVersion, parameters := c.parameters,
    generation := g.number, nextID := g.nextID, span := spanOf g.level, upstreamCursor := g.cursor,
    rootCommitSHA256 := g.commitHash, referenceRows := g.nextID, revisionRows := g.versions,
    liveDocuments := g.stats.count, totalLength := g.stats.totalLength, sha256 := "" }

/-- The bytes the digest of a checkpoint is taken of. -/
def hashGeneration : Except Error (List UInt8) := do
  let hashed ← g.refs.each (fun hashed ref e => do frameReference hashed (← referenceRow ref e))
    (hashHeader c (checkpointHeader c g))
  g.seen.each (fun hashed key digest => .ok (frameRevision hashed ⟨key, digest⟩)) hashed

/-- The generation a checkpoint is of: the current one, or a copy of it without old revisions. -/
def pinGeneration (b : Backend) (compacted : Bool) : Except Error (Backend × Pointer) :=
  if compacted then (compactHistory c b.current.generation).map b.allocate else .ok (b, b.current)

/-- `Checkpoint`, or `CheckpointAtReplayFloor` for a compacted history. -/
def makeCheckpoint (b : Backend) (compacted : Bool) : Except Error (Backend × Checkpoint S) := do
  let (b, p) ← pinGeneration c b compacted
  let hashed ← hashGeneration c p.generation
  return (b, ⟨p, b.current.address,
    { checkpointHeader c p.generation with sha256 := hexEncode (c.lib.sha256 hashed) }⟩)

/-- Cut the rows of a page: those it shows, and the key the next page starts after. -/
def cutRows {ν : Type} (rows : List (String × ν)) (limit : Nat) : List (String × ν) × String :=
  if limit < rows.length then (rows.take limit, ((rows[limit - 1]?).map (·.1)).getD "") else (rows, "")

/-- The rows of a page and the key of the next one. -/
def pageRows (ck : Checkpoint S) (part after : String) (limit : Nat) :
    Except Error (List CheckpointReference × List CheckpointRevision × String) :=
  if part = checkpointReferences then do
    let cut := cutRows (ck.generation.generation.refs.seekRows after (limit + 1)) limit
    let references ← cut.1.mapM fun row => referenceRow row.1 row.2
    return (references, [], cut.2)
  else if part = checkpointRevisions then
    let cut := cutRows (ck.generation.generation.seen.seekRows after (limit + 1)) limit
    .ok ([], cut.1.map fun row => ⟨row.1, row.2⟩, cut.2)
  else .error (.invalidInput "Unknown checkpoint section")

/-- `Checkpoint.Page`. -/
def page (c : Config S) (ck : Checkpoint S) (part after : String) (limit : Nat) : Except Error CheckpointPage := do
  refuse (limit < 1 || maxBatchDocuments < limit || 1024 < after.utf8ByteSize)
    (.invalidInput "Invalid checkpoint page request")
  let (references, revisions, next) ← pageRows ck part after limit
  let p : CheckpointPage := ⟨ck.header.generation, part, after, next, references, revisions, ""⟩
  let sum ← checksumPage c p
  return { p with sha256 := sum }

/-- `ActivateCheckpoint`. -/
def activateCheckpoint (b : Backend) (ck : Checkpoint S) : Except Error Backend := do
  refuse (b.current.address != ck.base) .staleGeneration
  return { b with current := ck.generation }

/-! ## Restoring a checkpoint -/

/-- What was built of the pages read so far. -/
structure Restoring where
  next : Generation
  hashed : List UInt8
  references : Nat
  revisions : Nat
  allocated : IdSet

/-- The document of a row, compacted. -/
def compactRow (r : CheckpointReference) : Except Error (Option Indexed) :=
  match r.document with
  | none => .ok none
  | some d => do
    refuse (d.ref != r.ref || d.revision != r.revision) (.invalidInput "Checkpoint descriptor identity differs")
    let (value, _) ← compact c.lib d
    return some value

/-- Put the value of a new entry in the tree and the statistics; none changes nothing. -/
def insertValue (id : Nat) : Option Indexed → Generation
  | none => g
  | some value =>
    { g with
      root := updateNode g.level g.root 0 id (some value) (keysUnion none (some value))
      stats := adjustStats g.stats (some value) true
      bytes := add64 g.bytes value.encodedBytes }

/-- Read a reference row after the one with the key `last`. -/
def absorbReference (acc : Restoring × String) (r : CheckpointReference) : Except Error (Restoring × String) := do
  let (st, last) := acc
  let ref := r.ref.toString
  refuse (parseEndpointRef ref).isNone (.invalidInput "invalid canonical endpoint reference")
  refuse (ref ≤ last || header.nextID ≤ r.storageID || r.revision == "" || 256 < r.revision.utf8ByteSize)
    (.invalidInput "Invalid checkpoint reference order/identity")
  let allocated := setAdd st.next.level st.allocated 0 r.storageID
  refuse (allocated.count == st.allocated.count) (.invalidInput "Duplicate checkpoint storage identity")
  let value ← compactRow c r
  let next := insertValue st.next r.storageID value
  let hashed ← frameReference st.hashed r
  return ({ next := { next with refs := next.refs.put ref ⟨r.storageID, value, r.revision⟩ }, hashed,
            references := st.references + 1, revisions := st.revisions, allocated }, ref)

/-- `strings.SplitN(key, "\x00", 2)`: what is in front of the first separator, and what follows. -/
def splitKey (key : String) : Option (String × String) :=
  match key.toList.dropWhile (· ≠ '\x00') with
  | [] => none
  | _ :: rest => some (String.ofList (key.toList.takeWhile (· ≠ '\x00')), String.ofList rest)

/-- Read a revision row after the one with the key `last`. -/
def absorbRevision (acc : Restoring × String) (r : CheckpointRevision) : Except Error (Restoring × String) := do
  let (st, last) := acc
  refuse (r.key ≤ last || !validDigest r.sha256) (.invalidInput "Invalid checkpoint revision order/digest")
  match splitKey r.key with
  | none => .error (.invalidInput "Invalid checkpoint revision identity")
  | some (ref, revision) =>
    refuse (revision == "" || 256 < revision.utf8ByteSize) (.invalidInput "Invalid checkpoint revision identity")
    refuse (st.next.refs.get ref).isNone (.invalidInput "Checkpoint revision lacks its reference")
    return ({ st with
              next := { st.next with seen := st.next.seen.put r.key r.sha256 }
              hashed := frameRevision st.hashed r
              revisions := st.revisions + 1 }, r.key)

/-- Read the rows of a page: the state, the last key and the number of rows. -/
def absorbPage (part after : String) (st : Restoring) (p : CheckpointPage) :
    Except Error (Restoring × String × Nat) :=
  if part = checkpointReferences then do
    refuse (p.revisions.length != 0 || maxBatchDocuments < p.references.length)
      (.invalidInput "Invalid checkpoint reference page")
    let (st, last) ← p.references.foldlM (absorbReference c header) (st, after)
    return (st, last, p.references.length)
  else do
    refuse (p.references.length != 0 || maxBatchDocuments < p.revisions.length)
      (.invalidInput "Invalid checkpoint revision page")
    let (st, last) ← p.revisions.foldlM absorbRevision (st, after)
    return (st, last, p.revisions.length)

def loadPage (load : CheckpointLoader) (part after : String) : Except Error CheckpointPage :=
  match load part after maxBatchDocuments with
  | .error message => .error (.callback message)
  | .ok p => .ok p

/-- Read the pages of a section from the key `after` on. Every page but the last
has a row that counts, so the rows of the header are enough fuel. -/
def loadSection (c : Config S) (header : CheckpointHeader S) (load : CheckpointLoader) (part : String) :
    Nat → String → Restoring → Except Error Restoring
  | 0, _, _ => .error (.crash "out of fuel")
  | fuel + 1, after, st => do
    let p ← loadPage load part after
    let sum ← checksumPage c p
    refuse (p.sha256 != sum || p.section != part || p.generation != header.generation || p.after != after)
      (.invalidInput "Corrupt or mixed checkpoint page")
    let (st, last, rows) ← absorbPage c header part after st p
    refuse (header.referenceRows < st.references || header.revisionRows < st.revisions)
      (.invalidInput "Checkpoint row count exceeded")
    if p.next = "" then return st
    else do
      refuse (rows == 0 || p.next != last || p.next ≤ after) (.invalidInput "Invalid checkpoint continuation")
      loadSection c header load part fuel p.next st

/-- The header continues an ordered source, or none. -/
def checkSource : Except Error Unit := do
  refuse (header.sourceOrder != c.sourceOrder || header.sourceSequence < header.replayFloor ||
    (c.replayOrder.isNone && (header.sourceSequence != 0 || header.replayFloor != 0)))
    (.invalidInput "Checkpoint ordered source mismatch")
  match c.replayOrder with
  | none => return ()
  | some order =>
    refuse (0 < header.generation && order.sequence header.upstreamCursor != .ok header.sourceSequence)
      (.invalidInput "Checkpoint ordered cursor mismatch")

/-- The bounds and versions a header must have. -/
def headerInvalid [DecidableEq S] (c : Config S) (h : CheckpointHeader S) : Bool :=
  h.format != formatVersion || h.tokenizer != c.lib.tokenizerVersion || h.scorer != scorerVersion ||
    h.parameters != c.parameters || maxDocuments < h.nextID || h.span < leafSize || maxDocuments < h.span ||
    h.span &&& (h.span - 1) != 0 || h.span < h.nextID || h.referenceRows != h.nextID ||
    maxRevisions < h.revisionRows || h.referenceRows < h.liveDocuments ||
    h.liveDocuments * maxDocumentBytes < h.totalLength || !validDigest h.sha256 ||
    (h.generation == 0 && h.rootCommitSHA256 != "") || (0 < h.generation && !validDigest h.rootCommitSHA256) ||
    4096 < h.upstreamCursor.utf8ByteSize

/-- The checks of a header against the configuration and the current generation. -/
def checkHeader [DecidableEq S] (c : Config S) (base : Generation) (h : CheckpointHeader S) : Except Error Unit := do
  checkSource c h
  refuse (h.generation == 0 && (h.nextID != 0 || h.revisionRows != 0 || h.sourceSequence != 0 || h.replayFloor != 0 ||
    h.upstreamCursor != "" || h.liveDocuments != 0 || h.totalLength != 0))
    (.invalidInput "Initial checkpoint must be empty")
  refuse (h.generation < base.number || (h.generation == base.number && h.rootCommitSHA256 != base.commitHash))
    .staleGeneration
  refuse (headerInvalid c h) (.invalidInput "Invalid checkpoint header")

/-- The generation the rows are put in. -/
def emptyGeneration (h : CheckpointHeader S) : Generation :=
  { Generation.initial with
    sourceSequence := h.sourceSequence, replayFloor := h.replayFloor, number := h.generation, nextID := h.nextID,
    level := (h.span / leafSize).log2, cursor := h.upstreamCursor, commitHash := h.rootCommitSHA256,
    versions := h.revisionRows }

/-- The current revision of a restored entry is in the ledger with the digest of its document. -/
def checkEntry (ref : String) (e : Entry) : Except Error Unit :=
  match g.seen.get (historyKey ref e.revision) with
  | none => .error (.invalidInput "Checkpoint current revision missing")
  | some digest =>
    match e.value with
    | none => .ok ()
    | some d => do
      let (_, expected) ← compact c.lib d.doc
      refuse (digest != expected) (.invalidInput "Checkpoint current descriptor digest differs")

/-- The generation of a header and its pages. -/
def restoreGeneration [DecidableEq S] (c : Config S) (base : Generation) (h : CheckpointHeader S)
    (load : CheckpointLoader) : Except Error Generation := do
  checkHeader c base h
  let st : Restoring := ⟨emptyGeneration h, hashHeader c h, 0, 0, .nil⟩
  let st ← loadSection c h load checkpointReferences (h.referenceRows + 1) "" st
  let st ← loadSection c h load checkpointRevisions (h.revisionRows + 1) "" st
  refuse (st.references != h.referenceRows || st.revisions != h.revisionRows ||
    st.next.stats.count != h.liveDocuments || st.next.stats.totalLength != h.totalLength ||
    hexEncode (c.lib.sha256 st.hashed) != h.sha256) (.invalidInput "Incomplete or corrupt checkpoint commitment")
  st.next.refs.each (fun _ ref e => checkEntry c st.next ref e) ()
  return st.next

/-- What `RestoreCheckpoint` has built, with the generation that it loaded first. -/
structure Detached where
  base : Nat
  next : Pointer

/-- `RestoreCheckpoint` up to its lock. -/
def buildCheckpoint [DecidableEq S] (c : Config S) (b : Backend) (h : CheckpointHeader S) (load : CheckpointLoader) :
    Except Error (Backend × Detached) := do
  let next ← restoreGeneration c b.current.generation h load
  let (b, p) := b.allocate next
  return (b, ⟨b.current.address, p⟩)

/-- `RestoreCheckpoint` under its lock. -/
def installCheckpoint (b : Backend) (d : Detached) : Except Error Backend := do
  refuse (b.current.address != d.base) .staleGeneration
  return { b with current := d.next }

/-- `RestoreCheckpoint`, when nothing comes between its two parts. -/
def restoreCheckpoint [DecidableEq S] (c : Config S) (b : Backend) (h : CheckpointHeader S) (load : CheckpointLoader) :
    Except Error Backend := do
  let (b, d) ← buildCheckpoint c b h load
  installCheckpoint b d

end Pagnet.Search
