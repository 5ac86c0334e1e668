import Mathlib.Algebra.Order.Field.Basic
import Pagnet.Data.Word
import Pagnet.Search.Index

/-!
# Generations

`fabric/search/backend.go`: a batch of upserts and deletions is prepared on the
current generation and published as the next one, and the commit record of a
publication can be restored. A generation is immutable; `stamp` is the identity
of the pointer that `current` holds. The work counters are left out, and so are
cancelled contexts.
-/

namespace Pagnet.Search
open Json Fabric

/-- The exact arithmetic that stands for `float64`, as far as the index leaves
it to the standard library: `math.Log1p` and the encoding of a number. -/
structure Scalar (S : Type) where
  log1p : S → S
  formatFloat : S → Text

structure Parameters (S : Type) where
  k1 : S
  b : S
  deriving DecidableEq

/-- A trusted source of ordered cursors. -/
structure ReplayOrder where
  format : String
  sequence : String → Except String Nat

structure Config (S : Type) where
  lib : Library
  scalar : Scalar S
  parameters : Parameters S
  replayOrder : Option ReplayOrder

section
variable {S : Type} [Field S] [LinearOrder S]

/-- What `New` accepts. -/
def Config.valid (c : Config S) : Bool :=
  0 ≤ c.parameters.k1 && c.parameters.k1 ≤ 1000 && 0 ≤ c.parameters.b && c.parameters.b ≤ 1 &&
    c.replayOrder.all fun order => validNamespacedName order.format && order.format.utf8ByteSize ≤ 128

end

variable {S : Type}

variable (c : Config S)

/-- The format of the replay order, empty without one. -/
def Config.sourceOrder : String := (c.replayOrder.map (·.format)).getD ""

structure Corpus where
  count : Nat
  totalLength : Nat
  df : Dictionary String Nat

structure Entry where
  id : Nat
  value : Option Indexed
  revision : String

structure Generation where
  number : Nat
  nextID : Nat
  level : Nat
  bytes : Nat
  versions : Nat
  sourceSequence : Nat
  replayFloor : Nat
  root : Node
  refs : Dictionary String Entry
  seen : Dictionary String String
  stats : Corpus
  cursor : String
  commitHash : String

def Generation.initial : Generation :=
  ⟨0, 0, 0, 0, 0, 0, 0, .nil, .empty, .empty, ⟨0, 0, .empty⟩, "", ""⟩

structure Deletion where
  ref : EndpointRef
  expectedRevision : String
  deriving DecidableEq

structure Batch where
  upserts : List SearchDocument
  deletes : List Deletion
  upstreamCursor : String
  deriving DecidableEq

structure CommitRecord (S : Type) where
  sourceOrder : String
  sourceSequence : Nat
  tokenizer : String
  scorer : String
  parameters : Parameters S
  format : Nat
  baseGeneration : Nat
  generation : Nat
  batch : Batch
  sha256 : String
  deriving DecidableEq

def scorerVersion : String := "bm25-positive-v1"

def formatVersion : Nat := 1

def Library.tokenizerVersion (lib : Library) : String := "unicode-" ++ lib.unicodeVersion ++ "-letter-number-lower-v1"

/-! ## Encoded records -/

def Deletion.toJson (d : Deletion) : Value :=
  .ofFields [("ref", .ofString d.ref.toString), ("expectedRevision", .ofString d.expectedRevision)]

def Batch.toJson (b : Batch) : Value :=
  .ofFields (omitEmpty "upserts" [] (fun upserts => .ofList (upserts.map SearchDocument.toJson)) b.upserts ++
    omitEmpty "deletes" [] (fun deletes => .ofList (deletes.map Deletion.toJson)) b.deletes ++
    omitEmpty "upstreamCursor" "" .ofString b.upstreamCursor)

/-- References must not be zero and times must have an encoding. -/
def Batch.encodable (b : Batch) : Bool :=
  b.upserts.all (fun d => d.ref ≠ .zero && d.encodable) && b.deletes.all fun d => d.ref ≠ .zero

def Parameters.toJson (scalar : Scalar S) (p : Parameters S) : Value :=
  .ofFields [("K1", .number (scalar.formatFloat p.k1)), ("B", .number (scalar.formatFloat p.b))]

/-- The encoding of a record without its checksum. -/
def CommitRecord.toJson (scalar : Scalar S) (r : CommitRecord S) : Value :=
  .ofFields [("sourceOrder", .ofString r.sourceOrder), ("sourceSequence", .ofInt r.sourceSequence),
    ("tokenizer", .ofString r.tokenizer), ("scorer", .ofString r.scorer), ("parameters", r.parameters.toJson scalar),
    ("format", .ofInt r.format), ("baseGeneration", .ofInt r.baseGeneration), ("generation", .ofInt r.generation),
    ("batch", r.batch.toJson), ("sha256", .ofString "")]

def hashRecord (r : CommitRecord S) : Except Error String := do
  refuse (!r.batch.encodable) .unencodable
  refuse (maxCommitBytes < (r.toJson c.scalar).size) (.invalidInput "Index commit exceeds byte budget")
  return c.lib.digest (r.toJson c.scalar).render

/-! ## Preparing a generation -/

/-- Count a document in or out of the statistics of a corpus. -/
def adjustDF (add : Bool) (df : Dictionary String Nat) (t : Term) : Dictionary String Nat :=
  let old := (df.get t.name).getD 0
  let new := if add then add64 old 1 else sub64 old 1
  if new = 0 then df.remove t.name else df.put t.name new

def adjustStats (c : Corpus) (d : Option Indexed) (add : Bool) : Corpus :=
  match d with
  | none => c
  | some d =>
    { count := if add then add64 c.count 1 else sub64 c.count 1
      totalLength := if add then add64 c.totalLength d.length else sub64 c.totalLength d.length
      df := d.terms.foldl (adjustDF add) c.df }

/-- A node above the root of a tree that becomes too small. -/
def wrapRoot : Node → Node
  | .nil => .nil
  | root => .branch root .nil root.info

/-- Double the span until it holds the id. -/
def growTo : Nat → Node → Nat → Nat → Node × Nat
  | 0, root, level, _ => (root, level)
  | fuel + 1, root, level, id => if id < spanOf level then (root, level) else growTo fuel (wrapRoot root) (level + 1) id

def historyKey (ref revision : String) : String := ref ++ "\x00" ++ revision

/-- The entry of a reference; a new one gets the next storage id. -/
def allocate (g : Generation) (ref : String) : Except Error (Generation × Entry) :=
  match g.refs.get ref with
  | some e => .ok (g, e)
  | none => do
    refuse (maxDocuments ≤ g.nextID)
      (.invalidInput "Index storage-ID budget exceeded; compact the trusted catalogue")
    let grown := growTo (g.nextID + 1) g.root g.level g.nextID
    return ({ g with nextID := g.nextID + 1, root := grown.1, level := grown.2 }, ⟨g.nextID, none, ""⟩)

def encodedBytes : Option Indexed → Nat
  | none => 0
  | some d => d.encodedBytes

/-- Put a value, or none, in the place of the one an entry has. -/
def replaceValue (g : Generation) (ref : String) (e : Entry) (value : Option Indexed) (revision : String) : Generation :=
  { g with
    root := updateNode g.level g.root 0 e.id value (keysUnion e.value value)
    stats := adjustStats (adjustStats g.stats e.value false) value true
    bytes := add64 (sub64 g.bytes (encodedBytes e.value)) (encodedBytes value)
    refs := g.refs.put ref ⟨e.id, value, revision⟩ }

/-- A revision that was seen before changes nothing, and must not have changed. -/
def upsert (g : Generation) (d : SearchDocument) : Except Error Generation := do
  let (value, digest) ← compact c.lib d
  let key := historyKey d.ref.toString d.revision
  match g.seen.get key with
  | some prior =>
    refuse (prior != digest) .revisionConflict
    return g
  | none =>
    refuse (maxRevisions ≤ g.versions) (.invalidInput "Index revision ledger budget exceeded")
    let (g, e) ← allocate g d.ref.toString
    let g := replaceValue g d.ref.toString e (some value) d.revision
    return { g with versions := g.versions + 1, seen := g.seen.put key digest }

def delete (g : Generation) (d : Deletion) : Except Error Generation := do
  refuse (parseEndpointRef d.ref.toString).isNone (.invalidInput "invalid canonical endpoint reference")
  match g.refs.get d.ref.toString with
  | none => .error (.notFound "Search document not found")
  | some e =>
    refuse (e.revision != d.expectedRevision) .revisionConflict
    match e.value with
    | none => return g
    | some _ => return replaceValue g d.ref.toString e none e.revision

/-- The position of a batch in an ordered source. -/
def batchSequence (base : Generation) (cursor : String) : Except Error Nat :=
  match c.replayOrder with
  | none => .ok base.sourceSequence
  | some order =>
    match order.sequence cursor with
    | .error message => .error (.callback message)
    | .ok sequence => do
      refuse (sequence ≤ base.sourceSequence || sequence ≤ base.replayFloor) .replayBeforeFloor
      return sequence

/-- The record of a batch on a generation, without its checksum. -/
def makeRecord (base : Generation) (sequence : Nat) (batch : Batch) : CommitRecord S :=
  { sourceOrder := c.sourceOrder, sourceSequence := sequence, tokenizer := c.lib.tokenizerVersion,
    scorer := scorerVersion, parameters := c.parameters, format := formatVersion, baseGeneration := base.number,
    generation := base.number + 1, batch, sha256 := "" }

/-- The generation and the record of a batch. -/
def prepare (base : Generation) (batch : Batch) : Except Error (Generation × CommitRecord S) := do
  refuse (maxBatchDocuments < batch.upserts.length + batch.deletes.length || 4096 < batch.upstreamCursor.utf8ByteSize)
    (.invalidInput "Index publication bounds exceeded")
  let sequence ← batchSequence c base batch.upstreamCursor
  let g ← batch.upserts.foldlM (upsert c) { base with sourceSequence := sequence }
  let g ← batch.deletes.foldlM delete g
  refuse (base.number + 1 == 2 ^ 64) (.invalidInput "Index generation exhausted")
  let record := makeRecord c base sequence batch
  let hash ← hashRecord c record
  return ({ g with number := base.number + 1, cursor := batch.upstreamCursor, commitHash := hash },
    { record with sha256 := hash })

end Pagnet.Search
