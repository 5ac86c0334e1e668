import Pagnet.Search.Backend

/-!
# Publication

The rest of `fabric/search/backend.go`: the pointer to the current generation
and what replaces it. A generation that is prepared may only be published while
the generation it was prepared on is still the current one; the code compares
the two pointers, so a generation comes here with the address it was allocated
at. The answer of a commit callback is an argument.
-/

namespace Pagnet.Search
open Json Fabric

variable {S : Type}

/-- A generation and where it was allocated. -/
structure Pointer where
  address : Nat
  generation : Generation

structure Backend where
  current : Pointer
  /-- The addresses below this one are in use. -/
  allocated : Nat

def Backend.new : Backend := ⟨⟨0, .initial⟩, 1⟩

def Backend.allocate (b : Backend) (g : Generation) : Backend × Pointer :=
  ({ b with allocated := b.allocated + 1 }, ⟨b.allocated, g⟩)

structure Prepared (S : Type) where
  base : Nat
  next : Pointer
  record : CommitRecord S

namespace Backend

/-- `Prepare`. -/
def prepare (c : Config S) (b : Backend) (batch : Batch) : Except Error (Backend × Prepared S) := do
  let (next, record) ← Search.prepare c b.current.generation batch
  let (b, next) := b.allocate next
  return (b, ⟨b.current.address, next, record⟩)

/-- `Publish`, with what the commit callback answers. -/
def publish (b : Backend) (p : Prepared S) (commit : Except String Unit) : Except Error Backend := do
  refuse (b.current.address != p.base) .staleGeneration
  match commit with
  | .error message => .error (.callback message)
  | .ok () => return { b with current := p.next }

/-- `Apply`, and `Upsert` and `Delete`, which keep the cursor. -/
def apply (c : Config S) (b : Backend) (batch : Batch) (preserveCursor : Bool) (commit : Except String Unit) :
    Except Error (Backend × Prepared S) := do
  let batch := if preserveCursor then { batch with upstreamCursor := b.current.generation.cursor } else batch
  let (b, p) ← b.prepare c batch
  return (← b.publish p commit, p)

/-- A record of this configuration. -/
def recordMatches [DecidableEq S] (c : Config S) (r : CommitRecord S) (hash : String) : Bool :=
  r.sourceOrder == c.sourceOrder && (c.replayOrder.isSome || r.sourceSequence == 0) &&
    r.tokenizer == c.lib.tokenizerVersion && r.scorer == scorerVersion && r.parameters == c.parameters &&
    r.format == formatVersion && r.sha256 == hash && r.generation == (r.baseGeneration + 1) % 2 ^ 64 && r.generation != 0

/-- `Restore`: whether the batch of the record was published, and the backend. -/
def restore [DecidableEq S] (c : Config S) (b : Backend) (r : CommitRecord S) : Except Error (Backend × Bool) := do
  let hash ← hashRecord c r
  refuse (!recordMatches c r hash) (.invalidInput "Corrupt index generation record")
  if b.current.generation.number = r.generation && b.current.generation.commitHash = r.sha256 then return (b, false)
  else do
    refuse (b.current.generation.number != r.baseGeneration) .staleGeneration
    let (b, p) ← b.prepare c r.batch
    refuse (p.record.sha256 != r.sha256) (.invalidInput "Index replay generation differs")
    return (← b.publish p (.ok ()), true)

end Backend

/-! ## Visibility -/

/-- The documents a search is limited to. -/
structure Visibility where
  generation : Nat
  set : IdSet
  stats : Corpus
  authorityRevision : String
  fingerprint : String

/-- The set, the statistics and the ids so far. -/
structure Gathered where
  set : IdSet
  stats : Corpus
  seen : List Nat

def Gathered.empty : Gathered := ⟨.nil, ⟨0, 0, .empty⟩, []⟩

/-- One more visible reference. -/
def gather (g : Generation) (acc : Gathered) (ref : EndpointRef) : Except Error Gathered :=
  match g.refs.get ref.toString with
  | none => .error (.notFound "Visibility reference is not indexed")
  | some e =>
    match e.value with
    | none => .error (.notFound "Visibility reference is not indexed")
    | some d =>
      if e.id ∈ acc.seen then .ok acc
      else .ok ⟨setAdd g.level acc.set 0 e.id, adjustStats acc.stats (some d) true, e.id :: acc.seen⟩

/-- The digest of the references, without repetitions and in order. -/
def fingerprint (lib : Library) (refs : List EndpointRef) : String :=
  lib.digest (Value.ofList ((unique (sortStrings (refs.map EndpointRef.toString))).map Value.ofString)).render

def newVisibility (c : Config S) (p : Pointer) (refs : List EndpointRef) (authorityRevision : String) :
    Except Error Visibility := do
  refuse (maxDocuments < refs.length || 256 < authorityRevision.utf8ByteSize) (.invalidInput "Visibility bounds exceeded")
  let acc ← refs.foldlM (gather p.generation) .empty
  return ⟨p.address, acc.set, acc.stats, authorityRevision, fingerprint c.lib refs⟩

end Pagnet.Search
