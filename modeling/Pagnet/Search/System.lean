import Pagnet.Data.Run
import Pagnet.Search.Checkpoint

/-!
# Runs of a backend

`Backend` of `fabric/search`, as its callers use it. They prepare generations and
checkpoints and hold on to them, and publish or activate them later, in any order
and as often as they like. A step that is refused changes nothing. A method that
holds the lock is one step, and so is one that reads the current generation once.
`RestoreCheckpoint` does both, one after the other: it is two steps, between which
other calls may come, or one when none does.
-/

namespace Pagnet.Search

variable {S : Type}

/-- The backend and what its callers hold. -/
structure System (S : Type) where
  backend : Backend
  prepared : List (Prepared S)
  checkpoints : List (Checkpoint S)
  detached : List Detached

def System.new : System S := ⟨.new, [], [], []⟩

def System.generation (s : System S) : Generation := s.backend.current.generation

inductive Op (S : Type) where
  | prepare (batch : Batch)
  /-- Publish what was prepared as the `i`th. -/
  | publish (i : Nat) (commit : Except String Unit)
  | apply (batch : Batch) (preserveCursor : Bool) (commit : Except String Unit)
  | restore (record : CommitRecord S)
  | checkpoint (compacted : Bool)
  /-- Activate what was taken as the `i`th checkpoint. -/
  | activate (i : Nat)
  | restoreCheckpoint (header : CheckpointHeader S) (load : CheckpointLoader)
  | build (header : CheckpointHeader S) (load : CheckpointLoader)
  /-- Install what was built as the `i`th. -/
  | install (i : Nat)

/-- A batch is published as the next generation, by itself or from its record. -/
def Op.publishes : Op S → Bool
  | .activate _ => false
  | .restoreCheckpoint _ _ => false
  | .install _ => false
  | _ => true

/-- The batch that a caller asks to publish. -/
def Op.batch? (s : System S) : Op S → Option Batch
  | .publish i _ => (s.prepared[i]?).map (·.record.batch)
  | .apply batch preserveCursor _ =>
    some (if preserveCursor then { batch with upstreamCursor := s.generation.cursor } else batch)
  | .restore record => some record.batch
  | _ => none

/-- The batch that a caller prepares, to publish it later. -/
def Op.prepares : Op S → Option Batch
  | .prepare batch => some batch
  | _ => none

/-- The state after an operation that is not refused, and the record of the batch it published. -/
def perform [DecidableEq S] (c : Config S) (s : System S) : Op S → Except Error (System S × Option (CommitRecord S))
  | .prepare batch => do
    let (backend, p) ← s.backend.prepare c batch
    return ({ s with backend, prepared := s.prepared ++ [p] }, none)
  | .publish i commit =>
    match s.prepared[i]? with
    | none => .error .staleGeneration
    | some p => do
      let backend ← s.backend.publish p commit
      return ({ s with backend }, some p.record)
  | .apply batch preserveCursor commit => do
    let (backend, p) ← s.backend.apply c batch preserveCursor commit
    return ({ s with backend }, some p.record)
  | .restore record => do
    let (backend, published) ← s.backend.restore c record
    return ({ s with backend }, if published then some record else none)
  | .checkpoint compacted => do
    let (backend, ck) ← makeCheckpoint c s.backend compacted
    return ({ s with backend, checkpoints := s.checkpoints ++ [ck] }, none)
  | .activate i =>
    match s.checkpoints[i]? with
    | none => .error .staleGeneration
    | some ck => do
      let backend ← activateCheckpoint s.backend ck
      return ({ s with backend }, none)
  | .restoreCheckpoint header load => do
    let backend ← restoreCheckpoint c s.backend header load
    return ({ s with backend }, none)
  | .build header load => do
    let (backend, d) ← buildCheckpoint c s.backend header load
    return ({ s with backend, detached := s.detached ++ [d] }, none)
  | .install i =>
    match s.detached[i]? with
    | none => .error .staleGeneration
    | some d => do
      let backend ← installCheckpoint s.backend d
      return ({ s with backend }, none)

/-- One step: the record that was published, or why nothing changed. -/
def step [DecidableEq S] (c : Config S) (s : System S) (op : Op S) :
    System S × Except Error (Option (CommitRecord S)) :=
  match perform c s op with
  | .error e => (s, .error e)
  | .ok (s', published) => (s', .ok published)

/-- The batch that a step published. -/
def publishedBatch : Except Error (Option (CommitRecord S)) → Option Batch
  | .ok (some record) => some record.batch
  | _ => none

/-- The run of a backend, step by step. -/
abbrev Trace (S : Type) := List (Event (System S) (Op S) (Except Error (Option (CommitRecord S))))

/-- The batch that a step prepared. -/
def preparedBatch (e : Event (System S) (Op S) (Except Error (Option (CommitRecord S)))) : Option Batch :=
  if e.output.isOk then e.input.prepares else none

/-- The batches that were published, the last one first. -/
def published (trace : Trace S) : List Batch := (trace.filterMap fun e => publishedBatch e.output).reverse

end Pagnet.Search
