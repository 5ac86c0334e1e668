import Pagnet.Search.Batches
import Pagnet.Search.System

/-!
# What a step does to the current generation

The address of the current generation only grows, so a generation that was
prepared on an older one can never be published again. That leaves four things
a step may do: nothing, publish a batch prepared on the very generation it
replaces, drop superseded revisions, or put the rows of a checkpoint in place.
-/

namespace Pagnet.Search
open List

variable {S : Type} {c : Config S}

/-- What a caller holds was made of the generation at `base`, and is of use only while that is the current one. -/
structure Held (b : Backend) (base : Nat) (next : Pointer) (made : Pointer → Prop) : Prop where
  base_le : base ≤ b.current.address
  inUse : next.address < b.allocated
  current : base = b.current.address → made b.current

/-- A generation that was prepared on another one. -/
def Prepared.of (c : Config S) (p : Prepared S) (g : Pointer) : Prop :=
  g.address < p.next.address ∧ prepare c g.generation p.record.batch = .ok (p.next.generation, p.record)

/-- A checkpoint that was taken of a generation. -/
def Checkpoint.of (c : Config S) (ck : Checkpoint S) (g : Pointer) : Prop :=
  ck.generation = g ∨
    g.address < ck.generation.address ∧ compactHistory c g.generation = .ok ck.generation.generation

/-- A checkpoint that was read against a generation. -/
def Detached.of [DecidableEq S] (c : Config S) (d : Detached) (g : Pointer) : Prop :=
  g.address < d.next.address ∧ ∃ header load, restoreGeneration c g.generation header load = .ok d.next.generation

structure System.Inv [DecidableEq S] (c : Config S) (s : System S) : Prop where
  inUse : s.backend.current.address < s.backend.allocated
  prepared : ∀ p ∈ s.prepared, Held s.backend p.base p.next (p.of c)
  checkpoints : ∀ ck ∈ s.checkpoints, Held s.backend ck.base ck.generation (ck.of c)
  detached : ∀ d ∈ s.detached, Held s.backend d.base d.next (d.of c)

/-- The move from one current generation to the next, and the batch that was published. -/
inductive Moves [DecidableEq S] (c : Config S) (g g' : Generation) : Op S → Option Batch → Prop where
  | stays {op : Op S} (same : g' = g) : Moves c g g' op none
  | publishes {op : Op S} (batch : Batch) (record : CommitRecord S) (prepared : prepare c g batch = .ok (g', record)) :
      Moves c g g' op (some batch)
  | compacts (i : Nat) (compacted : compactHistory c g = .ok g') : Moves c g g' (.activate i) none
  | restores {op : Op S} (header : CheckpointHeader S) (load : CheckpointLoader)
      (restored : restoreGeneration c g header load = .ok g') (kind : op.publishes = false ∧ ∀ i, op ≠ .activate i) :
      Moves c g g' op none

variable {batch : Batch} {b b' : Backend} {p : Prepared S} {commit : Except String Unit} {ck : Checkpoint S}

theorem prepare_batch {g g' : Generation} {record : CommitRecord S}
    (h : prepare c g batch = .ok (g', record)) : record.batch = batch := by
  obtain ⟨sequence, upserted, deleted, hash, -, -, rfl⟩ := prepare_ok.1 h
  rfl

section
variable {base : Nat} {next : Pointer} {made : Pointer → Prop}

theorem Held.allocate (held : Held b base next made) : Held { b with allocated := b.allocated + 1 } base next made :=
  ⟨held.base_le, held.inUse.trans (Nat.lt_succ_self _), held.current⟩

/-- What was made before stays behind when the current generation is replaced. -/
theorem Held.advance {newest : Pointer} (held : Held b base next made)
    (newer : b.current.address < newest.address) : Held { b with current := newest } base next made where
  base_le := held.base_le.trans newer.le
  inUse := held.inUse
  current same := by
    have := held.base_le
    dsimp only at same
    omega

end

variable {s s' : System S}

section
variable [DecidableEq S]

theorem System.Inv.allocate (inv : s.Inv c) :
    System.Inv c { s with backend := { s.backend with allocated := s.backend.allocated + 1 } } where
  inUse := inv.inUse.trans (Nat.lt_succ_self _)
  prepared p mem := (inv.prepared p mem).allocate
  checkpoints ck mem := (inv.checkpoints ck mem).allocate
  detached d mem := (inv.detached d mem).allocate

theorem System.Inv.advance (inv : s.Inv c) {next : Pointer} (newer : s.backend.current.address < next.address)
    (inUse : next.address < s.backend.allocated) :
    System.Inv c { s with backend := { s.backend with current := next } } where
  inUse := inUse
  prepared p mem := (inv.prepared p mem).advance newer
  checkpoints ck mem := (inv.checkpoints ck mem).advance newer
  detached d mem := (inv.detached d mem).advance newer

/-- A new generation that becomes the current one at once. -/
theorem System.Inv.store (inv : s.Inv c) (g : Generation) :
    System.Inv c { s with backend := ⟨⟨s.backend.allocated, g⟩, s.backend.allocated + 1⟩ } :=
  inv.allocate.advance inv.inUse (Nat.lt_succ_self _)

end

theorem Backend.prepare_ok (h : b.prepare c batch = .ok (b', p)) :
    ∃ next record, Search.prepare c b.current.generation batch = .ok (next, record) ∧
      b' = { b with allocated := b.allocated + 1 } ∧ p = ⟨b.current.address, ⟨b.allocated, next⟩, record⟩ := by
  obtain ⟨⟨next, record⟩, prepared, h⟩ := of_bind h
  cases h
  exact ⟨next, record, prepared, rfl, rfl⟩

theorem Backend.publish_ok
    (h : b.publish p commit = .ok b') : b.current.address = p.base ∧ b' = { b with current := p.next } := by
  obtain ⟨same, h⟩ := of_refuse h
  refine ⟨by simpa using same, ?_⟩
  split at h
  case h_1 => cases h
  case h_2 => exact (Except.ok.inj h).symm

theorem Backend.restore_ok [DecidableEq S] {r : CommitRecord S} {published : Bool}
    (h : b.restore c r = .ok (b', published)) :
    b' = b ∧ published = false ∨ published ∧ ∃ b₁ p, b.prepare c r.batch = .ok (b₁, p) ∧
      p.record.sha256 = r.sha256 ∧ b₁.publish p (.ok ()) = .ok b' := by
  obtain ⟨hash, -, h⟩ := of_bind h
  have h := past_refuse h
  split at h
  · cases h
    exact .inl ⟨rfl, rfl⟩
  · have h := past_refuse h
    obtain ⟨⟨b₁, p⟩, prepared, h⟩ := of_bind h
    obtain ⟨same, h⟩ := of_refuse h
    obtain ⟨b₂, stored, h⟩ := of_bind h
    cases h
    exact .inr ⟨rfl, b₁, p, prepared, by simpa using same, stored⟩

theorem makeCheckpoint_ok {compacted : Bool}
    (h : makeCheckpoint c b compacted = .ok (b', ck)) : ck.base = b.current.address ∧
      ((b' = b ∧ ck.generation = b.current) ∨
        ∃ g, compactHistory c b.current.generation = .ok g ∧ b' = { b with allocated := b.allocated + 1 } ∧
          ck.generation = ⟨b.allocated, g⟩) := by
  obtain ⟨⟨b₁, p⟩, chosen, h⟩ := of_bind h
  obtain ⟨hashed, -, h⟩ := of_bind h
  cases h
  unfold pinGeneration at chosen
  split at chosen
  case isFalse =>
    cases chosen
    exact ⟨rfl, .inl ⟨rfl, rfl⟩⟩
  case isTrue =>
    cases done : compactHistory c b.current.generation with
    | error e => simp [done, Except.map] at chosen
    | ok g =>
      rw [done] at chosen
      cases chosen
      exact ⟨rfl, .inr ⟨g, rfl, rfl, rfl⟩⟩

theorem activateCheckpoint_ok (h : activateCheckpoint b ck = .ok b') :
    b.current.address = ck.base ∧ b' = { b with current := ck.generation } := by
  obtain ⟨same, h⟩ := of_refuse h
  exact ⟨by simpa using same, (Except.ok.inj h).symm⟩

theorem buildCheckpoint_ok [DecidableEq S] {header : CheckpointHeader S} {load : CheckpointLoader} {d : Detached}
    (h : buildCheckpoint c b header load = .ok (b', d)) : ∃ g, restoreGeneration c b.current.generation header load = .ok g ∧
      b' = { b with allocated := b.allocated + 1 } ∧ d = ⟨b.current.address, ⟨b.allocated, g⟩⟩ := by
  obtain ⟨g, made, h⟩ := of_bind h
  cases h
  exact ⟨g, made, rfl, rfl⟩

theorem installCheckpoint_ok {d : Detached} (h : installCheckpoint b d = .ok b') :
    b.current.address = d.base ∧ b' = { b with current := d.next } := by
  obtain ⟨same, h⟩ := of_refuse h
  exact ⟨by simpa using same, (Except.ok.inj h).symm⟩

/-- A batch that is prepared and published in one go. -/
theorem prepare_publish {b₁ : Backend}
    (prepared : b.prepare c batch = .ok (b₁, p)) (stored : b₁.publish p commit = .ok b') :
    ∃ next record, prepare c b.current.generation batch = .ok (next, record) ∧ p.record = record ∧
      b' = ⟨⟨b.allocated, next⟩, b.allocated + 1⟩ := by
  obtain ⟨next, record, made, rfl, rfl⟩ := Backend.prepare_ok prepared
  obtain ⟨-, rfl⟩ := Backend.publish_ok stored
  exact ⟨next, record, made, rfl, rfl⟩

variable [DecidableEq S]

theorem perform_moves (inv : s.Inv c) {op : Op S} {out : Option (CommitRecord S)}
    (h : perform c s op = .ok (s', out)) : s'.Inv c ∧ Moves c s.generation s'.generation op (out.map (·.batch)) := by
  cases op with
  | prepare batch =>
    obtain ⟨⟨b, p⟩, prepared, h⟩ := of_bind h
    cases h
    obtain ⟨next, record, made, rfl, rfl⟩ := Backend.prepare_ok prepared
    refine ⟨{ inv.allocate with prepared := fun p mem => ?_ }, .stays rfl⟩
    rcases mem_append.1 mem with old | new
    · exact inv.allocate.prepared p old
    · rw [mem_singleton.1 new]
      refine ⟨Nat.le_refl _, Nat.lt_succ_self _, fun _ => ⟨inv.inUse, ?_⟩⟩
      rw [prepare_batch made]
      exact made
  | publish i commit =>
    simp only [perform] at h
    split at h
    case h_1 => cases h
    case h_2 p found =>
      obtain ⟨b, stored, h⟩ := of_bind h
      cases h
      obtain ⟨same, rfl⟩ := Backend.publish_ok stored
      have held := inv.prepared p (mem_of_getElem? found)
      obtain ⟨newer, made⟩ := held.current same.symm
      exact ⟨inv.advance newer held.inUse, .publishes _ _ made⟩
  | apply batch preserveCursor commit =>
    obtain ⟨⟨b, p⟩, applied, h⟩ := of_bind h
    cases h
    obtain ⟨⟨b₁, p₁⟩, prepared, applied⟩ := of_bind applied
    obtain ⟨b₂, stored, applied⟩ := of_bind applied
    cases applied
    obtain ⟨next, record, made, same, rfl⟩ := prepare_publish prepared stored
    refine ⟨inv.store next, ?_⟩
    rw [Option.map_some, same, prepare_batch made]
    exact .publishes _ _ made
  | restore record =>
    obtain ⟨⟨b, published⟩, restored, h⟩ := of_bind h
    cases h
    rcases Backend.restore_ok restored with ⟨rfl, rfl⟩ | ⟨rfl, b₁, p, prepared, -, stored⟩
    · exact ⟨inv, .stays rfl⟩
    · obtain ⟨next, made_record, made, -, rfl⟩ := prepare_publish prepared stored
      exact ⟨inv.store next, .publishes _ _ made⟩
  | checkpoint compacted =>
    obtain ⟨⟨b, ck⟩, taken, h⟩ := of_bind h
    cases h
    obtain ⟨base, ⟨rfl, pinned⟩ | ⟨g, compacted, rfl, pinned⟩⟩ := makeCheckpoint_ok taken
    · refine ⟨{ inv with checkpoints := fun ck' mem => ?_ }, .stays rfl⟩
      rcases mem_append.1 mem with old | new
      · exact inv.checkpoints ck' old
      · rw [mem_singleton.1 new]
        exact ⟨base.le, pinned ▸ inv.inUse, fun _ => .inl pinned⟩
    · refine ⟨{ inv.allocate with checkpoints := fun ck' mem => ?_ }, .stays rfl⟩
      rcases mem_append.1 mem with old | new
      · exact inv.allocate.checkpoints ck' old
      · rw [mem_singleton.1 new]
        unfold Checkpoint.of
        rw [pinned]
        exact ⟨base.le, Nat.lt_succ_self _, fun _ => .inr ⟨inv.inUse, compacted⟩⟩
  | activate i =>
    simp only [perform] at h
    split at h
    case h_1 => cases h
    case h_2 ck found =>
      obtain ⟨b, active, h⟩ := of_bind h
      cases h
      obtain ⟨same, rfl⟩ := activateCheckpoint_ok active
      have taken := inv.checkpoints ck (mem_of_getElem? found)
      rcases taken.current same.symm with pinned | ⟨newer, compacted⟩
      · rw [pinned]
        exact ⟨inv, .stays rfl⟩
      · exact ⟨inv.advance newer taken.inUse, .compacts i compacted⟩
  | restoreCheckpoint header load =>
    obtain ⟨b, restored, h⟩ := of_bind h
    cases h
    obtain ⟨⟨b₁, d⟩, built, installed⟩ := of_bind restored
    obtain ⟨g, made, rfl, rfl⟩ := buildCheckpoint_ok built
    obtain ⟨-, rfl⟩ := installCheckpoint_ok installed
    exact ⟨inv.store g, .restores header load made ⟨rfl, by simp⟩⟩
  | build header load =>
    obtain ⟨⟨b, d⟩, built, h⟩ := of_bind h
    cases h
    obtain ⟨g, made, rfl, rfl⟩ := buildCheckpoint_ok built
    refine ⟨{ inv.allocate with detached := fun d mem => ?_ }, .stays rfl⟩
    rcases mem_append.1 mem with old | new
    · exact inv.allocate.detached d old
    · rw [mem_singleton.1 new]
      exact ⟨Nat.le_refl _, Nat.lt_succ_self _, fun _ => ⟨inv.inUse, header, load, made⟩⟩
  | install i =>
    simp only [perform] at h
    split at h
    case h_1 => cases h
    case h_2 d found =>
      obtain ⟨b, installed, h⟩ := of_bind h
      cases h
      obtain ⟨same, rfl⟩ := installCheckpoint_ok installed
      have held := inv.detached d (mem_of_getElem? found)
      obtain ⟨newer, header, load, made⟩ := held.current same.symm
      exact ⟨inv.advance newer held.inUse, .restores header load made ⟨rfl, by simp⟩⟩

theorem System.inv_new : System.Inv c (System.new : System S) :=
  ⟨Nat.zero_lt_one, by simp [System.new], by simp [System.new], by simp [System.new]⟩

/-- A step moves the current generation; a refused one does not. -/
theorem step_moves (inv : s.Inv c) (op : Op S) : (step c s op).1.Inv c ∧
    Moves c s.generation (step c s op).1.generation op (publishedBatch (step c s op).2) := by
  unfold step
  split
  case h_1 => exact ⟨inv, .stays rfl⟩
  case h_2 next out h =>
    obtain ⟨kept, moves⟩ := perform_moves inv h
    refine ⟨kept, ?_⟩
    cases out with
    | none | some => exact moves

/-- What every move keeps holds of the current generation of every run. -/
theorem reached_keeps {good : Generation → Prop} (start : good .initial)
    (keeps : ∀ g g' op out, good g → Moves c g g' op out → good g')
    {trace : Trace S} (run : Run (step c) System.new trace s) : good s.generation := by
  have both : ∀ s op, System.Inv c s ∧ good s.generation →
      System.Inv c (step c s op).1 ∧ good (step c s op).1.generation := by
    rintro s op ⟨inv, holds⟩
    obtain ⟨kept, moves⟩ := step_moves inv op
    exact ⟨kept, keeps _ _ _ _ holds moves⟩
  exact (run.invariant ⟨System.inv_new, start⟩ both).2

/-- What is published is the batch that the caller asks for, and what is held for later the one that it prepares. -/
theorem perform_asked {op : Op S} {out : Option (CommitRecord S)} (h : perform c s op = .ok (s', out)) :
    (∀ batch, out.map (·.batch) = some batch → op.batch? s = some batch) ∧
      s'.prepared.map (·.record.batch) = s.prepared.map (·.record.batch) ++ op.prepares.toList := by
  cases op with
  | prepare batch =>
    obtain ⟨⟨b, p⟩, prepared, h⟩ := of_bind h
    cases h
    obtain ⟨next, record, made, -, rfl⟩ := Backend.prepare_ok prepared
    simp [Op.prepares, prepare_batch made]
  | publish i commit =>
    simp only [perform] at h
    split at h
    case h_1 => cases h
    case h_2 p found =>
      obtain ⟨b, -, h⟩ := of_bind h
      cases h
      simp [Op.prepares, Op.batch?, found]
  | apply batch preserveCursor commit =>
    obtain ⟨⟨b, p⟩, applied, h⟩ := of_bind h
    cases h
    obtain ⟨⟨b₁, p₁⟩, prepared, applied⟩ := of_bind applied
    obtain ⟨b₂, -, applied⟩ := of_bind applied
    cases applied
    obtain ⟨next, record, made, -, rfl⟩ := Backend.prepare_ok prepared
    simp [Op.prepares, Op.batch?, prepare_batch made, System.generation]
  | restore record =>
    obtain ⟨⟨b, published⟩, -, h⟩ := of_bind h
    cases h
    cases published <;> simp [Op.prepares, Op.batch?]
  | checkpoint | restoreCheckpoint | build =>
    obtain ⟨_, -, h⟩ := of_bind h
    cases h
    simp [Op.prepares]
  | activate | install =>
    simp only [perform] at h
    split at h
    case h_1 => cases h
    case h_2 =>
      obtain ⟨_, -, h⟩ := of_bind h
      cases h
      simp [Op.prepares]

theorem step_asked (c : Config S) (s : System S) (op : Op S) :
    (∀ batch, publishedBatch (step c s op).2 = some batch → op.batch? s = some batch) ∧
      (step c s op).1.prepared.map (·.record.batch) =
        s.prepared.map (·.record.batch) ++ (preparedBatch (Event.of (step c) s op)).toList := by
  unfold preparedBatch Event.of step
  split
  case h_1 => exact ⟨nofun, (append_nil _).symm⟩
  case h_2 next out h =>
    obtain ⟨asked, held⟩ := perform_asked h
    refine ⟨fun batch published => asked batch ?_, held⟩
    cases out with
    | none | some => exact published

/-- No update is lost, however calls interleave. A published batch was prepared on the very generation that it replaces,
a checkpoint is activated or restored onto the current one, and nothing else moves it; what is published is the batch
that the caller applies or restores, or the one that it prepared before. -/
theorem publications_serialize (c : Config S) (ops : List (Op S)) (op : Op S) :
    let s := finalState (step c) System.new ops
    Moves c s.generation (step c s op).1.generation op (publishedBatch (step c s op).2) ∧
      (∀ batch, publishedBatch (step c s op).2 = some batch → op.batch? s = some batch) ∧
      s.prepared.map (·.record.batch) = (traceOf (step c) System.new ops).filterMap preparedBatch := by
  intro s
  have run := @Run.start _ _ _ (step c) System.new |>.inputs ops
  have inv : s.Inv c := run.invariant System.inv_new fun _ op inv => (step_moves inv op).1
  refine ⟨(step_moves inv op).2, (step_asked c s op).1, ?_⟩
  refine run.history (P := fun trace s => s.prepared.map (·.record.batch) = trace.filterMap preparedBatch) rfl ?_
  intro trace s op held
  rw [(step_asked c s op).2, held, filterMap_append]
  cases found : preparedBatch (Event.of (step c) s op) <;> simp [found]

end Pagnet.Search
