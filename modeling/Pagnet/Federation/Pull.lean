import Mathlib.Data.Fintype.Pi
import Pagnet.Data.Run
import Pagnet.Federation.Frame

/-!
# Pull pages

The source of an invocation sends frames over an encrypted channel to the peer that
pulled them, a page at a time. Sealing is lossless here: a record that is sent is read
with the bytes that were sealed, in order. A page ends at its credit or at a terminal
frame; the peer asks for the next one behind the last frame that it received.
-/

namespace Pagnet.Federation

open Json List

def InvocationFrame.isTerminal (f : InvocationFrame) : Bool := f.kind = .complete || f.kind = .error

/-- Where one end of a page stands. -/
structure Position where
  id : GoString
  digest : Digest
  credit : Nat
  next : Nat
  count : Nat
  terminal : Bool

namespace Position

/-- `PullPage.validFrame`. -/
def validFrame (p : Position) (f : InvocationFrame) : Bool :=
  if f.invocationID ≠ p.id ∨ f.sequence ≠ p.next ∨ maxFrameBytes < f.data.length ∨ p.credit ≤ p.count ∨ p.terminal ∨
      maxInt64 ≤ p.next then false
  else if (p.next = 0 ∧ f.kind ≠ .start) ∨ (0 < p.next ∧ f.kind = .start) then false
  else
    match f.kind with
    | .start => f.data.length = 0 && f.error.isNone
    | .chunk | .progress | .complete => f.error.isNone
    | .error => f.error.isSome && f.data.length = 0
    | .other _ => false

/-- `PullPage.advance`. -/
def advance (p : Position) (f : InvocationFrame) : Position :=
  { p with next := p.next + 1, count := p.count + 1, terminal := f.isTerminal }

end Position

/-- A page is used for one direction only. -/
inductive Mode
  | unused
  | sends
  | receives
  deriving DecidableEq, Repr

structure PullPage where
  position : Position
  mode : Mode
  closed : Bool

/-- `NewPullPage`, for a cursor whose next ordinal is `next`. -/
def PullPage.new (id : GoString) (digest : Digest) (credit next : Nat) : PullPage where
  position := ⟨id, digest, credit, next, 0, false⟩
  mode := .unused
  closed := false

/-- One end of the encrypted channel. -/
structure Duplex where
  bytes : Nat
  maxBytes : Nat
  records : Nat
  maxRecords : Nat
  closed : Bool

/-- The channel is live and has room for a record of `n` bytes. -/
def Duplex.Room (d : Duplex) (n : Nat) : Prop :=
  d.closed = false ∧ 0 < n ∧ n ≤ d.maxBytes - d.bytes ∧ d.records < d.maxRecords

instance (d : Duplex) (n : Nat) : Decidable (d.Room n) := inferInstanceAs (Decidable (_ ∧ _ ∧ _ ∧ _))

/-- `Duplex.Send` and `Duplex.Receive` of a record of `n` bytes: the budget is reserved, and
the record is sealed or opened. -/
def Duplex.pass (d : Duplex) (n : Nat) : Option Duplex :=
  if d.Room n ∧ n ≤ maxRecordPlaintext then some { d with bytes := d.bytes + n, records := d.records + 1 } else none

/-- The type of a record, `originalPullFrameRecord`. -/
def pullFrameRecord : UInt8 := 6

/-- A record: its type and a JSON text. -/
structure Record where
  type : UInt8
  text : Text

/-- `len` of a record. -/
def Record.length (r : Record) : Nat := 1 + size r.text

/-- The two ends of a page and the records between them; the last fields are history. -/
structure Link where
  source : PullPage
  sink : PullPage
  sourceDuplex : Duplex
  sinkDuplex : Duplex
  wire : List Record
  /-- the frames of this page that were sent, and those that were received -/
  sent : List InvocationFrame
  received : List InvocationFrame
  /-- the earlier pages: their credit and what was received -/
  earlier : List (Nat × List InvocationFrame)

/-- A first page. -/
def Link.opened (id : GoString) (digest : Digest) (credit next : Nat) (source sink : Duplex) : Link where
  source := .new id digest credit next
  sink := .new id digest credit next
  sourceDuplex := source
  sinkDuplex := sink
  wire := []
  sent := []
  received := []
  earlier := []

inductive Action
  | send (f : InvocationFrame)
  | receive
  /-- an end is closed, by its owner or because the transport failed -/
  | closeSource
  | closeSink
  /-- the peer pulls the next page -/
  | pull (digest : Digest) (credit : Nat) (source sink : Duplex)

inductive Output
  | sent
  | frame (f : InvocationFrame)
  | eof
  | waiting
  | failed
  | nothing
  deriving DecidableEq, Repr

namespace Link

variable (s : Link)

def closeSource : Link :=
  { s with source := { s.source with closed := true }, sourceDuplex := { s.sourceDuplex with closed := true } }

def closeSink : Link :=
  { s with sink := { s.sink with closed := true }, sinkDuplex := { s.sinkDuplex with closed := true } }

/-- The record that carries a frame. -/
def record (digest : Digest) (f : InvocationFrame) : Record := ⟨pullFrameRecord, (pullFrame digest f).render⟩

/-- `PullPage.Send`. -/
def send (f : InvocationFrame) : Link × Output :=
  if s.source.closed ∨ s.source.mode = .receives ∨ s.source.position.validFrame f = false then (s.closeSource, .failed)
  else
    let r := record s.source.position.digest f
    if maxRecordPlaintext - 1 < size r.text then (s.closeSource, .failed)
    else
      match s.sourceDuplex.pass r.length with
      | none => (s.closeSource, .failed)
      | some d =>
        ({ s with
            source := { s.source with position := s.source.position.advance f, mode := .sends }
            sourceDuplex := d, wire := s.wire ++ [r], sent := s.sent ++ [f] }, .sent)

/-- What `PullPage.Receive` makes of a record. -/
def accept (r : Record) : Option InvocationFrame :=
  if r.length < 2 ∨ r.type ≠ pullFrameRecord then none
  else
    match decodePullFrame r.text with
    | some (digest, f) =>
      if digest = s.sink.position.digest ∧ s.sink.position.validFrame f = true then some f else none
    | none => none

/-- `PullPage.Receive`; it waits while there is no record. -/
def receive : Link × Output :=
  if s.sink.closed = true then (s, .failed)
  else if s.sink.mode = .sends then (s.closeSink, .failed)
  else
    let s := { s with sink := { s.sink with mode := .receives } }
    if s.sink.position.count = s.sink.position.credit ∨ s.sink.position.terminal = true then (s, .eof)
    else
      match s.wire with
      | [] => (s, .waiting)
      | r :: wire =>
        let s := { s with wire := wire }
        match s.sinkDuplex.pass r.length with
        | none => (s.closeSink, .failed)
        | some d =>
          match s.accept r with
          | none => (closeSink { s with sinkDuplex := d }, .failed)
          | some f =>
            ({ s with
                sink := { s.sink with position := s.sink.position.advance f }
                sinkDuplex := d, received := s.received ++ [f] }, .frame f)

/-- The next page begins behind the last frame that was received. -/
def pull (digest : Digest) (credit : Nat) (source sink : Duplex) : Link :=
  let p := s.sink.position
  { opened p.id digest credit p.next source sink with earlier := s.earlier ++ [(p.credit, s.received)] }

def step : Action → Link × Output
  | .send f => s.send f
  | .receive => s.receive
  | .closeSource => (s.closeSource, .nothing)
  | .closeSink => (s.closeSink, .nothing)
  | .pull digest credit source sink => (s.pull digest credit source sink, .nothing)

/-- The pages so far, with their credit and the frames received. -/
def pages : List (Nat × List InvocationFrame) := s.earlier ++ [(s.sink.position.credit, s.received)]

/-- The frames received over all pages. -/
def delivered : List InvocationFrame := s.pages.flatMap (·.2)

end Link

/-- The frames received so far are in order. -/
structure Ordered (first : Nat) (s : Link) : Prop where
  /-- the peer has received what was sent, up to the records in flight -/
  same : ∃ flight, s.sent = s.received ++ flight ∧
    (s.sink.closed = false → s.wire = flight.map (Link.record s.sink.position.digest))
  consecutive : s.delivered.map (·.sequence) = List.range' first s.delivered.length
  credit : ∀ page ∈ s.pages, page.2.length ≤ page.1
  last : ∀ before f after, s.delivered = before ++ f :: after → f.isTerminal → after = []

/-- A call on a live channel with room for the record does what it is for. -/
def Served (e : Event Link Action Output) : Prop :=
  match e.input with
  | .send f => e.before.source.closed = false → e.before.source.position.validFrame f →
    e.before.sourceDuplex.Room (Link.record e.before.source.position.digest f).length → e.output = .sent
  | .receive => e.before.sink.closed = false → e.before.sink.position.count < e.before.sink.position.credit →
    e.before.sink.position.terminal = false → ∀ r wire, e.before.wire = r :: wire → e.before.sinkDuplex.Room r.length →
    ∃ f, e.output = .frame f ∧ e.before.sent[e.before.received.length]? = some f
  | _ => True

/-- A frame whose record fits into the channel's plaintext and whose strings are UTF-8. -/
def Fits (digest : Digest) (f : InvocationFrame) : Prop := (pullFrame digest f).size < maxRecordPlaintext ∧ f.Utf8

/-- Frames fit, and no page is pulled behind a terminal frame. -/
def Allowed (s : Link) : Action → Prop
  | .send f => s.source.position.validFrame f → Fits s.source.position.digest f
  | .pull _ _ _ _ => s.sink.position.terminal = false
  | _ => True

instance (digest : Digest) (f : InvocationFrame) : Decidable (Fits digest f) := inferInstanceAs (Decidable (_ ∧ _))

instance (s : Link) : ∀ a, Decidable (Allowed s a)
  | .send _ => inferInstanceAs (Decidable (_ → _))
  | .pull _ _ _ _ => inferInstanceAs (Decidable (_ = _))
  | .receive | .closeSource | .closeSink => inferInstanceAs (Decidable True)

namespace Position

variable {p : Position} {f : InvocationFrame}

/-- What a valid frame tells about the position. -/
structure Valid (p : Position) (f : InvocationFrame) : Prop where
  sequence : f.sequence = p.next
  room : p.count < p.credit
  running : p.terminal = false
  small : p.next < maxInt64
  known : f.kind.isKnown

theorem Valid.of_validFrame (valid : p.validFrame f) : p.Valid f := by
  unfold validFrame at valid
  split at valid
  · cases valid
  rename_i first
  split at valid
  · cases valid
  obtain ⟨-, sequence, -, room, running, small⟩ : _ ∧ _ ∧ _ ∧ _ ∧ _ ∧ _ := by simpa only [not_or] using first
  refine ⟨not_not.1 sequence, Nat.lt_of_not_le room, Bool.eq_false_iff.2 running, Nat.lt_of_not_le small, ?_⟩
  cases kind : f.kind with
  | other name => rw [kind] at valid; cases valid
  | _ => rfl

/-- Frames that are valid one after the other. -/
def Accepts (p : Position) : List InvocationFrame → Prop
  | [] => True
  | f :: fs => p.validFrame f ∧ (p.advance f).Accepts fs

theorem accepts_append {fs : List InvocationFrame} (first : p.Accepts fs) (last : (fs.foldl advance p).validFrame f) :
    p.Accepts (fs ++ [f]) := by
  induction fs generalizing p with
  | nil => exact ⟨last, trivial⟩
  | cons g fs ih => exact ⟨first.1, ih first.2 last⟩

theorem foldl_digest (fs : List InvocationFrame) : (fs.foldl advance p).digest = p.digest := by
  induction fs generalizing p with
  | nil => rfl
  | cons g fs ih => exact ih

end Position

/-- How the two ends of a page, the records between them and the history stand to each other. -/
structure Kept (first : Nat) (s : Link) : Prop where
  flight : ∃ flight, s.sent = s.received ++ flight ∧ s.sink.position.Accepts flight ∧
    s.source.position = flight.foldl Position.advance s.sink.position ∧ (∀ f ∈ flight, Fits s.sink.position.digest f) ∧
    (s.sink.closed = false → s.wire = flight.map (Link.record s.sink.position.digest))
  source : s.source.mode ≠ .receives
  sink : s.sink.mode ≠ .sends
  count : s.sink.position.count = s.received.length
  credit : s.received.length ≤ s.sink.position.credit
  earlier : ∀ page ∈ s.earlier, page.2.length ≤ page.1
  next : s.sink.position.next = first + s.delivered.length
  consecutive : s.delivered.map (·.sequence) = List.range' first s.delivered.length
  running : s.sink.position.terminal = false → ∀ f ∈ s.delivered, f.isTerminal = false
  last : ∀ before f after, s.delivered = before ++ f :: after → f.isTerminal → after = []

section

variable {first : Nat} {s : Link}

theorem kept_opened (id : GoString) (digest : Digest) (credit next : Nat) (source sink : Duplex) :
    Kept next (.opened id digest credit next source sink) where
  flight := ⟨[], rfl, trivial, rfl, forall_mem_nil _, fun _ => rfl⟩
  source := nofun
  sink := nofun
  count := rfl
  credit := Nat.zero_le _
  earlier := forall_mem_nil _
  next := rfl
  consecutive := rfl
  running := fun _ => forall_mem_nil _
  last before f after empty := by
    have empty : [] = before ++ f :: after := empty
    simp at empty

theorem Link.delivered_eq (s : Link) : s.delivered = s.earlier.flatMap (·.2) ++ s.received := by
  simp [Link.delivered, Link.pages]

namespace Kept

/-- A step that leaves the frames and the positions alone. -/
theorem closes (k : Kept first s) : Kept first s.closeSource ∧ Kept first s.closeSink := by
  obtain ⟨flight, sent, accepts, position, fits, -⟩ := k.flight
  exact ⟨{ k with }, { k with flight := ⟨flight, sent, accepts, position, fits, nofun⟩ }⟩

theorem send (k : Kept first s) (f : InvocationFrame) (allowed : Allowed s (.send f)) : Kept first (s.send f).1 := by
  unfold Link.send
  split
  · exact k.closes.1
  rename_i may
  simp only [not_or, Bool.not_eq_false] at may
  obtain ⟨-, -, valid⟩ := may
  dsimp only
  split
  · exact k.closes.1
  split
  · exact k.closes.1
  obtain ⟨flight, sent, accepts, position, fits, wire⟩ := k.flight
  have digest : s.source.position.digest = s.sink.position.digest := by rw [position, Position.foldl_digest]
  exact { k with
    flight := ⟨flight ++ [f], by dsimp only; rw [sent, append_assoc],
      Position.accepts_append accepts (position ▸ valid), by dsimp only; rw [foldl_append, ← position]; rfl,
      forall_mem_append.2 ⟨fits, forall_mem_singleton.2 (digest ▸ allowed valid)⟩,
      fun is_open => by dsimp only at is_open ⊢; rw [wire is_open, digest, map_append]; rfl⟩
    source := nofun }

variable {f : InvocationFrame}

/-- The record of a frame in flight is accepted as that frame. -/
theorem accept (valid : s.sink.position.validFrame f)
    (fits : Fits s.sink.position.digest f) : s.accept (Link.record s.sink.position.digest f) = some f := by
  have v := Position.Valid.of_validFrame valid
  have small : f.sequence < 2 ^ 64 := by
    have bound := v.small
    rw [v.sequence]
    unfold maxInt64 at bound
    omega
  have positive : 0 < size (pullFrame s.sink.position.digest f).render :=
    Nat.lt_of_lt_of_le (Char.utf8Size_pos _) (Nat.le_add_right _ _)
  unfold Link.accept
  rw [if_neg]
  · unfold Link.record
    rw [decodePullFrame_render fits.2 v.known small fits.1]
    simp [valid]
  · rintro (short | other)
    · unfold Link.record Record.length at short
      dsimp only at short
      omega
    · exact other rfl

section

variable (k : Kept first s)
include k

/-- The peer receives the first frame in flight. -/
theorem receives {flight : List InvocationFrame} (sent : s.sent = s.received ++ f :: flight)
    (accepts : s.sink.position.Accepts (f :: flight))
    (position : s.source.position = (f :: flight).foldl Position.advance s.sink.position)
    (fits : ∀ g ∈ f :: flight, Fits s.sink.position.digest g) (d : Duplex) :
    Kept first { s with
      sink := ⟨s.sink.position.advance f, .receives, s.sink.closed⟩
      sinkDuplex := d
      wire := flight.map (Link.record s.sink.position.digest)
      received := s.received ++ [f] } := by
  have valid := Position.Valid.of_validFrame accepts.1
  generalize after : ({ s with
      sink := ⟨s.sink.position.advance f, .receives, s.sink.closed⟩
      sinkDuplex := d
      wire := flight.map (Link.record s.sink.position.digest)
      received := s.received ++ [f] } : Link) = s'
  have delivered : s'.delivered = s.delivered ++ [f] := by
    rw [Link.delivered_eq, Link.delivered_eq, ← after, append_assoc]
  have length : s'.delivered.length = s.delivered.length + 1 := by rw [delivered, length_append]; rfl
  have sinks : s'.sink.position = s.sink.position.advance f := by rw [← after]
  have receiveds : s'.received = s.received ++ [f] := by rw [← after]
  have room := valid.room
  exact {
    flight := by
      rw [← after]
      exact ⟨flight, by dsimp only; rw [sent, append_assoc]; rfl, accepts.2, position,
        (forall_mem_cons.1 fits).2, fun _ => rfl⟩
    source := by rw [← after]; exact k.source
    sink := by rw [← after]; nofun
    count := by
      rw [sinks, receiveds, length_append, ← k.count]
      rfl
    credit := by
      rw [sinks, receiveds, length_append, ← k.count]
      exact room
    earlier := by rw [← after]; exact k.earlier
    next := by
      rw [sinks, length, ← Nat.add_assoc, ← k.next]
      rfl
    consecutive := by
      rw [length, List.range'_concat, delivered, map_append, k.consecutive, Nat.one_mul, ← k.next, ← valid.sequence]
      rfl
    running := fun running g mem => by
      rw [sinks] at running
      rw [delivered] at mem
      rcases mem_append.1 mem with mem | mem
      · exact k.running valid.running g mem
      · rw [mem_singleton.1 mem]; exact running
    last := fun before g after' split terminal => by
      rw [delivered] at split
      rcases eq_nil_or_concat after' with rfl | ⟨rest, last, rfl⟩
      · rfl
      · have old : s.delivered = before ++ g :: rest := by
          have aligned : s.delivered ++ [f] = (before ++ g :: rest) ++ [last] := by rw [split]; simp
          exact (append_inj' aligned rfl).1
        have quiet := k.running valid.running g (by rw [old]; simp)
        rw [terminal] at quiet
        cases quiet }

theorem receive : Kept first s.receive.1 := by
  unfold Link.receive
  split
  · exact k
  rename_i is_open
  split
  · exact k.closes.2
  dsimp only
  have used : Kept first { s with sink := { s.sink with mode := .receives } } := { k with sink := nofun }
  split
  · exact used
  split
  · exact used
  rename_i r wire in_wire
  obtain ⟨flight, sent, accepts, position, fits, records⟩ := k.flight
  have records := records (Bool.eq_false_iff.2 is_open)
  cases flight with
  | nil =>
    rw [records] at in_wire
    cases in_wire
  | cons f flight =>
    rw [records, map_cons] at in_wire
    obtain ⟨rfl, rfl⟩ := List.cons.inj in_wire
    have accepted : Link.accept { s with
        sink := { s.sink with mode := .receives }, wire := flight.map (Link.record s.sink.position.digest) }
        (Link.record s.sink.position.digest f) = some f :=
      accept accepts.1 (fits f mem_cons_self)
    split
    · exact { used with flight := ⟨f :: flight, sent, accepts, position, fits, nofun⟩ }
    · rw [accepted]
      exact k.receives sent accepts position fits _

/-- The peer pulls the next page. -/
theorem pull (digest : Digest) (credit : Nat) (source sink : Duplex)
    (allowed : s.sink.position.terminal = false) : Kept first (s.pull digest credit source sink) := by
  have delivered : (s.pull digest credit source sink).delivered = s.delivered := by
    rw [Link.delivered_eq, Link.delivered_eq]
    simp [Link.pull, Link.opened]
  exact {
    flight := ⟨[], rfl, trivial, rfl, forall_mem_nil _, fun _ => rfl⟩
    source := nofun
    sink := nofun
    count := rfl
    credit := Nat.zero_le _
    earlier := forall_mem_append.2 ⟨k.earlier, forall_mem_singleton.2 k.credit⟩
    next := by rw [delivered]; exact k.next
    consecutive := by rw [delivered]; exact k.consecutive
    running := fun _ => by rw [delivered]; exact k.running allowed
    last := by rw [delivered]; exact k.last }

theorem step (a : Action) (allowed : Allowed s a) : Kept first (s.step a).1 := by
  cases a with
  | send f => exact k.send f allowed
  | receive => exact k.receive
  | closeSource => exact k.closes.1
  | closeSink => exact k.closes.2
  | pull digest credit source sink => exact k.pull digest credit source sink allowed

/-- What a call does from a state that is in order. -/
theorem served (a : Action) (allowed : Allowed s a) : Served (Event.of Link.step s a) := by
  cases a with
  | send f =>
    intro is_open valid room
    have fits := allowed valid
    show (s.send f).2 = .sent
    have plain : size (Link.record s.source.position.digest f).text < maxRecordPlaintext := fits.1
    have within : (Link.record s.source.position.digest f).length ≤ maxRecordPlaintext := by
      unfold Record.length
      omega
    unfold Link.send
    rw [if_neg]
    · rw [if_neg (by omega)]
      unfold Duplex.pass
      rw [if_pos ⟨room, within⟩]
    · rintro (closed | mode | invalid)
      · exact absurd (is_open.symm.trans closed) Bool.false_ne_true
      · exact k.source mode
      · exact absurd (invalid.symm.trans valid) Bool.false_ne_true
  | receive =>
    intro is_open more running r wire in_wire room
    have is_open : s.sink.closed = false := is_open
    obtain ⟨flight, sent, accepts, position, fits, records⟩ := k.flight
    have records := records is_open
    have in_wire : s.wire = r :: wire := in_wire
    cases flight with
    | nil =>
      rw [records] at in_wire
      cases in_wire
    | cons f flight =>
      refine ⟨f, ?_, ?_⟩
      · rw [records, map_cons] at in_wire
        obtain ⟨rfl, rfl⟩ := List.cons.inj in_wire
        have plain : size (Link.record s.sink.position.digest f).text < maxRecordPlaintext := (fits f mem_cons_self).1
        have within : (Link.record s.sink.position.digest f).length ≤ maxRecordPlaintext := by
          unfold Record.length
          omega
        have passes : s.sinkDuplex.pass (Link.record s.sink.position.digest f).length = some { s.sinkDuplex with
            bytes := s.sinkDuplex.bytes + (Link.record s.sink.position.digest f).length
            records := s.sinkDuplex.records + 1 } := by
          unfold Duplex.pass
          rw [if_pos ⟨room, within⟩]
        have accepted : Link.accept { s with
            sink := { s.sink with mode := .receives }, wire := flight.map (Link.record s.sink.position.digest) }
            (Link.record s.sink.position.digest f) = some f :=
          accept accepts.1 (fits f mem_cons_self)
        have unfinished : ¬(s.sink.position.count = s.sink.position.credit ∨ s.sink.position.terminal) := by
          rintro (full | ended)
          · exact absurd full (Nat.ne_of_lt more)
          · exact absurd (running.symm.trans ended) Bool.false_ne_true
        show s.receive.2 = .frame f
        unfold Link.receive
        rw [if_neg (Bool.eq_false_iff.1 is_open), if_neg k.sink]
        rw [if_neg unfinished]
        simp only [records, map_cons, passes, accepted]
      · show s.sent[s.received.length]? = some f
        rw [sent, getElem?_append_right (Nat.le_refl _), Nat.sub_self]
        rfl
  | _ => trivial

end

end Kept

end

/-- Every frame that fits is sent and received, in order, in every run of pages. -/
theorem pull_pages_deliver (id : GoString) (digest : Digest) (credit next : Nat) (source sink : Duplex)
    {trace : List (Event Link Action Output)} {s : Link}
    (run : Run Link.step (.opened id digest credit next source sink) trace s)
    (allowed : ∀ event ∈ trace, Allowed event.before event.input) :
    Ordered next s ∧ ∀ event ∈ trace, Served event := by
  have keeps {front : List (Event Link Action Output)} {m : Link}
      (part : Run Link.step (.opened id digest credit next source sink) front m)
      (orderly : ∀ event ∈ front, Allowed event.before event.input) : Kept next m :=
    part.guarded (kept_opened id digest credit next source sink) (fun s a k may => k.step a may) orderly
  have k := keeps run allowed
  obtain ⟨flight, sent, -, -, -, wire⟩ := k.flight
  refine ⟨⟨⟨flight, sent, wire⟩, k.consecutive, ?_, k.last⟩, fun event mem => ?_⟩
  · exact forall_mem_append.2 ⟨k.earlier, forall_mem_singleton.2 k.credit⟩
  · obtain ⟨front, back, rfl, part, is, -⟩ := run.split mem
    have may := allowed event mem
    rw [is]
    exact (keeps part fun other listed => allowed other (mem_append_left _ listed)).served event.input may

/-- A channel with a budget of `maxBytes`. -/
def Duplex.new (maxBytes : Nat) : Duplex := ⟨0, maxBytes, 0, 65536, false⟩

theorem Duplex.new_room {n : Nat} (positive : 0 < n) : (Duplex.new n).Room n :=
  ⟨rfl, positive, Nat.le_refl n, (by decide : 0 < 65536)⟩

/-- A page that starts behind the cursor. -/
def samplePage (next maxBytes : Nat) : Link :=
  .opened (.ofString "inv") (fun _ => 0) 4 next (.new maxBytes) (.new maxBytes)

def startFrame : InvocationFrame := ⟨.ofString "inv", 0, .start, [], [], none⟩

theorem startFrame_fits : Fits (fun _ => 0) startFrame := by decide +kernel

/-- The start frame of an invocation is sent and received. -/
def startPage : List Action := [.send startFrame, .receive]

theorem start_frame_delivered : Ordered 0 (finalState Link.step (samplePage 0 1000000) startPage) ∧
      ∀ event ∈ traceOf Link.step (samplePage 0 1000000) startPage, Served event :=
  pull_pages_deliver (.ofString "inv") (fun _ => 0) 4 0 (.new 1000000) (.new 1000000) (Run.start.inputs startPage)
    (forall_mem_cons.2 ⟨fun _ => startFrame_fits, forall_mem_singleton.2 trivial⟩)

theorem length_base64 (bytes : List UInt8) : bytes.length ≤ (base64 standardDigit ['='] bytes).length := by
  fun_induction base64 standardDigit ['='] bytes with
  | case1 => exact Nat.le_refl _
  | case2 | case3 => simp
  | case4 a b c rest ih => simp only [length_cons]; omega

/-- A record is longer than the data in it. -/
theorem length_data_le (digest : Digest) (f : InvocationFrame) : f.data.length ≤ (pullFrame digest f).size := by
  have whole : f.toJson.size ≤ (pullFrame digest f).size := by
    have inside : ("frame", f.toJson) ∈ [("requestDigest", digestJson digest), ("frame", f.toJson)] := by simp
    exact size_le_ofFields inside
  refine Nat.le_trans ?_ whole
  by_cases empty : f.data = []
  · rw [empty]
    exact Nat.zero_le _
  have listed : ("data", Value.ofBytes f.data) ∈ f.fields := by
    simp [InvocationFrame.fields, omitEmpty, empty]
  calc f.data.length
      ≤ (base64 standardDigit ['='] f.data).length := length_base64 f.data
    _ ≤ size (base64 standardDigit ['='] f.data) := length_le_size _
    _ ≤ (Value.ofBytes f.data).size := by
      simp only [Value.ofBytes, Value.size, render_string, size_cons, size_append]
      omega
    _ ≤ f.toJson.size := size_le_ofFields listed

/-- A chunk of the largest size that a page accepts. -/
def largestChunk : InvocationFrame := ⟨.ofString "inv", 1, .chunk, [], List.replicate maxFrameBytes 0, none⟩

variable {f : InvocationFrame}

/-- A valid frame whose record is too long is refused, whatever room the channel has. -/
theorem long_frame_refused {s : Link} {digest : Digest} (is_open : s.source.closed = false)
    (bound : s.source.position.digest = digest) (valid : s.source.position.validFrame f)
    (room : s.sourceDuplex.Room (Link.record digest f).length)
    (long : maxRecordPlaintext ≤ (pullFrame digest f).size) : ¬Served (Event.of Link.step s (.send f)) := by
  subst bound
  intro served
  have sent : (s.send f).2 = .sent := served is_open valid room
  have longer : maxRecordPlaintext - 1 < size (Link.record s.source.position.digest f).text :=
    Nat.lt_of_lt_of_le (by decide) long
  unfold Link.send at sent
  split at sent
  · cases sent
  · rw [if_pos longer] at sent
    cases sent

/-- A chunk with as much data as a page accepts is not sent, on a channel with room for it. -/
theorem full_chunk_refused (id : f.invocationID = .ofString "inv") (sequence : f.sequence = 1)
    (kind : f.kind = .chunk) (error : f.error = none) (length : f.data.length = maxFrameBytes) :
    ¬Served (Event.of Link.step (samplePage 1 (Link.record (fun _ => 0) f).length) (.send f)) := by
  have valid : (samplePage 1 0).source.position.validFrame f := by
    unfold Position.validFrame
    rw [id, sequence, kind, error, length]
    decide
  have longer := length_data_le (fun _ => 0) f
  rw [length] at longer
  have room := Duplex.new_room (n := (Link.record (fun _ => 0) f).length) (Nat.add_pos_left Nat.one_pos _)
  exact long_frame_refused rfl rfl valid room longer

/-- The largest chunk that a page accepts is refused: its record is longer than a record may be. -/
theorem largest_chunk_refused :
    ¬Served (Event.of Link.step (samplePage 1 (Link.record (fun _ => 0) largestChunk).length) (.send largestChunk)) :=
  full_chunk_refused rfl rfl rfl rfl length_replicate

end Pagnet.Federation
