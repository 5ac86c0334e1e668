import Pagnet.Data.Run
import Pagnet.Session.Event

/-!
# The batcher of native events

With an observer and a batch observer set, consecutive output of one session and
turn waits in a bounded batch, and every other event flushes it first. A lock
makes each push and each flush one step, and the first error is kept: from then
on the batcher calls nobody.
-/

namespace Pagnet.Runtime

open Session List

def nativeOutputBatchMaxEvents : Nat := 32

def nativeOutputBatchMaxBytes : Nat := 64 * 1024

variable {ε : Type}

inductive Call
  | observed (events : List SessionEvent)
  | published (event : SessionEvent)

/-- Whether there is a publisher, the length that an event is marshalled to, and
what the calls return one after the other. -/
structure Hooks (ε : Type) where
  publish : Bool
  marshal : SessionEvent → Except ε Nat
  outcome : Nat → Option ε

/-- The batcher, with the calls that it made. -/
structure NativeEventBatcher (ε : Type) where
  pending : List SessionEvent := []
  bytes : Nat := 0
  err : Option ε := none
  calls : List Call := []

namespace Hooks

variable (h : Hooks ε)

/-- The calls due for a batch or for one event, which has its own observer. -/
def script (events : List SessionEvent) : List Call :=
  .observed events :: if h.publish then events.map .published else []

/-- Calls one after the other, until one fails. -/
def perform : List Call → NativeEventBatcher ε → NativeEventBatcher ε
  | [], b => b
  | call :: script, b =>
    let out := { b with err := h.outcome b.calls.length, calls := b.calls ++ [call] }
    if out.err.isSome then out else perform script out

variable (b : NativeEventBatcher ε) (event : SessionEvent)

/-- Every return of the source is the error recorded at that point. -/
def flushLocked : NativeEventBatcher ε :=
  if b.err.isSome ∨ b.pending = [] then b
  else
    let out := h.perform (h.script b.pending) b
    if out.err.isSome then out else { out with pending := [], bytes := 0 }

/-- The batch is cut before an event of another source, or one that it has no room for. -/
def cuts (size : Nat) : Bool :=
  match b.pending with
  | [] => false
  | first :: _ => first.sessionID ≠ event.sessionID || first.turnID ≠ event.turnID ||
      (size : Int) > nativeOutputBatchMaxBytes - b.bytes

def append (size : Nat) (b : NativeEventBatcher ε) : NativeEventBatcher ε :=
  let grown := { b with pending := b.pending ++ [event], bytes := b.bytes + size }
  if nativeOutputBatchMaxEvents ≤ grown.pending.length ∨ nativeOutputBatchMaxBytes ≤ grown.bytes then
    h.flushLocked grown
  else grown

def push : NativeEventBatcher ε :=
  if b.err.isSome then b
  else if event.type = .turnOutput ∧ event.nativeOutput ∧ event.output ≠ "" then
    match h.marshal event with
    | .error err => { b with err := some err }
    | .ok size =>
      let room := if cuts b event size then h.flushLocked b else b
      if room.err.isSome then room else h.append event size room
  else
    let flushed := h.flushLocked b
    if flushed.err.isSome then flushed else h.perform (h.script [event]) flushed

end Hooks

/-- What happens under the lock; a timer, an idle source and its end all flush. -/
inductive Locked
  | push (event : SessionEvent)
  | flush

/-- One locked section, with the error that it returns. -/
def Hooks.step (h : Hooks ε) (b : NativeEventBatcher ε) : Locked → NativeEventBatcher ε × Option ε
  | .push event => (h.push b event, (h.push b event).err)
  | .flush => (h.flushLocked b, (h.flushLocked b).err)

def pushedIn (inputs : List Locked) : List SessionEvent :=
  inputs.flatMap fun | .push event => [event] | .flush => []

namespace Hooks

variable (h : Hooks ε)

def size (event : SessionEvent) : Nat := (h.marshal event).toOption.getD 0

/-- What may be observed in one call. -/
structure Batch (events : List SessionEvent) : Prop where
  source : ∀ a ∈ events, ∀ b ∈ events, a.sessionID = b.sessionID ∧ a.turnID = b.turnID
  count : events.length ≤ nativeOutputBatchMaxEvents
  bytes : events.length ≤ 1 ∨ (events.map h.size).sum ≤ nativeOutputBatchMaxBytes

/-- The calls made follow the scripts of batches that were pushed in this order. -/
structure Follows (pushed : List SessionEvent) (batches : List (List SessionEvent)) (b : NativeEventBatcher ε) :
    Prop where
  batch : ∀ events ∈ batches, h.Batch events
  order : batches.flatten <+: pushed
  calls : b.calls <+: batches.flatMap h.script
  failure : ∀ n < b.calls.length, ∀ err, h.outcome n = some err → n + 1 = b.calls.length ∧ b.err = some err

/-- No error so far: what is not in a batch waits for one. -/
structure Live (pushed : List SessionEvent) (batches : List (List SessionEvent)) (b : NativeEventBatcher ε) :
    Prop where
  batch : ∀ events ∈ batches, h.Batch events
  whole : batches.flatten ++ b.pending = pushed
  calls : b.calls = batches.flatMap h.script
  clean : ∀ n < b.calls.length, h.outcome n = none
  err : b.err = none
  waiting : h.Batch b.pending
  bytes : b.bytes = (b.pending.map h.size).sum

/-- Stopped by an error, or live with fewer than `limit` events waiting. -/
def Sound (pushed : List SessionEvent) (limit : Nat) (b : NativeEventBatcher ε) : Prop :=
  (b.err.isSome ∧ ∃ batches, h.Follows pushed batches b) ∨
    ∃ batches, h.Live pushed batches b ∧ b.pending.length < limit

variable {h : Hooks ε} {pushed all events : List SessionEvent} {batches : List (List SessionEvent)}
  {b : NativeEventBatcher ε} {event : SessionEvent} {limit limit' : Nat}

theorem Batch.nil : h.Batch [] := ⟨by simp, by simp, by simp⟩

theorem Batch.single : h.Batch [event] := ⟨by simp, by simp [nativeOutputBatchMaxEvents], .inl (by simp)⟩

theorem Live.follows (live : h.Live pushed batches b) : h.Follows pushed batches b :=
  ⟨live.batch, ⟨b.pending, live.whole⟩, live.calls ▸ prefix_rfl, fun n lt err is => by simp [live.clean n lt] at is⟩

/-- What goes on unless an error stopped the batcher. -/
theorem Sound.next {out : NativeEventBatcher ε} (sound : h.Sound pushed limit b) (longer : pushed <+: all)
    (go : ∀ batches, h.Live pushed batches b → b.pending.length < limit → h.Sound all limit' out) :
    h.Sound all limit' (if b.err.isSome then b else out) := by
  rcases sound with ⟨err, batches, follows⟩ | ⟨batches, live, room⟩
  · rw [if_pos err]
    exact .inl ⟨err, batches, { follows with order := follows.order.trans longer }⟩
  · rw [if_neg (by simp [live.err])]
    exact go batches live room

theorem perform_spec (script : List Call) (b : NativeEventBatcher ε) (err : b.err = none)
    (clean : ∀ n < b.calls.length, h.outcome n = none) :
    ((h.perform script b).err.isSome ∧ (h.perform script b).calls <+: b.calls ++ script ∧
      ∀ n < (h.perform script b).calls.length, ∀ err, h.outcome n = some err →
        n + 1 = (h.perform script b).calls.length ∧ (h.perform script b).err = some err) ∨
    h.perform script b = { b with calls := b.calls ++ script } ∧
      ∀ n < (b.calls ++ script).length, h.outcome n = none := by
  induction script generalizing b with
  | nil => exact .inr (by simpa [perform] using clean)
  | cons call script ih =>
    unfold perform
    cases outcome : h.outcome b.calls.length with
    | none =>
      have next (n : Nat) (lt : n < (b.calls ++ [call]).length) : h.outcome n = none := by
        rcases Nat.lt_succ_iff_lt_or_eq.1 (by simpa using lt) with lt | rfl
        exacts [clean n lt, outcome]
      simpa [err] using ih { b with err := none, calls := b.calls ++ [call] } rfl next
    | some e =>
      refine .inl ⟨by simp, by simp, fun n lt err is => ?_⟩
      rcases Nat.lt_succ_iff_lt_or_eq.1 (by simpa using lt) with lt | rfl
      · simp [clean n lt] at is
      · simpa [outcome] using is

/-- The script of events that are next in order. -/
theorem Live.perform (live : h.Live pushed batches b) (batch : h.Batch events) (order : batches.flatten ++ events = all) :
    h.Sound all 1 (h.perform (h.script events) b) ∧ (h.perform (h.script events) b).err.isSome ∨
    ∃ calls, h.perform (h.script events) b = { b with calls } ∧
      h.Sound all 1 { b with pending := [], bytes := 0, calls } := by
  have script : b.calls ++ h.script events = (batches ++ [events]).flatMap h.script := by simp [live.calls]
  have bounded : ∀ other ∈ batches ++ [events], h.Batch other := by
    simpa [or_imp, forall_and] using ⟨live.batch, batch⟩
  have whole : (batches ++ [events]).flatten = all := by simpa using order
  rcases perform_spec (h.script events) b live.err live.clean with ⟨err, calls, failure⟩ | ⟨is, clean⟩
  · exact .inl ⟨.inl ⟨err, batches ++ [events], bounded, whole ▸ prefix_rfl, script ▸ calls, failure⟩, err⟩
  · refine .inr ⟨_, is, .inr ⟨_, ⟨bounded, ?_, script, clean, live.err, .nil, rfl⟩, Nat.one_pos⟩⟩
    rw [append_nil, whole]

theorem Live.flushLocked (live : h.Live pushed batches b) : h.Sound pushed 1 (h.flushLocked b) := by
  unfold Hooks.flushLocked
  split
  next none => exact .inr ⟨batches, live, by simp [none.resolve_left (by simp [live.err])]⟩
  next some =>
    rcases live.perform live.waiting live.whole with ⟨sound, err⟩ | ⟨calls, is, sound⟩
    · simpa only [err, if_true] using sound
    · simpa only [is, live.err, Option.isSome_none, Bool.false_eq_true, if_false] using sound

/-- An event that the batch is not cut for. -/
theorem Live.fits {size : Nat} (live : h.Live pushed batches b) (room : b.pending.length < nativeOutputBatchMaxEvents)
    (sized : h.size event = size) (uncut : cuts b event size = false) : h.Batch (b.pending ++ [event]) := by
  obtain ⟨source, -, -⟩ := live.waiting
  have bytes := live.bytes
  cases pending : b.pending with
  | nil => exact .single
  | cons first rest =>
    simp only [cuts, pending, Bool.or_eq_false_iff, decide_eq_false_iff_not, not_not] at uncut
    obtain ⟨⟨session, turn⟩, small⟩ := uncut
    rw [pending] at source room bytes
    have same : ∀ a ∈ first :: rest ++ [event], a.sessionID = first.sessionID ∧ a.turnID = first.turnID := by
      intro a mem
      rcases mem_append.1 mem with old | new
      · exact source a old first mem_cons_self
      · rw [mem_singleton.1 new]
        exact ⟨session.symm, turn.symm⟩
    refine ⟨fun a ha c hc => ?_, by simpa using Nat.succ_le_of_lt room, .inr ?_⟩
    · exact ⟨(same a ha).1.trans (same c hc).1.symm, (same a ha).2.trans (same c hc).2.symm⟩
    · rw [map_append, sum_append, ← bytes, map_singleton, sum_singleton, sized]
      omega

theorem Sound.mono (sound : h.Sound pushed limit b) (le : limit ≤ limit') : h.Sound pushed limit' b :=
  sound.imp_right fun ⟨batches, live, room⟩ => ⟨batches, live, room.trans_le le⟩

theorem Live.append (live : h.Live pushed batches b) {size : Nat} (sized : h.size event = size)
    (batch : h.Batch (b.pending ++ [event])) :
    h.Sound (pushed ++ [event]) nativeOutputBatchMaxEvents (h.append event size b) := by
  have grown : h.Live (pushed ++ [event]) batches
      { b with pending := b.pending ++ [event], bytes := b.bytes + size } :=
    { live with
      whole := by rw [← append_assoc, live.whole]
      waiting := batch
      bytes := by simp [live.bytes, sized] }
  unfold Hooks.append
  dsimp only
  split
  next => exact grown.flushLocked.mono (by decide)
  next small => exact .inr ⟨batches, grown, Nat.lt_of_not_le (not_or.1 small).1⟩

theorem Sound.push (sound : h.Sound pushed nativeOutputBatchMaxEvents b) :
    h.Sound (pushed ++ [event]) nativeOutputBatchMaxEvents (h.push b event) := by
  unfold Hooks.push
  have longer : pushed <+: pushed ++ [event] := prefix_append _ _
  refine sound.next longer fun batches live room => ?_
  split
  next =>
    split
    next err _ =>
      obtain ⟨batch, order, calls, -⟩ := live.follows
      refine .inl ⟨rfl, batches, batch, order.trans longer, calls, fun n lt e is => ?_⟩
      simp [live.clean n lt] at is
    next size ok =>
      have sized : h.size event = size := by rw [Hooks.size, ok]; rfl
      split
      next cut =>
        refine live.flushLocked.next longer fun batches live empty => live.append sized ?_
        rw [length_eq_zero_iff.1 (Nat.lt_one_iff.1 empty)]
        exact .single
      next uncut =>
        refine Sound.next (.inr ⟨batches, live, room⟩) longer fun batches live room => live.append sized ?_
        exact live.fits room sized (by simpa using uncut)
  next =>
    refine Sound.mono (live.flushLocked.next longer fun batches live empty => ?_) (Nat.succ_le_succ (Nat.zero_le 31))
    have empty := length_eq_zero_iff.1 (Nat.lt_one_iff.1 empty)
    have whole : batches.flatten ++ [event] = pushed ++ [event] := by simp [← live.whole, empty]
    rcases live.perform .single whole with ⟨sound, -⟩ | ⟨calls, is, sound⟩
    · exact sound
    · have bytes : (h.flushLocked b).bytes = 0 := by rw [live.bytes, empty]; rfl
      rwa [is, empty, bytes]

theorem Sound.flushLocked (sound : h.Sound pushed nativeOutputBatchMaxEvents b) :
    h.Sound pushed nativeOutputBatchMaxEvents (h.flushLocked b) := by
  rcases sound with ⟨err, follows⟩ | ⟨batches, live, -⟩
  · rw [Hooks.flushLocked, if_pos (.inl err)]
    exact .inl ⟨err, follows⟩
  · exact live.flushLocked.mono (by decide)

theorem Sound.run (sound : h.Sound pushed nativeOutputBatchMaxEvents b) (inputs : List Locked) :
    h.Sound (pushed ++ pushedIn inputs) nativeOutputBatchMaxEvents (finalState h.step b inputs) := by
  induction inputs generalizing pushed b with
  | nil => rwa [pushedIn, flatMap_nil, append_nil]
  | cons input inputs ih =>
    cases input with
    | push event => exact append_assoc pushed [event] _ ▸ ih sound.push
    | flush => exact ih sound.flushLocked

end Hooks

/-- However pushes and flushes follow each other and whatever the calls return: the
calls follow the scripts of bounded batches that are the pushed events in their
order, a batch being observed and then its events published; a call that fails is
the last one, and its error is what every later push or flush returns, without a
call. -/
theorem batcher_follows_pushes (h : Hooks ε) (inputs : List Locked) :
    (∃ batches, h.Follows (pushedIn inputs) batches (finalState h.step {} inputs)) ∧
      ∀ err, (finalState h.step {} inputs).err = some err →
        ∀ input, h.step (finalState h.step {} inputs) input = (finalState h.step {} inputs, some err) := by
  have start : h.Sound [] nativeOutputBatchMaxEvents {} :=
    .inr ⟨[], ⟨by simp, rfl, rfl, by simp, rfl, .nil, rfl⟩, Nat.zero_lt_succ 31⟩
  constructor
  · rcases start.run inputs with ⟨-, follows⟩ | ⟨batches, live, -⟩
    exacts [follows, ⟨batches, live.follows⟩]
  · intro err failed input
    cases input <;> simp [Hooks.step, Hooks.push, Hooks.flushLocked, failed]

/-- A flush that returns no error leaves nothing behind: all that was pushed is in batches whose scripts were performed. -/
theorem flush_completes (h : Hooks ε) (inputs : List Locked) :
    let b := finalState h.step {} (inputs ++ [.flush])
    b.err.isSome ∨ b.pending = [] ∧ ∃ batches, h.Live (pushedIn inputs) batches b := by
  have start : h.Sound [] nativeOutputBatchMaxEvents {} :=
    .inr ⟨[], ⟨by simp, rfl, rfl, by simp, rfl, .nil, rfl⟩, Nat.zero_lt_succ 31⟩
  intro b
  have flush : b = h.flushLocked (finalState h.step {} inputs) := finalState_append ..
  rw [flush]
  rcases start.run inputs with ⟨err, -⟩ | ⟨batches, live, -⟩
  · rw [Hooks.flushLocked, if_pos (.inl err)]
    exact .inl err
  · rcases live.flushLocked with ⟨err, -⟩ | ⟨batches, live, empty⟩
    · exact .inl err
    · exact .inr ⟨length_eq_zero_iff.1 (Nat.lt_one_iff.1 empty), batches, live⟩

end Pagnet.Runtime
