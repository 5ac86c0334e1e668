import Pagnet.Sdk.Outcome

/-!
# What a client forgets

A completion looks the in-flight entry up by its invocation's id. Once enough other
invocations have pushed an invocation out of both memories, the same id may be
dispatched again, and a handle of the first run then completes the second one.
-/

namespace Pagnet.Sdk.Invocation
open List

/-- A call makes its result: from the lookup of the in-flight entry to `pendingResults`. -/
def makeResult (a : Agent) : List Action :=
  [.find a, .submit a, .encode a ⟨true, true, true⟩ (some ("envelope", "aad")), .confirm a, .build a (some 1000) 0, .retain a]

/-- No invocation is under way, and the goroutines from `k` on have not started. -/
structure Quiet (c : Client) (k : Nat) : Prop where
  inflight : c.inflightInvocations = .empty
  pending : c.pendingResults = .empty
  idle : ∀ i, k ≤ i → (c.dispatches i).stage = .idle
  acks : ∀ i, k ≤ i → c.acks i = none

/-- An invocation whose input cannot be decrypted, from its dispatch to its acknowledged failure. -/
def failedInvocation (k : Nat) (id : String) : List Action :=
  [.dispatch k id "d", .register k] ++ .decrypt k false :: makeResult (.dispatch k) ++
    [.acknowledge k ⟨id, "d", true, ""⟩, .mark k]

def Client.failedResult (c : Client) (k : Nat) (id : String) : CompletedInvocation :=
  ⟨⟨false, "d", id, false, "envelope", "aad", "input_decrypt_failed"⟩, c.connGeneration, 5000000000, 1, 1000, k⟩

/-- A failed invocation leaves nothing behind but its id in the two memories. -/
def Client.afterFailed (c : Client) (k : Nat) (id : String) : Client :=
  { c with
    completedInvocations := c.completedInvocations.set id (c.failedResult k id) 1000
    seenInvocations := c.seenInvocations.add id
    dispatches := Function.update c.dispatches k ⟨id, "d", c.connGeneration, true, false, .completing⟩
    calls := Function.update c.calls (.dispatch k) ⟨k, "input_decrypt_failed", true, .sending (c.failedResult k id)⟩
    acks := Function.update c.acks k none }

theorem find?_only {α κ : Type} [DecidableEq κ] {key : α → κ} (a : α) {k : κ} (is : key a = k) :
    (Relation.empty.upsert a : Relation α κ key).find? k = some a := is ▸ Relation.find?_upsert_self

theorem filter_only {α κ : Type} [DecidableEq κ] {key : α → κ} (a : α) {k : κ} (is : key a = k) :
    (Relation.empty.upsert a : Relation α κ key).filter (fun b => !decide (key b = k)) = .empty := by
  apply Relation.ext
  simp [Relation.filter, Relation.upsert, Relation.empty, is]

theorem find?_none {α κ : Type} [DecidableEq κ] {key : α → κ} (k : κ) : (Relation.empty : Relation α κ key).find? k = none :=
  rfl

theorem room : ¬ maxActiveInvocations ≤ (Relation.empty : Relation Inflight String Inflight.id).rows.length := by decide

theorem small : ¬ maxInvocationResultWireBytes - 1024 < 1000 := by decide

variable {c : Client} {k : Nat}

-- the actions are executed one after the other; every lookup meets what the run itself put there
theorem finalState_failedInvocation (id : String) (quiet : Quiet c k) (uncached : c.completedInvocations.find? id = none)
    (unseen : id ∉ c.seenInvocations.order) : finalState Client.step c (failedInvocation k id) = c.afterFailed k id := by
  have new : c.seenInvocations.contains id = false := decide_eq_false unseen
  simp [failedInvocation, makeResult, finalState, Client.step, Client.dispatch, Client.register, Client.enter,
    Client.admitted, Client.decrypt, Client.failInvocation, Client.find, Client.submit, Client.encode, Client.confirm,
    Client.build, Client.retain, Client.acknowledge, Client.mark, Client.putDispatch, Client.move, Client.putCall,
    Client.goOn, Client.setSubmitted, Client.dropInflight, Client.inflight, Client.target, Client.payload, Client.settles,
    publicOutcome, verdict, Client.afterFailed, Client.failedResult, quiet.idle k (Nat.le_refl k),
    quiet.acks k (Nat.le_refl k), quiet.inflight, quiet.pending, new, uncached, find?_none, find?_only, filter_only, room,
    small]

theorem Quiet.afterFailed (quiet : Quiet c k) (id : String) : Quiet (c.afterFailed k id) (k + 1) where
  inflight := quiet.inflight
  pending := quiet.pending
  idle i above := by
    show (Function.update c.dispatches k _ i).stage = .idle
    rw [Function.update_of_ne (by omega)]
    exact quiet.idle i (by omega)
  acks i above := by
    show Function.update c.acks k none i = none
    rw [Function.update_of_ne (by omega)]
    exact quiet.acks i (by omega)

/-- Distinct invocation ids, none of them of length one. -/
def filler (k : Nat) : String := String.ofList (List.replicate (k + 2) 'f')

theorem filler_injective : Function.Injective filler := by
  intro k m same
  have lists := congrArg (fun s => s.toList.length) same
  simp only [filler, String.toList_ofList, length_replicate] at lists
  omega

theorem filler_ne (k : Nat) : filler k ≠ "x" := by
  intro same
  have lists := congrArg (fun s => s.toList.length) same
  simp [filler] at lists

/-- What the two memories hold after the first invocation and `n` others: the most recent ones of them. -/
structure Filled (c : Client) (n : Nat) : Prop where
  quiet : Quiet c (n + 1)
  seenCap : c.seenInvocations.cap = defaultSeenCap
  seen : c.seenInvocations.order <+: ((List.range n).map filler).reverse ++ ["x"]
  cap : c.completedInvocations.cap = defaultSeenCap
  few : c.completedInvocations.entries.length ≤ defaultSeenCap
  keys : c.completedInvocations.entries.map LruEntry.key <:+ "x" :: (List.range n).map filler

theorem filler_fresh {c : Client} {n : Nat} (filled : Filled c n) :
    c.completedInvocations.find? (filler n) = none ∧ filler n ∉ c.seenInvocations.order := by
  have new : filler n ∉ "x" :: (List.range n).map filler := by
    rw [mem_cons, mem_map_of_injective filler_injective, mem_range, not_or]
    exact ⟨filler_ne n, Nat.lt_irrefl n⟩
  constructor
  · rw [LruMap.find?_eq_none]
    intro e mem same
    exact new (same ▸ filled.keys.mem (mem_map_of_mem mem))
  · intro mem
    have listed := filled.seen.mem mem
    rw [mem_append, mem_reverse, mem_singleton] at listed
    exact new (mem_cons.2 listed.symm)

/-- What the first run left is still there. -/
structure Untouched (c c' : Client) : Prop where
  run : c'.dispatches 0 = c.dispatches 0
  handles : ∀ m, c'.calls (.handle m) = c.calls (.handle m)
  generation : c'.connGeneration = c.connGeneration

theorem Untouched.trans {c c' c'' : Client} (first : Untouched c c') (second : Untouched c' c'') : Untouched c c'' :=
  ⟨second.run.trans first.run, fun m => (second.handles m).trans (first.handles m), second.generation.trans first.generation⟩

/-- One more failed invocation is the most recent one in both memories. -/
theorem Filled.next {c : Client} {n : Nat} (filled : Filled c n) : Filled (c.afterFailed (n + 1) (filler n)) (n + 1) := by
  obtain ⟨uncached, unseen⟩ := filler_fresh filled
  refine ⟨filled.quiet.afterFailed _, filled.seenCap, ?_, filled.cap, ?_, ?_⟩
  · rw [range_succ, map_append, reverse_append]
    exact (LruSet.add_prefix unseen).trans ((prefix_cons_inj _).2 filled.seen)
  · exact filled.cap ▸ LruMap.length_trim _ _ _
  · rw [range_succ, map_append, ← cons_append]
    exact (LruMap.set_suffix uncached).trans ((suffix_append_inj_of_length_eq rfl).2 ⟨filled.keys, rfl⟩)

/-- Enough other invocations make a client forget one. -/
theorem Filled.forgets {c : Client} (filled : Filled c 0) :
    ∃ actions, Quiet (finalState Client.step c actions) (defaultSeenCap + 1) ∧
      Untouched c (finalState Client.step c actions) ∧
      (finalState Client.step c actions).completedInvocations.find? "x" = none ∧
      "x" ∉ (finalState Client.step c actions).seenInvocations.order := by
  have grows : ∀ n, ∃ actions, Filled (finalState Client.step c actions) n ∧
      Untouched c (finalState Client.step c actions) := by
    intro n
    induction n with
    | zero => exact ⟨[], filled, ⟨rfl, fun _ => rfl, rfl⟩⟩
    | succ n ih =>
      obtain ⟨actions, filled, kept⟩ := ih
      refine ⟨actions ++ failedInvocation (n + 1) (filler n), ?_⟩
      rw [finalState_append,
        finalState_failedInvocation _ filled.quiet (filler_fresh filled).1 (filler_fresh filled).2]
      exact ⟨filled.next, kept.trans ⟨rfl, fun _ => rfl, rfl⟩⟩
  obtain ⟨actions, full, kept⟩ := grows defaultSeenCap
  have others : "x" ∉ (List.range defaultSeenCap).map filler := by
    intro mem
    obtain ⟨k, -, same⟩ := mem_map.1 mem
    exact filler_ne k same
  refine ⟨actions, full.quiet, kept, ?_, fun mem => ?_⟩
  · -- there are as many others as entries, so that these are all that is left
    rw [LruMap.find?_eq_none]
    intro e mem same
    have recent := suffix_of_suffix_length_le full.keys (suffix_cons "x" _) (by simpa using full.few)
    exact others (same ▸ recent.mem (mem_map_of_mem mem))
  · have recent := prefix_of_prefix_length_le full.seen (prefix_append _ ["x"])
      (by simpa using full.seenCap ▸ (finalState Client.step c actions).seenInvocations.bounded)
    exact others (mem_reverse.1 (recent.mem mem))

/-- The handler of the first run completes its invocation through its handle, and goes on running. -/
def firstResult : List Action :=
  [.dispatch 0 "x" "d0", .register 0, .decrypt 0 true, .accept 0 true, .lookup 0 .handler, .complete 0 0 false,
    .check (.handle 0)] ++ makeResult (.handle 0)

/-- The result is sent and acknowledged. -/
def firstReceipt : List Action := [.send (.handle 0) true, .acknowledge 0 ⟨"x", "d0", true, ""⟩, .mark 0]

/-- The client after the first run's result was acknowledged. -/
def afterFirst : Client := finalState Client.step Client.new (firstResult ++ firstReceipt)

theorem after_first_filled : Filled afterFirst 0 := by
  refine ⟨⟨rfl, rfl, fun i above => ?_, fun i above => ?_⟩, rfl, prefix_rfl, rfl, by decide, suffix_rfl⟩
  · cases i with
    | zero => omega
    | succ k => rfl
  · cases i with
    | zero => omega
    | succ k => rfl

/-- The registration of the second run, and a second completion through the handle of the first one. -/
def secondResult (k : Nat) : List Action :=
  [.dispatch k "x" "d1", .register k] ++ ([.complete 1 0 false, .check (.handle 1)] ++ makeResult (.handle 1))

/-- The second completion of the first run goes to the registration of the second one. -/
theorem second_sent {c : Client} {k : Nat} (quiet : Quiet c k) (positive : 0 < k)
    (uncached : c.completedInvocations.find? "x" = none) (unseen : "x" ∉ c.seenInvocations.order)
    (first : c.dispatches 0 = ⟨"x", "d0", 0, true, true, .running⟩) (idle : (c.calls (.handle 1)).stage = .idle)
    (generation : c.connGeneration = 0) :
    ∃ comp, (Event.of Client.step (finalState Client.step c (secondResult k)) (.send (.handle 1) true)).output = .result comp ∧
      comp.origin = 0 ∧ comp.result.dispatchID = "d1" := by
  have new : c.seenInvocations.contains "x" = false := decide_eq_false unseen
  refine ⟨⟨⟨false, "d1", "x", true, "envelope", "aad", "completed"⟩, 0, 5000000000, 1, 1000, 0⟩, ?_, rfl, rfl⟩
  simp [secondResult, makeResult, finalState, Client.step, Client.dispatch, Client.register, Client.enter, Client.admitted,
    Client.complete, Client.check, Client.find, Client.submit, Client.encode, Client.confirm, Client.build, Client.retain,
    Client.send, Client.putDispatch, Client.putCall, Client.goOn, Client.setSubmitted, Client.inflight,
    Client.target, Client.payload, publicOutcome, verdict, Output.when, quiet.idle k (Nat.le_refl k), quiet.inflight, first,
    idle, generation, Nat.ne_of_lt positive, new, uncached, find?_none, find?_only, room, small]

/-- A handle that outlives the memory of its invocation: the handler of the first run completes a second time, and the
result goes out for the dispatch of the second run. -/
theorem stale_handle_answers : ∃ trace c, Run Client.step Client.new trace c ∧ ¬ OneOutcome trace c := by
  obtain ⟨others, quiet, kept, uncached, unseen⟩ := after_first_filled.forgets
  have idle : ((finalState Client.step afterFirst others).calls (.handle 1)).stage = .idle := by
    rw [kept.handles]
    rfl
  obtain ⟨comp, sent, origin, dispatchID⟩ := second_sent quiet (Nat.succ_pos _) uncached unseen
    (kept.run.trans rfl) idle (kept.generation.trans rfl)
  refine ⟨_, _, Run.start.inputs ((firstResult ++ firstReceipt) ++ others ++ secondResult (defaultSeenCap + 1) ++
    [.send (.handle 1) true]), fun one => ?_⟩
  have early : Event.of Client.step (finalState Client.step Client.new firstResult) (.send (.handle 0) true) ∈
      traceOf Client.step Client.new ((firstResult ++ firstReceipt) ++ others ++ secondResult (defaultSeenCap + 1) ++
        [.send (.handle 1) true]) := by
    exact mem_traceOf Client.step Client.new firstResult _ _
  have late := mem_traceOf Client.step Client.new ((firstResult ++ firstReceipt) ++ others ++
    secondResult (defaultSeenCap + 1)) (.send (.handle 1) true) []
  have same := (one _ early ⟨⟨false, "d0", "x", true, "envelope", "aad", "completed"⟩, 0, 5000000000, 1, 1000, 0⟩ rfl).2
    _ late comp ?_ origin
  · have ids := same.dispatchID
    rw [dispatchID] at ids
    exact absurd ids (by decide)
  · rw [finalState_append, finalState_append]
    exact sent
end Pagnet.Sdk.Invocation
