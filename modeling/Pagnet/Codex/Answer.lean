import Pagnet.Codex.Coherent

/-!
# The request of a Codex turn

What `pending`, the waiter's buffer and the place of `Submit` say about whether the
runtime accepted the turn. The request fails only for a turn that was not accepted,
provided that the process does not exit between the `turn/started` of the turn and
the response to its `turn/start`.
-/

namespace Pagnet.Codex

open Session

/-- The request may stand in `pending`. -/
def Pc.asks : Pc → Bool
  | .writing | .waiting | .dropping _ => true
  | _ => false

/-- The request is not written, or its write failed. -/
def Pc.unwritten : Pc → Bool
  | .lookup | .probing | .registering | .beginning | .requesting | .writing | .dropping .failed => true
  | _ => false

/-- The response was taken. -/
def Pc.answered : Pc → Bool
  | .accepting | .awaiting | .settled => true
  | _ => false

/-- The request failed and its error is being handled. -/
def Pc.fails : Pc → Bool
  | .dropping .failed | .withdrawing .failed | .clearing .failed | .draining .failed | .judging | .rejecting
  | .deciding => true
  | _ => false

/-- The request has failed, whether `Submit` knows it or not. -/
def Endpoint.failed (e : Endpoint) : Bool := e.pc.fails || (e.pc.asks && e.waiter = some false)

/-- A step at a time at which the death of the process can be told from a rejection:
responses are to requests that were written, no turn starts whose request failed, the
process does not exit between the start of a turn and its response, and `Submit`
judges the failure after the reader has cleaned up. -/
def Timely (e : Endpoint) : Action → Prop
  | .receive (.response ok) => e.pending → e.written ∧ (ok = false → e.accepted = false)
  | .receive (.notification n _) => n.isStart → e.failed = false
  | .advance => e.pc = .judging → e.cut → e.readerDone
  | .die => e.pc ≠ .rejecting
  | .read => (e.reader = .reaping → e.pc ≠ .rejecting) ∧ (e.reader = .failing → e.pending → e.accepted = false)
  | _ => True

instance (e : Endpoint) : ∀ a, Decidable (Timely e a)
  | .receive (.response _) | .receive (.notification _ _) | .advance => inferInstanceAs (Decidable (_ → _))
  | .die => inferInstanceAs (Decidable (_ ≠ _))
  | .read => inferInstanceAs (Decidable (_ ∧ _))
  | .receive (.serverRequest _ _ _) | .receive .other | .submit _ | .cancel | .write _ | .take | .giveUp
  | .eof | .deliver | .report => inferInstanceAs (Decidable True)

/-- The request of the `Submit` in flight and the acceptance of its turn. -/
structure Asked (e : Endpoint) : Prop where
  pending : e.pending → e.pc.asks
  waiting : e.pc.asks → e.pending → e.waiter = none
  accepts : e.pc.asks → e.waiter = some true → e.accepted
  refuses : e.failed → e.accepted = false
  unwritten : e.pc.unwritten → e.written = false
  unaccepted : e.pc.inFlight → e.written = false → e.accepted = false
  answered : e.pc.answered → e.accepted

theorem asked_launched (resuming : Bool) (resumeID threadID model : String) :
    Asked (.launched resuming resumeID threadID model) where
  pending none := nomatch none
  waiting none := nomatch none
  accepts none := nomatch none
  refuses _ := rfl
  unwritten none := nomatch none
  unaccepted none := nomatch none
  answered none := nomatch none

/-- The request's fields are the same. -/
structure SameRequest (e e' : Endpoint) : Prop where
  pending : e'.pending = e.pending := by rfl
  waiter : e'.waiter = e.waiter := by rfl
  written : e'.written = e.written := by rfl
  accepted : e'.accepted = e.accepted := by rfl

/-- Going from `p` to `p'` says no more about the request. -/
def Pc.tells (p p' : Pc) : Bool :=
  (p'.asks == p.asks) && (!p'.fails || p.fails) && (!p'.unwritten || p.unwritten) && (!p'.answered || p.answered) &&
    (!p'.inFlight || p.inFlight)

section

variable {e e' : Endpoint}

namespace Asked

section

variable (k : Asked e)
include k

/-- A turn in flight that was not written was not accepted. -/
theorem early (unwritten : e.pc.unwritten) : e.accepted = false := by
  refine k.unaccepted ?_ (k.unwritten unwritten)
  cases pc : e.pc with
  | idle | returned => rw [pc] at unwritten; cases unwritten
  | _ => rfl

/-- A step that says no more about the request. -/
theorem goes (same : SameRequest e e') (tells : Pc.tells e.pc e'.pc) : Asked e' := by
  simp only [Pc.tells, Bool.and_eq_true, beq_iff_eq, Bool.or_eq_true, Bool.not_eq_true'] at tells
  obtain ⟨⟨⟨⟨asks, fails⟩, unwritten⟩, answered⟩, inFlight⟩ := tells
  have implied {b b' : Bool} (either : b' = false ∨ b) (is : b') : b :=
    either.resolve_left fun no => by rw [is] at no; cases no
  exact {
    pending := by rw [same.pending, asks]; exact k.pending
    waiting := by rw [same.pending, same.waiter, asks]; exact k.waiting
    accepts := by rw [same.waiter, same.accepted, asks]; exact k.accepts
    refuses := fun is => by
      rw [same.accepted]
      unfold Endpoint.failed at is
      rw [same.waiter, asks] at is
      refine k.refuses (Bool.or_eq_true_iff.2 ((Bool.or_eq_true_iff.1 is).imp_left (implied fails)))
    unwritten := fun is => by rw [same.written]; exact k.unwritten (implied unwritten is)
    unaccepted := fun is => by rw [same.written, same.accepted]; exact k.unaccepted (implied inFlight is)
    answered := fun is => by rw [same.accepted]; exact k.answered (implied answered is) }

/-- A step of `Submit` after which its request is no longer pending. -/
theorem leaves (written : e'.written = e.written) (accepted : e'.accepted = e.accepted)
    (none : e'.pending = false) (asks : e'.pc.asks = false) (inFlight : e'.pc.inFlight → e.pc.inFlight)
    (fails : e'.pc.fails → e.accepted = false) (unwritten : e'.pc.unwritten = false)
    (answered : e'.pc.answered → e.accepted) : Asked e' where
  pending is := by rw [none] at is; cases is
  waiting is := by rw [asks] at is; cases is
  accepts is := by rw [asks] at is; cases is
  refuses is := by
    rw [accepted]
    unfold Endpoint.failed at is
    rw [asks, Bool.false_and, Bool.or_false] at is
    exact fails is
  unwritten is := by rw [unwritten] at is; cases is
  unaccepted is := by rw [written, accepted]; exact k.unaccepted (inFlight is)
  answered is := by rw [accepted]; exact answered is

theorem not_pending (asks : e.pc.asks = false) : e.pending = false := by
  cases is : e.pending with
  | false => rfl
  | true =>
    have asked := k.pending is
    rw [asks] at asked
    cases asked

theorem advance : Asked e.advance := by
  unfold Endpoint.advance
  cases pc : e.pc with
  | lookup => exact k.goes { } (by rw [pc]; cases e.listed <;> rfl)
  | probing | judging => exact k.goes { } (by rw [pc]; cases e.readerDone <;> rfl)
  | registering =>
    dsimp only
    split <;> exact k.goes { } (by rw [pc]; rfl)
  | beginning | accepting | settled | deciding => exact k.goes { } (by rw [pc]; rfl)
  | requesting =>
    have early := k.early (by rw [pc]; rfl)
    exact {
      pending := fun _ => rfl
      waiting := fun _ _ => rfl
      accepts := fun _ is => nomatch (is : none = some true)
      refuses := fun _ => early
      unwritten := fun _ => k.unwritten (by rw [pc]; rfl)
      unaccepted := fun _ _ => early
      answered := nofun }
  | dropping why =>
    refine k.leaves rfl rfl rfl rfl (fun _ => by rw [pc]; rfl) (fun fails => k.refuses ?_) rfl nofun
    cases why with
    | failed => unfold Endpoint.failed; rw [pc]; rfl
    | cancelled => cases fails
  | withdrawing why => exact k.goes { } (by rw [pc]; cases why <;> rfl)
  | clearing why =>
    dsimp only
    split <;> exact k.goes { } (by rw [pc]; cases why <;> rfl)
  | draining why =>
    dsimp only
    split
    · exact k.goes { } (by rw [pc]; cases why <;> rfl)
    · exact k
  | _ => exact k

theorem submit (turnID : String) : Asked (e.submit turnID) := by
  unfold Endpoint.submit
  split
  · exact k
  rename_i idle
  have asks : e.pc.asks = false := by
    cases pc : e.pc with
    | idle | returned => rfl
    | _ => rw [pc] at idle; exact absurd rfl idle
  have none := k.not_pending asks
  exact {
    pending := fun is => absurd (none.symm.trans is) Bool.false_ne_true
    waiting := nofun
    accepts := nofun
    refuses := fun _ => rfl
    unwritten := fun _ => rfl
    unaccepted := fun _ _ => rfl
    answered := nofun }

theorem write (ok : Bool) : Asked (e.write ok) := by
  unfold Endpoint.write
  cases pc : e.pc with
  | writing =>
    have early := k.early (by rw [pc]; rfl)
    dsimp only
    split
    · exact {
        pending := fun _ => rfl
        waiting := fun _ => k.waiting (by rw [pc]; rfl)
        accepts := fun _ => k.accepts (by rw [pc]; rfl)
        refuses := fun _ => early
        unwritten := nofun
        unaccepted := nofun
        answered := nofun }
    · exact {
        pending := fun _ => rfl
        waiting := fun _ => k.waiting (by rw [pc]; rfl)
        accepts := fun _ => k.accepts (by rw [pc]; rfl)
        refuses := fun _ => early
        unwritten := fun _ => k.unwritten (by rw [pc]; rfl)
        unaccepted := fun _ _ => early
        answered := nofun }
  | _ => exact k

theorem take : Asked e.take := by
  have answered (asks : e.pc.asks) {ok : Bool} (waiter : e.waiter = some ok) : e.pending = false := by
    cases is : e.pending with
    | false => rfl
    | true =>
      rw [k.waiting asks is] at waiter
      cases waiter
  unfold Endpoint.take
  split
  next pc waiter =>
    have asks : e.pc.asks := by rw [pc]; rfl
    exact k.leaves rfl rfl (answered asks waiter) rfl (fun _ => by rw [pc]; rfl) nofun rfl fun _ => k.accepts asks waiter
  next pc waiter =>
    have asks : e.pc.asks := by rw [pc]; rfl
    refine k.leaves rfl rfl (answered asks waiter) rfl (fun _ => by rw [pc]; rfl) (fun _ => k.refuses ?_) rfl nofun
    unfold Endpoint.failed
    rw [pc, waiter]
    rfl
  next pc =>
    split
    · exact k.goes { } (by rw [pc]; rfl)
    · exact k
  · exact k

theorem giveUp : Asked e.giveUp := by
  unfold Endpoint.giveUp
  split
  next pc _ => exact k.goes { } (by rw [pc]; rfl)
  next pc _ => exact k.goes { } (by rw [pc]; rfl)
  · exact k

/-- The waiter gets its one answer. -/
theorem answers {ok : Bool} (pending : e.pending) (accepted : e'.accepted = (e.accepted || ok))
    (none : e'.pending = false) (waiter : e'.waiter = some ok) (written : e'.written = e.written) (pc : e'.pc = e.pc)
    (refused : ok = false → e.accepted = false) (allowed : ok → e.written) : Asked e' where
  pending is := by rw [none] at is; cases is
  waiting _ is := by rw [none] at is; cases is
  accepts _ is := by
    rw [waiter] at is
    cases is
    rw [accepted, Bool.or_true]
  refuses is := by
    rw [accepted]
    cases ok with
    | false => rw [refused rfl]; rfl
    | true =>
      -- only a write that failed leaves a request that fails before its answer
      have asks := k.pending pending
      unfold Endpoint.failed at is
      rw [waiter, pc] at is
      have written := allowed rfl
      cases place : e.pc with
      | dropping why =>
        cases why with
        | failed => rw [k.unwritten (by rw [place]; rfl)] at written; cases written
        | cancelled => rw [place] at is; cases is
      | writing | waiting => rw [place] at is; cases is
      | _ => rw [place] at asks; cases asks
  unwritten := by rw [pc, written]; exact k.unwritten
  unaccepted inFlight is := by
    rw [written] at is
    rw [accepted]
    cases ok with
    | false => rw [refused rfl]; rfl
    | true => rw [allowed rfl] at is; cases is
  answered is := by
    have asks := k.pending pending
    rw [pc] at is
    cases place : e.pc with
    | writing | waiting | dropping => rw [place] at is; cases is
    | _ => rw [place] at asks; cases asks

/-- A start of the turn is its acceptance. -/
theorem starts (written : e.written) (sound : e.failed = false)
    (pending : e'.pending = e.pending) (waiter : e'.waiter = e.waiter) (written' : e'.written = e.written)
    (pc : e'.pc = e.pc) (accepted : e'.accepted) : Asked e' where
  pending := by rw [pending, pc]; exact k.pending
  waiting := by rw [pending, pc, waiter]; exact k.waiting
  accepts _ _ := accepted
  refuses is := by
    unfold Endpoint.failed at is sound
    rw [pc, waiter, sound] at is
    cases is
  unwritten := by rw [pc, written']; exact k.unwritten
  unaccepted _ is := by rw [written', written] at is; cases is
  answered _ := accepted

theorem of_same_place (same : SameRequest e e') (pc : e'.pc = e.pc) : Asked e' := by
  refine k.goes same ?_
  rw [pc]
  simp [Pc.tells]

/-- Every timely message leaves acceptance and request in order. -/
theorem dispatch (provider : Provider) (m : Message) (timely : Timely e (.receive m)) :
    Asked (e.dispatch provider m) := by
  cases m with
  | response ok =>
    unfold Endpoint.dispatch
    dsimp only
    split
    next pending =>
      obtain ⟨written, refused⟩ := timely pending
      have none := k.waiting (k.pending pending) pending
      exact k.answers pending rfl rfl (by dsimp only; rw [none]; rfl) rfl rfl refused fun _ => written
    · exact k
  | notification n own =>
    unfold Endpoint.dispatch
    dsimp only
    cases starts : own && n.isStart && e.written && e.pc.inFlight with
    | false => exact k.of_same_place ⟨rfl, rfl, rfl, Bool.or_false _⟩ rfl
    | true =>
      simp only [Bool.and_eq_true] at starts
      obtain ⟨⟨⟨-, is_start⟩, written⟩, -⟩ := starts
      exact k.starts written (timely is_start) rfl rfl rfl rfl (Bool.or_true _)
  | serverRequest rpcID method params => exact k.of_same_place { } rfl
  | other => exact k

theorem read (timely : Timely e .read) : Asked e.read := by
  have same {e' : Endpoint} (request : SameRequest e e') (pc : e'.pc = e.pc) : Asked e' := k.of_same_place request pc
  unfold Endpoint.read
  cases reader : e.reader with
  | ready | sending | done => exact k
  | routing events =>
    cases events with
    | nil => exact same { } rfl
    | cons ev rest =>
      dsimp only
      unfold Endpoint.capture
      split
      · exact same { } rfl
      · split <;> exact same { } rfl
  | settling ch rest =>
    dsimp only
    unfold Endpoint.settle
    split
    · exact same { } rfl
    · split <;> exact same { } rfl
  | failing =>
    cases pending : e.pending with
    | false => exact same ⟨pending.symm, rfl, rfl, rfl⟩ rfl
    | true =>
      have none := k.waiting (k.pending pending) pending
      exact k.answers pending (show e.accepted = (e.accepted || false) from (Bool.or_false _).symm) rfl
        (by dsimp only; rw [none]; rfl) rfl rfl (fun _ => timely.2 reader pending) nofun
  | signalling =>
    dsimp only
    unfold Endpoint.signal Endpoint.cutOff
    split
    · split <;> exact same { } rfl
    · split <;> exact same { } rfl
  | settleDraining | signalDraining =>
    dsimp only
    split
    · exact same { } rfl
    · exact k
  | _ => exact same { } rfl

/-- Every timely step leaves acceptance and request in order. -/
theorem step (provider : Provider) (a : Action) (timely : Timely e a) : Asked (e.step provider a).1 := by
  cases a with
  | submit turnID => exact k.submit turnID
  | cancel | die => exact k.of_same_place { } rfl
  | advance => exact k.advance
  | write ok => exact k.write ok
  | take => exact k.take
  | giveUp => exact k.giveUp
  | receive m =>
    show Asked (e.receive provider m)
    unfold Endpoint.receive
    split
    · exact k.dispatch provider m timely
    · exact k
  | eof =>
    unfold Endpoint.step
    dsimp only
    split
    · exact k.of_same_place { } rfl
    · exact k
  | read => exact k.read timely
  | deliver =>
    show Asked e.deliver
    unfold Endpoint.deliver
    split
    · exact k.of_same_place { } rfl
    · exact k
  | report =>
    show Asked e.report
    unfold Endpoint.report
    split
    next pc => exact k.goes { } (by rw [pc]; rfl)
    · exact k

end

end Asked

end

end Pagnet.Codex
