import Pagnet.Sdk.Invocation

/-!
# What a step of the invocation machine can do

Every action has one of a few effects. The invariants are proved over these effects.
-/

namespace Pagnet.Sdk.Invocation

/-- A goroutine that has not passed its section under `invMu`. -/
def Stage.fresh : Stage → Bool
  | .idle | .arrived => true
  | _ => false

/-- A registration whose handler has not been looked up. -/
def Stage.early : Stage → Bool
  | .registered | .decrypted | .refused | .accepted => true
  | _ => false

/-- The stages from the start of the handler on. -/
def Stage.late : Stage → Bool
  | .running | .completing | .asynchronous | .returned => true
  | _ => false

/-- The stages of a registration before its dispatch goroutine completes it. -/
def Stage.live : Stage → Bool
  | .registered | .decrypted | .refused | .accepted | .running | .asynchronous => true
  | _ => false

/-- A completion of this run may have been called. -/
def Dispatch.known (d : Dispatch) : Bool := d.started || d.stage == .completing

/-- The registration whose `resultSubmitted` a call has set and not handed on. -/
def CallStage.owns : CallStage → Option Nat
  | .encoding original | .confirming original _ | .building original _ _ | .retaining original _
  | .releasing original => some original
  | _ => none

/-- A stage that carries nothing. -/
def CallStage.plain : CallStage → Bool
  | .checking | .asking | .finding | .returned => true
  | _ => false

/-- The same run at another stage, with its result untouched. -/
structure Dispatch.Goes (d d' : Dispatch) : Prop where
  invocationID : d'.invocationID = d.invocationID
  dispatchID : d'.dispatchID = d.dispatchID
  resultSubmitted : d'.resultSubmitted = d.resultSubmitted
  early : d'.stage.early → d.stage.early
  fresh : d'.stage.fresh = false
  late : (d.started → d.stage.late) → d'.started → d'.stage.late
  known : d.known → d'.known
  learned : d'.known → d.known ∨ d.stage.early
  ran : (d.stage = .running → d.started) → d'.stage = .running → d'.started
  here : d.stage ≠ .completing
  stays : d.stage.late → d'.stage.late

/-- Why a call ends without a result, or after its result was sent. -/
inductive Returns (c : Client) (a : Agent) : Action → Output → Prop
  | terminal (answer : Option ServerState) (yes : answer.any ServerState.terminal) :
      Returns c a (.ask a answer) .nothing
  | missing (none_found : (c.calls a).stage = .submitting none) : Returns c a (.submit a) .nothing
  | taken (original : Nat) (found : (c.calls a).stage = .submitting (some original))
      (submitted : (c.dispatches original).resultSubmitted) : Returns c a (.submit a) .nothing
  | sent (comp : CompletedInvocation) (ready : (c.calls a).stage = .sending comp) (sent : Bool) :
      Returns c a (.send a sent) (.when sent (.result comp))

/-- Why a call gives the result up that it was making. -/
inductive GivesUp (c : Client) (a : Agent) (original : Nat) : Action → Prop
  | encryption (encoding : Encoding) : GivesUp c a original (.encode a encoding none)
  | gone (outcome : Outcome) (stage : (c.calls a).stage = .confirming original outcome)
      (absent : c.inflight (c.target a) = none) : GivesUp c a original (.confirm a)
  | unassigned (outcome : Outcome) (stage : (c.calls a).stage = .confirming original outcome) (ai : Nat)
      (found : c.inflight (c.target a) = some ai) (empty : (c.dispatches ai).dispatchID = "") :
      GivesUp c a original (.confirm a)
  | unencodable (now : Int) : GivesUp c a original (.build a none now)
  | oversized (bytes : Nat) (large : maxInvocationResultWireBytes - 1024 < bytes) (now : Int) :
      GivesUp c a original (.build a (some bytes) now)

/-- What an action can do. -/
inductive Effect (c : Client) : Action → Client × Output → Prop
  | stay (action : Action) : Effect c action (c, .nothing)
  | arrive (i : Nat) (id dispatchID : String) (idle : (c.dispatches i).stage = .idle) (assigned : dispatchID ≠ "") :
      Effect c (.dispatch i id dispatchID) (c.putDispatch i ⟨id, dispatchID, 0, false, false, .arrived⟩, .nothing)
  | cached (i : Nat) (comp : CompletedInvocation) (arrived : (c.dispatches i).stage = .arrived)
      (found : c.completedInvocations.find? (c.dispatches i).invocationID = some comp) :
      Effect c (.register i) (c.answerCached i comp, .nothing)
  | registers (i : Nat) (arrived : (c.dispatches i).stage = .arrived)
      (uncached : c.completedInvocations.find? (c.dispatches i).invocationID = none)
      (unseen : (c.dispatches i).invocationID ∉ c.seenInvocations.order)
      (absent : c.inflight (c.dispatches i).invocationID = none)
      (room : c.inflightInvocations.rows.length < maxActiveInvocations) : Effect c (.register i) (c.admitted i, .nothing)
  | goes (action : Action) (i : Nat) (d : Dispatch) (output : Output) (goes : (c.dispatches i).Goes d)
      (still : d.stage ≠ .completing) (uncached : ∀ comp, d.stage ≠ .resending comp)
      (lives : (c.dispatches i).stage.live → d.stage.live)
      (resent : ∀ comp, output = .result comp → (c.dispatches i).stage = .resending comp)
      (starts : ∀ r, output = .started r → r = i ∧ (c.dispatches i).stage = .accepted ∧ d.stage = .running) :
      Effect c action (c.putDispatch i d, output)
  | withdraw (i : Nat) (refused : (c.dispatches i).stage = .refused) : Effect c (.withdraw i)
      ((c.dropInflight (c.dispatches i).invocationID).move i .returned, .nothing)
  | begins (action : Action) (i : Nat) (call : Call)
      (before : (c.dispatches i).stage.early ∨
        (c.dispatches i).stage = .running ∧ ∃ outcome, action = .handled i outcome ∧ outcome ≠ .async) (own : call.run = i)
      (plain : call.stage.plain) (open_call : call.stage ≠ .returned) :
      Effect c action ((c.move i .completing).putCall (.dispatch i) call, .nothing)
  | handle (n : Nat) (failed : Bool) (call : Call) (idle : (c.calls (.handle n)).stage = .idle)
      (started : (c.dispatches call.run).started) (plain : call.stage.plain) :
      Effect c (.complete n call.run failed) (c.putCall (.handle n) call, .nothing)
  | plain (action : Action) (a : Agent) (stage : CallStage) (output : Output)
      (active : (c.calls a).stage ≠ .idle ∧ (c.calls a).stage ≠ .returned) (free : (c.calls a).stage.owns = none)
      (plain : stage.plain) (returns : stage = .returned → Returns c a action output)
      (silent : stage ≠ .returned → output = .nothing) : Effect c action (c.goOn a stage, output)
  | find (a : Agent) (finding : (c.calls a).stage = .finding) :
      Effect c (.find a) (c.goOn a (.submitting (c.inflight (c.target a))), .nothing)
  | submit (a : Agent) (original : Nat) (found : (c.calls a).stage = .submitting (some original))
      (free : (c.dispatches original).resultSubmitted = false) :
      Effect c (.submit a) ((c.setSubmitted original true).goOn a (.encoding original), .nothing)
  | encode (a : Agent) (encoding : Encoding) (encrypted : String × String) (original : Nat) (outcome : Outcome)
      (stage : (c.calls a).stage = .encoding original) :
      Effect c (.encode a encoding (some encrypted)) (c.goOn a (.confirming original outcome), .nothing)
  | givesUp (action : Action) (a : Agent) (original : Nat) (owner : (c.calls a).stage.owns = some original)
      (why : GivesUp c a original action) : Effect c action (c.goOn a (.releasing original), .nothing)
  | confirm (a : Agent) (original ai : Nat) (outcome : Outcome)
      (stage : (c.calls a).stage = .confirming original outcome) (found : c.inflight (c.target a) = some ai) :
      Effect c (.confirm a) (c.goOn a (.building original ai outcome), .nothing)
  | build (a : Agent) (wire : Option Nat) (now : Int) (original ai : Nat) (outcome : Outcome)
      (comp : CompletedInvocation) (stage : (c.calls a).stage = .building original ai outcome)
      (origin : comp.origin = (c.calls a).run) (result : comp.result = c.payload a ai outcome) :
      Effect c (.build a wire now) (c.goOn a (.retaining original comp), .nothing)
  | retain (a : Agent) (original : Nat) (comp : CompletedInvocation)
      (stage : (c.calls a).stage = .retaining original comp) : Effect c (.retain a)
      ({ c.goOn a (.sending comp) with pendingResults := c.pendingResults.upsert ⟨c.target a, comp⟩ }, .nothing)
  | release (a : Agent) (original : Nat) (stage : (c.calls a).stage = .releasing original) :
      Effect c (.release a) ((c.setSubmitted original false).goOn a .returned, .nothing)
  | retry (n : Nat) (force : Bool) (now : Int) (done : c.retries n = []) : Effect c (.retry n force now)
      ({ c with
        pendingResults := c.pendingResults.modify (fun p => p ∈ c.candidates force now)
          (Pending.again c.connGeneration now) (Pending.again_id c.connGeneration now)
        retries := Function.update c.retries n
          ((c.candidates force now).map fun p => p.comp.again c.connGeneration now) }, .nothing)
  | retrySend (n : Nat) (sent : Bool) (comp : CompletedInvocation) (rest : List CompletedInvocation)
      (due : c.retries n = comp :: rest) : Effect c (.retrySend n sent)
      ({ c with retries := Function.update c.retries n rest }, .when sent (.result comp))
  | acknowledge (n : Nat) (ack : ResultAck) (p : Pending) (free : c.acks n = none)
      (found : c.pendingResults.find? ack.invocationID = some p) (settles : Client.settles ack p) :
      Effect c (.acknowledge n ack)
        ({ c with
          pendingResults := c.pendingResults.filter fun q => q.id ≠ ack.invocationID
          acks := Function.update c.acks n (some p) }, .nothing)
  | mark (n : Nat) (p : Pending) (marking : c.acks n = some p) : Effect c (.mark n)
      ({ c.dropInflight p.id with
        completedInvocations := c.completedInvocations.set p.id p.comp p.comp.encodedBytes
        seenInvocations := c.seenInvocations.add p.id
        acks := Function.update c.acks n none }, .nothing)
  | reconnect : Effect c .reconnect ({ c with connGeneration := c.connGeneration + 1 }, .nothing)

variable {c : Client}

variable {stage stage' : Stage} {i : Nat} {output : Output} {sent : Bool}

/-- Another stage of a run that has not begun to complete. -/
theorem Dispatch.goes_of_stage {d : Dispatch} (at_stage : d.stage = stage)
    (early : stage'.early → stage.early) (fresh : stage'.fresh = false)
    (late : stage.late → stage'.late) (here : stage ≠ .completing) (still : stage' ≠ .completing)
    (not_running : stage' ≠ .running) : d.Goes { d with stage := stage' } := by
  have known_is : ∀ e : Dispatch, e.stage ≠ .completing → e.known = e.started := by
    intro e other
    simp [Dispatch.known, other]
  have here' : d.stage ≠ .completing := by rwa [at_stage]
  refine ⟨rfl, rfl, rfl, fun is => by rw [at_stage]; exact early is, fresh, fun kept started => ?_, ?_, ?_,
    fun _ is => absurd is not_running, here', fun is => late (at_stage ▸ is)⟩
  · have was := kept started
    rw [at_stage] at was
    exact late was
  · rw [known_is _ here', known_is _ still]
    exact id
  · rw [known_is _ here', known_is _ still]
    exact .inl

/-- A move of a goroutine that is neither fresh nor completing afterwards. -/
theorem Effect.move (action : Action) (output : Output) (at_stage : (c.dispatches i).stage = stage)
    (early : stage'.early → stage.early) (fresh : stage'.fresh = false)
    (late : stage.late → stage'.late)
    (here : stage ≠ .completing) (still : stage' ≠ .completing) (not_running : stage' ≠ .running)
    (uncached : ∀ comp, stage' ≠ .resending comp) (lives : stage.live → stage'.live)
    (resent : ∀ comp, output = .result comp → stage = .resending comp) (starts : ∀ r, output ≠ .started r) :
    Effect c action (c.move i stage', output) := by
  refine .goes action i _ output ?_ still uncached (by rw [at_stage]; exact lives)
    (fun comp is => at_stage.trans (resent comp is)) fun r is => absurd is (starts r)
  exact Dispatch.goes_of_stage at_stage early fresh late here still not_running

theorem enter_effect (arrived : (c.dispatches i).stage = .arrived)
    (uncached : c.completedInvocations.find? (c.dispatches i).invocationID = none) :
    Effect c (.register i) (c.enter i, .nothing) := by
  unfold Client.enter
  split
  · exact .move _ _ arrived nofun rfl nofun nofun nofun nofun nofun nofun nofun nofun
  next unseen =>
    split
    · exact .move _ _ arrived nofun rfl nofun nofun nofun nofun nofun nofun nofun nofun
    next present =>
      split
      · exact .move _ _ arrived nofun rfl nofun nofun nofun nofun nofun nofun nofun nofun
      next full =>
        exact .registers i arrived uncached (of_decide_eq_false (Bool.eq_false_iff.2 unseen)) (not_not.1 present)
          (Nat.lt_of_not_le full)

theorem fail_effect (action : Action) (code : String) (before : (c.dispatches i).stage.early ∨
      (c.dispatches i).stage = .running ∧ ∃ outcome, action = .handled i outcome ∧ outcome ≠ .async) :
    Effect c action (c.failInvocation i code, .nothing) := .begins action i _ before rfl rfl nofun

theorem started_effect (action : Action) (accepted : (c.dispatches i).stage = .accepted) : Effect c action
    (c.putDispatch i { c.dispatches i with started := true, stage := .running }, .started i) := by
  refine .goes action i _ _ ?_ nofun nofun (fun _ => rfl) nofun fun r is => ⟨(Output.started.inj is).symm, accepted, rfl⟩
  have early : (c.dispatches i).stage.early := by rw [accepted]; rfl
  exact ⟨rfl, rfl, rfl, nofun, rfl, fun _ _ => rfl, fun _ => rfl, fun _ => .inr early, fun _ _ => rfl,
    by rw [accepted]; nofun, fun _ => rfl⟩

/-- A message that was sent, or nothing. -/
theorem Output.when_eq_result {comp : CompletedInvocation}
    (is : Output.when sent output = .result comp) : output = .result comp := by
  cases sent with
  | false => cases is
  | true => exact is

theorem Output.when_ne_started {r : Nat} (other : output ≠ .started r) : Output.when sent output ≠ .started r := by
  cases sent with
  | false => nofun
  | true => exact other

theorem dispatch_effect (c : Client) (i : Nat) (id dispatchID : String) :
    Effect c (.dispatch i id dispatchID) (c.dispatch i id dispatchID) := by
  unfold Client.dispatch
  split
  next idle =>
    split
    · exact .stay _
    next assigned => exact .arrive i id dispatchID idle assigned
  · exact .stay _

theorem register_effect (c : Client) (i : Nat) : Effect c (.register i) (c.register i) := by
  unfold Client.register
  split
  next arrived =>
    split
    next comp found => exact .cached i comp arrived found
    next uncached => exact enter_effect arrived uncached
  · exact .stay _

theorem resend_effect (c : Client) (i : Nat) (sent : Bool) : Effect c (.resend i sent) (c.resend i sent) := by
  unfold Client.resend
  split
  next comp resending =>
    refine .move _ _ resending nofun rfl nofun nofun nofun nofun nofun nofun (fun comp' is => ?_) fun r => ?_
    · cases Output.when_eq_result is
      rfl
    · exact Output.when_ne_started nofun
  · exact .stay _

theorem deferred_effect (c : Client) (i : Nat) (sent : Bool) : Effect c (.deferred i sent) (c.deferred i sent) := by
  unfold Client.deferred
  split
  next deferring =>
    refine .move _ _ deferring nofun rfl nofun nofun nofun nofun nofun nofun (fun comp is => ?_) fun r => ?_
    · cases Output.when_eq_result is
    · exact Output.when_ne_started nofun
  · exact .stay _

theorem decrypt_effect (c : Client) (i : Nat) (ok : Bool) : Effect c (.decrypt i ok) (c.decrypt i ok) := by
  unfold Client.decrypt
  split
  next registered =>
    exact .move _ _ registered (fun _ => rfl) rfl nofun nofun nofun nofun nofun (fun _ => rfl) nofun nofun
  next registered => exact fail_effect _ _ (.inl (by rw [registered]; rfl))
  · exact .stay _

theorem accept_effect (c : Client) (i : Nat) (sent : Bool) : Effect c (.accept i sent) (c.accept i sent) := by
  unfold Client.accept
  split
  next decrypted =>
    exact .move _ _ decrypted (fun _ => rfl) rfl nofun nofun nofun nofun nofun (fun _ => rfl) nofun nofun
  next decrypted =>
    exact .move _ _ decrypted (fun _ => rfl) rfl nofun nofun nofun nofun nofun (fun _ => rfl) nofun nofun
  · exact .stay _

theorem lookup_effect (c : Client) (i : Nat) (found : Lookup) : Effect c (.lookup i found) (c.lookup i found) := by
  unfold Client.lookup
  split
  next accepted =>
    split
    next code is => exact fail_effect _ _ (.inl (by rw [accepted]; rfl))
    · exact started_effect _ accepted
  · exact .stay _

theorem handled_effect (c : Client) (i : Nat) (outcome : Handled) :
    Effect c (.handled i outcome) (c.handled i outcome) := by
  unfold Client.handled
  split
  next running => exact .move _ _ running nofun rfl (fun _ => rfl) nofun nofun nofun nofun (fun _ => rfl) nofun nofun
  next running => exact fail_effect _ _ (.inr ⟨running, .error, rfl, nofun⟩)
  next running => exact .begins _ i _ (.inr ⟨running, .result, rfl, nofun⟩) rfl rfl nofun
  · exact .stay _

theorem complete_effect (c : Client) (n run : Nat) (failed : Bool) :
    Effect c (.complete n run failed) (c.complete n run failed) := by
  unfold Client.complete
  split
  next idle started =>
    refine .handle n failed ⟨run, _, failed, _⟩ idle started ?_
    dsimp only
    split <;> rfl
  · exact .stay _

theorem check_effect (c : Client) (a : Agent) : Effect c (.check a) (c.check a) := by
  unfold Client.check
  split
  next checking =>
    have active : (c.calls a).stage ≠ .idle ∧ (c.calls a).stage ≠ .returned := by rw [checking]; exact ⟨nofun, nofun⟩
    have free : (c.calls a).stage.owns = none := by rw [checking]; rfl
    split
    · exact .plain _ a .finding _ active free rfl nofun fun _ => rfl
    · exact .plain _ a .asking _ active free rfl nofun fun _ => rfl
  · exact .stay _

theorem ask_effect (c : Client) (a : Agent) (answer : Option ServerState) :
    Effect c (.ask a answer) (c.ask a answer) := by
  unfold Client.ask
  split
  next asking =>
    have active : (c.calls a).stage ≠ .idle ∧ (c.calls a).stage ≠ .returned := by rw [asking]; exact ⟨nofun, nofun⟩
    have free : (c.calls a).stage.owns = none := by rw [asking]; rfl
    split
    next terminal => exact .plain _ a .returned _ active free rfl (fun _ => .terminal answer terminal) fun _ => rfl
    · exact .plain _ a .finding _ active free rfl nofun fun _ => rfl
  · exact .stay _

theorem submit_effect (c : Client) (a : Agent) : Effect c (.submit a) (c.submit a) := by
  unfold Client.submit
  split
  next missing =>
    exact .plain _ a .returned _ (by rw [missing]; exact ⟨nofun, nofun⟩) (by rw [missing]; rfl) rfl
      (fun _ => .missing missing) fun _ => rfl
  next original found =>
    split
    next submitted =>
      exact .plain _ a .returned _ (by rw [found]; exact ⟨nofun, nofun⟩) (by rw [found]; rfl) rfl
        (fun _ => .taken original found submitted) fun _ => rfl
    next free => exact .submit a original found (Bool.eq_false_iff.2 free)
  · exact .stay _

theorem encode_effect (c : Client) (a : Agent) (encoding : Encoding) (encrypted : Option (String × String)) :
    Effect c (.encode a encoding encrypted) (c.encode a encoding encrypted) := by
  unfold Client.encode
  split
  next original stage => exact .givesUp _ a original (by rw [stage]; rfl) (.encryption encoding)
  next original envelope aad stage => exact .encode a encoding (envelope, aad) original _ stage
  · exact .stay _

theorem confirm_effect (c : Client) (a : Agent) : Effect c (.confirm a) (c.confirm a) := by
  unfold Client.confirm
  split
  next original outcome stage =>
    have owner : (c.calls a).stage.owns = some original := by rw [stage]; rfl
    split
    next absent => exact .givesUp _ a original owner (.gone outcome stage absent)
    next ai found =>
      split
      next empty => exact .givesUp _ a original owner (.unassigned outcome stage ai found empty)
      · exact .confirm a original ai outcome stage found
  · exact .stay _

theorem build_effect (c : Client) (a : Agent) (wire : Option Nat) (now : Int) :
    Effect c (.build a wire now) (c.build a wire now) := by
  unfold Client.build
  split
  next original ai outcome stage => exact .givesUp _ a original (by rw [stage]; rfl) (.unencodable now)
  next original ai outcome bytes stage =>
    split
    next large => exact .givesUp _ a original (by rw [stage]; rfl) (.oversized bytes large now)
    · exact .build a _ now original ai outcome _ stage rfl rfl
  · exact .stay _

theorem retain_effect (c : Client) (a : Agent) : Effect c (.retain a) (c.retain a) := by
  unfold Client.retain
  split
  next original comp stage => exact .retain a original comp stage
  · exact .stay _

theorem send_effect (c : Client) (a : Agent) (sent : Bool) : Effect c (.send a sent) (c.send a sent) := by
  unfold Client.send
  split
  next comp ready =>
    exact .plain _ a .returned _ (by rw [ready]; exact ⟨nofun, nofun⟩) (by rw [ready]; rfl) rfl
      (fun _ => .sent comp ready sent) fun other => absurd rfl other
  · exact .stay _

theorem acknowledge_effect (c : Client) (n : Nat) (ack : ResultAck) :
    Effect c (.acknowledge n ack) (c.acknowledge n ack) := by
  unfold Client.acknowledge
  split
  next p free found =>
    split
    next settles => exact .acknowledge n ack p free found settles.2
    · exact .stay _
  · exact .stay _

/-- Every step is one of these effects. -/
theorem step_effect (c : Client) (action : Action) : Effect c action (c.step action) := by
  cases action with
  | dispatch i id dispatchID => exact dispatch_effect c i id dispatchID
  | register i => exact register_effect c i
  | resend i sent => exact resend_effect c i sent
  | deferred i sent => exact deferred_effect c i sent
  | decrypt i ok => exact decrypt_effect c i ok
  | accept i sent => exact accept_effect c i sent
  | withdraw i =>
    change Effect c _ (c.withdraw i)
    unfold Client.withdraw
    split
    next refused => exact .withdraw i refused
    · exact .stay _
  | lookup i found => exact lookup_effect c i found
  | handled i outcome => exact handled_effect c i outcome
  | complete n run failed => exact complete_effect c n run failed
  | check a => exact check_effect c a
  | ask a answer => exact ask_effect c a answer
  | find a =>
    change Effect c _ (c.find a)
    unfold Client.find
    split
    next finding => exact .find a finding
    · exact .stay _
  | submit a => exact submit_effect c a
  | encode a encoding encrypted => exact encode_effect c a encoding encrypted
  | confirm a => exact confirm_effect c a
  | build a wire now => exact build_effect c a wire now
  | retain a => exact retain_effect c a
  | send a sent => exact send_effect c a sent
  | release a =>
    change Effect c _ (c.release a)
    unfold Client.release
    split
    next original stage => exact .release a original stage
    · exact .stay _
  | retry n force now =>
    change Effect c _ (c.retry n force now)
    unfold Client.retry
    split
    next done => exact .retry n force now done
    · exact .stay _
  | retrySend n sent =>
    change Effect c _ (c.retrySend n sent)
    unfold Client.retrySend
    split
    · exact .stay _
    next comp rest due => exact .retrySend n sent comp rest due
  | acknowledge n ack => exact acknowledge_effect c n ack
  | mark n =>
    change Effect c _ (c.mark n)
    unfold Client.mark
    split
    next p marking => exact .mark n p marking
    · exact .stay _
  | reconnect => exact .reconnect

end Pagnet.Sdk.Invocation
