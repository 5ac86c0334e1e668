import Pagnet.Codex.State
import Pagnet.Data.Run

/-!
# Attribution of Codex events

The journal stands beside the state and records what no field of it keeps: which
native turn each event derives from, which starts were accepted for which machine
turn, and which requests were resolved. The attribution law is stated over it.
-/

namespace Pagnet.Codex

open Session

/-- An emitted event, with the native turn of the message that caused it. -/
structure Emitted where
  native : String
  event : SessionEvent
  deriving DecidableEq, Repr

/-- The state and the history of the calls on it, newest first. -/
structure Journal where
  state : TurnState
  /-- the machine turns registered so far -/
  begun : List String
  /-- the accepted starts: the machine turn, and the native turn that started for it -/
  starts : List (String × String)
  /-- the reported usage, with its native turn -/
  reported : List (String × Usage)
  /-- the request ids received so far, and those resolved -/
  requested : List String
  resolved : List String
  events : List Emitted
  deriving DecidableEq, Repr

/-- The journal of a new state. -/
def Journal.new (resuming : Bool) (resumeID : String) : Journal where
  state := .new resuming resumeID
  begun := []
  starts := []
  reported := []
  requested := []
  resolved := []
  events := []

namespace Journal

variable (j : Journal)

/-- The native turn of the message that a call brings. -/
def native : Call → String
  | .notification (.planUpdated turnID _) => turnID
  | .notification (.turnStarted _ turn) => turn.id
  | .notification (.turnCompleted _ turn) => turn.id
  | .notification (.agentMessageDelta turnID _) => turnID
  | .notification (.itemStarted turnID _) => turnID
  | .notification (.itemCompleted turnID _) => turnID
  | .notification (.tokenUsageUpdated turnID _) => turnID
  | .serverRequest _ _ params => params.turnID
  | .resolveInteraction rpcID _ _ => ((j.state.interaction? rpcID).map (·.payload.turnID)).getD ""
  | _ => ""

/-- What a call adds to the registered machine turns. -/
def begins : Call → List String
  | .beginMachineTurn turnID => [turnID]
  | _ => []

/-- A start is accepted when it opens the stream of the registered machine turn. -/
def accepts (out : Output) : Call → List (String × String)
  | .notification (.turnStarted _ turn) => if out.events = [] then [] else [(j.state.machineTurnID, turn.id)]
  | _ => []

def reports : Call → List (String × Usage)
  | .notification (.tokenUsageUpdated turnID last) => [(turnID, last)]
  | _ => []

def requests : Call → List String
  | .serverRequest rpcID _ _ => [rpcID]
  | _ => []

def resolves (out : Output) : Call → List String
  | .resolveInteraction rpcID _ _ => if out.resolution.isSome then [rpcID] else []
  | _ => []

/-- The journal after a call that led to `s` and returned `out`. -/
def after (call : Call) (s : TurnState) (out : Output) : Journal where
  state := s
  begun := begins call ++ j.begun
  starts := j.accepts out call ++ j.starts
  reported := reports call ++ j.reported
  requested := requests call ++ j.requested
  resolved := resolves out call ++ j.resolved
  events := out.events.reverse.map (⟨j.native call, ·⟩) ++ j.events

/-- A call, and what it adds to the history. -/
def step (provider : Provider) (call : Call) : Journal × Output :=
  let (s, out) := j.state.step provider call
  (j.after call s out, out)

/-- The stream marks of the emitted events. -/
def marks : List (String × Mark) := Session.marks (j.events.map (·.event))

end Journal

/-- The attribution law. -/
structure Attributed (j : Journal) : Prop where
  /-- a turn event derives from the native turn whose start was accepted for its turn -/
  sourced : ∀ e ∈ j.events, e.event.type.isTurn → (e.event.turnID, e.native) ∈ j.starts
  named : ∀ e ∈ j.events, e.event.type.isTurn → e.event.turnID ≠ ""
  /-- one `turn.started` before all else of its turn, one terminal event and nothing after it -/
  spanned : Spanned j.marks
  /-- the usage of a completion adds up reports of that native turn only -/
  usage : ∀ e ∈ j.events, e.event.type = .turnCompleted → ∃ counted, List.Sublist counted j.reported ∧
    (∀ report ∈ counted, report.1 = e.native) ∧ e.event.usage = some (.total (counted.map (·.2)))
  resolved_once : j.resolved.Nodup

/-- The activity flags announce a machine turn whose native turn is not known: a
withdrawn registration left them behind. -/
def TurnState.Stale (s : TurnState) : Prop := s.onMachineStream ∧ s.nativeTurnID = ""

instance (s : TurnState) : Decidable s.Stale := inferInstanceAs (Decidable (_ ∧ _))

/-- A call in its turn: no message of a native turn arrives while the flags are stale,
messages name their native turn, a registered turn starts once, requests are of the
turn in progress and are resolved while it is, and no id is used twice. -/
def Orderly (j : Journal) : Call → Prop
  | .beginMachineTurn turnID => turnID ≠ "" ∧ turnID ∉ j.begun
  | .notification (.turnStarted _ turn) =>
    turn.id ≠ "" ∧ (j.state.machineTurnID ≠ "" → j.state.nativeTurnID = "")
  | .notification (.turnCompleted _ turn) => turn.id ≠ "" ∧ ¬j.state.Stale
  | .notification (.agentMessageDelta turnID _) => turnID ≠ "" ∧ ¬j.state.Stale
  | .notification (.itemStarted turnID _) => turnID ≠ "" ∧ ¬j.state.Stale
  | .notification (.itemCompleted turnID _) => turnID ≠ "" ∧ ¬j.state.Stale
  | .notification (.tokenUsageUpdated turnID _) => turnID ≠ "" ∧ ¬j.state.Stale
  | .serverRequest rpcID _ params => rpcID ∉ j.requested ∧
    (j.state.onMachineStream = true → params.turnID ≠ "" ∧ params.turnID = j.state.nativeTurnID)
  | .resolveInteraction rpcID _ _ => ∀ inte ∈ j.state.interaction? rpcID, inte.onMachineStream = true →
    j.state.onMachineStream = true ∧ inte.payload.turnID ≠ "" ∧ inte.payload.turnID = j.state.nativeTurnID
  | _ => True

instance (j : Journal) : ∀ call, Decidable (Orderly j call)
  | .beginMachineTurn _ | .notification (.turnStarted _ _) | .notification (.turnCompleted _ _)
  | .notification (.agentMessageDelta _ _) | .notification (.itemStarted _ _) | .notification (.itemCompleted _ _)
  | .notification (.tokenUsageUpdated _ _) | .serverRequest _ _ _ => inferInstanceAs (Decidable (_ ∧ _))
  | .resolveInteraction rpcID _ _ => inferInstanceAs (Decidable (∀ inte ∈ j.state.interaction? rpcID, _ → _))
  | .setThread _ _ | .clearMachineTurn | .markTurnAccepted | .notification (.threadStatusChanged _ _)
  | .notification (.planUpdated _ _) | .notification .other => inferInstanceAs (Decidable True)

/-- The turn in progress is the same. -/
structure TurnState.Same (s s' : TurnState) : Prop where
  stream : s'.onMachineStream = s.onMachineStream
  machine : s'.machineTurnID = s.machineTurnID
  native : s'.nativeTurnID = s.nativeTurnID
  usage : s'.usage = s.usage

theorem TurnState.Same.refl (s : TurnState) : s.Same s := ⟨rfl, rfl, rfl, rfl⟩

/-- What a call can do. -/
inductive Effect (provider : Provider) (s : TurnState) : Call → TurnState → Output → Prop
  | silent {call : Call} {s' : TurnState} (same : s.Same s') (requests : s'.interactions = s.interactions)
      (other : Journal.begins call = []) : Effect provider s call s' {}
  | activates (threadID model : String) {s' : TurnState} (same : s.Same s')
      (requests : s'.interactions = s.interactions) (e : SessionEvent) (session : e.type.isTurn = false) :
      Effect provider s (.setThread threadID model) s' { events := [e] }
  | begins (turnID : String) : Effect provider s (.beginMachineTurn turnID) (s.beginMachineTurn turnID) {}
  | clears : Effect provider s .clearMachineTurn s.clearMachineTurn {}
  | startsOther (threadID : String) (turn : Turn) (none_registered : s.machineTurnID = "") :
      Effect provider s (.notification (.turnStarted threadID turn))
        { s with turnAccepted := true, turnActive := true, turnIsMachine := false, nativeTurnID := turn.id } {}
  | starts (threadID : String) (turn : Turn) (registered : s.machineTurnID ≠ "") :
      Effect provider s (.notification (.turnStarted threadID turn))
        { s with turnAccepted := true, turnActive := true, turnIsMachine := true, nativeTurnID := turn.id }
        { events := [s.turnEvent .turnStarted] }
  | shows {n : Notification} {turnID : String} (source : ∀ j, Journal.native j (.notification n) = turnID)
      (no_start : ∀ j out, Journal.accepts j out (.notification n) = [])
      (no_report : Journal.reports (.notification n) = [])
      (orderly : ∀ j, Orderly j (.notification n) → turnID ≠ "" ∧ ¬j.state.Stale) (on : s.onMachineStream)
      (own : s.foreign turnID = false) (e : SessionEvent) (turn : e.turnID = s.machineTurnID)
      (type : e.type = .turnOutput) : Effect provider s (.notification n) s { events := [e] }
  | plans (turnID : String) (plan : Option (List PlanEntry)) (on : s.onMachineStream)
      (registered : s.machineTurnID ≠ "") (known : s.nativeTurnID ≠ "") (own : turnID = s.nativeTurnID) (e : SessionEvent)
      (turn : e.turnID = s.machineTurnID) (type : e.type = .planUpdated) :
      Effect provider s (.notification (.planUpdated turnID plan)) s { events := [e] }
  | counts (turnID : String) (last : Usage) (on : s.onMachineStream) (own : s.foreign turnID = false) :
      Effect provider s (.notification (.tokenUsageUpdated turnID last)) { s with usage := s.usage.add last } {}
  | endsOther (threadID : String) (turn : Turn) (active : s.turnActive) (external : s.turnIsMachine = false) :
      Effect provider s (.notification (.turnCompleted threadID turn)) { s.endTurn with materialised := true } {}
  | ends (threadID : String) (turn : Turn) (on : s.onMachineStream)
      (own : s.nativeTurnID ≠ "" → turn.id ≠ "" → turn.id = s.nativeTurnID) :
      Effect provider s (.notification (.turnCompleted threadID turn)) { s.endTurn with materialised := true }
        { events := [s.terminalEvent provider turn] }
  | asksOther (rpcID : String) (method : RequestMethod) (params : Params) (off : s.onMachineStream = false) :
      Effect provider s (.serverRequest rpcID method params)
        { s with interactions := s.newInteraction rpcID method params :: s.interactions } {}
  | asks (rpcID : String) (method : RequestMethod) (params : Params) (on : s.onMachineStream) (e : SessionEvent)
      (turn : e.turnID = s.machineTurnID) (type : e.type = .interactionStarted) :
      Effect provider s (.serverRequest rpcID method params)
        { s with interactions := s.newInteraction rpcID method params :: s.interactions } { events := [e] }
  | resolves (rpcID decision answer : String) (inte : Interaction) (found : s.interaction? rpcID = some inte)
      (result : Option Response) :
      Effect provider s (.resolveInteraction rpcID decision answer)
        { s with interactions := s.interactions.filter (·.rpcID ≠ rpcID) }
        { events := s.resolvedEvents inte (TurnState.reportedDecision decision answer), resolution := some result }

section

variable {provider : Provider} (s : TurnState)

theorem setThread_effect (threadID model : String) :
    Effect provider s (.setThread threadID model) (s.setThread threadID model).1 { events := (s.setThread threadID model).2 } := by
  unfold TurnState.setThread
  split
  · exact .activates threadID model (.refl s) rfl _ rfl
  · split
    · exact .activates threadID model (.refl s) rfl _ rfl
    · have same : s.Same { s with threadID := threadID, model := model, activated := true } := ⟨rfl, rfl, rfl, rfl⟩
      exact .activates threadID model same rfl _ (by cases s.resuming <;> rfl)

theorem turnStarted_effect (threadID : String) (turn : Turn) :
    Effect provider s (.notification (.turnStarted threadID turn)) (s.processTurnStarted threadID turn).1
      { events := (s.processTurnStarted threadID turn).2 } := by
  unfold TurnState.processTurnStarted
  split
  · exact .silent (.refl s) rfl rfl
  · split
    · exact .startsOther threadID turn ‹_›
    · exact .starts threadID turn ‹_›

theorem turnCompleted_effect (threadID : String) (turn : Turn) :
    Effect provider s (.notification (.turnCompleted threadID turn)) (s.processTurnCompleted provider threadID turn).1
      { events := (s.processTurnCompleted provider threadID turn).2 } := by
  unfold TurnState.processTurnCompleted
  split
  · exact .silent (.refl s) rfl rfl
  split
  · exact .silent (.refl s) rfl rfl
  split
  · exact .silent (.refl s) rfl rfl
  rename_i active other
  have active : s.turnActive := by simpa using active
  cases machine : s.turnIsMachine with
  | false => exact .endsOther threadID turn active machine
  | true =>
    refine .ends threadID turn (by simp [TurnState.onMachineStream, active, machine]) ?_
    intro known named
    exact not_not.1 fun differs => other ⟨known, named, differs⟩

theorem delta_effect (turnID delta : String) : Effect provider s (.notification (.agentMessageDelta turnID delta)) s
      { events := s.processAgentMessageDelta turnID delta } := by
  unfold TurnState.processAgentMessageDelta
  split
  · exact .silent (.refl s) rfl rfl
  next passes =>
    simp only [Bool.or_eq_true, Bool.not_eq_true', decide_eq_true_eq, not_or, Bool.not_eq_false, Bool.not_eq_true] at passes
    exact .shows (n := .agentMessageDelta turnID delta) (fun _ => rfl) (fun _ _ => rfl) rfl (fun _ named => named) passes.1.1 passes.2 _ rfl rfl

theorem item_effect {n : Notification} {turnID : String} (item : Item) (started : Bool)
    (source : ∀ j, Journal.native j (.notification n) = turnID)
    (no_start : ∀ j out, Journal.accepts j out (.notification n) = [])
    (no_report : Journal.reports (.notification n) = []) (other : Journal.begins (.notification n) = [])
    (orderly : ∀ j, Orderly j (.notification n) → turnID ≠ "" ∧ ¬j.state.Stale) :
    Effect provider s (.notification n) s { events := s.processItemEvent turnID item started } := by
  unfold TurnState.processItemEvent
  split
  · exact .silent (.refl s) rfl other
  next passes =>
    simp only [Bool.or_eq_true, Bool.not_eq_true', not_or, Bool.not_eq_false, Bool.not_eq_true] at passes
    split
    · exact .silent (.refl s) rfl other
    · exact .shows source no_start no_report orderly passes.1 passes.2 _ rfl rfl

theorem plan_effect (turnID : String) (plan : Option (List PlanEntry)) :
    Effect provider s (.notification (.planUpdated turnID plan)) s { events := s.processPlan turnID plan } := by
  unfold TurnState.processPlan
  split
  · exact .silent (.refl s) rfl rfl
  · split
    · exact .silent (.refl s) rfl rfl
    next passes =>
      simp only [Bool.or_eq_true, Bool.not_eq_true', decide_eq_true_eq, not_or, Bool.not_eq_false, ne_eq, not_not] at passes
      obtain ⟨⟨⟨⟨-, on⟩, registered⟩, known⟩, own⟩ := passes
      exact .plans turnID _ on registered known own _ rfl rfl

theorem usage_effect (turnID : String) (last : Usage) :
    Effect provider s (.notification (.tokenUsageUpdated turnID last)) (s.processTokenUsage turnID last) {} := by
  unfold TurnState.processTokenUsage
  split
  · exact .silent (.refl s) rfl rfl
  next passes =>
    simp only [Bool.or_eq_true, Bool.not_eq_true', not_or, Bool.not_eq_false, Bool.not_eq_true] at passes
    exact .counts turnID last passes.1 passes.2

theorem threadStatus_effect (threadID : String) (status : ThreadStatus) :
    Effect provider s (.notification (.threadStatusChanged threadID status)) (s.processThreadStatus threadID status) {} := by
  unfold TurnState.processThreadStatus
  split
  · exact .silent (.refl s) rfl rfl
  · cases status <;> exact .silent ⟨rfl, rfl, rfl, rfl⟩ rfl rfl

theorem serverRequest_effect (rpcID : String) (method : RequestMethod) (params : Params) :
    Effect provider s (.serverRequest rpcID method params) (s.processServerRequest rpcID method params).1
      { events := (s.processServerRequest rpcID method params).2 } := by
  unfold TurnState.processServerRequest
  split
  · exact .silent (.refl s) rfl rfl
  · cases on : s.onMachineStream with
    | false => exact .asksOther rpcID method params on
    | true => exact .asks rpcID method params on _ rfl rfl

/-- A resolution takes its request off the pending ones. -/
theorem resolveInteraction_some {rpcID decision answer : String} {r : TurnState × Option Response × List SessionEvent}
    (is_some : s.resolveInteraction rpcID decision answer = some r) : ∃ inte, s.interaction? rpcID = some inte ∧
      r.1 = { s with interactions := s.interactions.filter (·.rpcID ≠ rpcID) } ∧
      r.2.2 = s.resolvedEvents inte (TurnState.reportedDecision decision answer) := by
  unfold TurnState.resolveInteraction at is_some
  split at is_some
  · cases is_some
  · split at is_some
    · cases is_some
    · cases is_some
      exact ⟨_, ‹_›, rfl, rfl⟩

theorem resolveInteraction_effect (rpcID decision answer : String) :
    Effect provider s (.resolveInteraction rpcID decision answer)
      (s.step provider (.resolveInteraction rpcID decision answer)).1
      (s.step provider (.resolveInteraction rpcID decision answer)).2 := by
  cases is : s.resolveInteraction rpcID decision answer with
  | none =>
    simp only [TurnState.step, is]
    exact .silent (.refl s) rfl rfl
  | some r =>
    obtain ⟨inte, found, state, events⟩ := resolveInteraction_some s is
    simp only [TurnState.step, is, state, events]
    exact .resolves rpcID decision answer inte found _

/-- Every call has one of the effects. -/
theorem step_effect (call : Call) : Effect provider s call (s.step provider call).1 (s.step provider call).2 := by
  cases call with
  | setThread threadID model => exact setThread_effect s threadID model
  | beginMachineTurn turnID => exact .begins turnID
  | clearMachineTurn => exact .clears
  | markTurnAccepted => exact .silent ⟨rfl, rfl, rfl, rfl⟩ rfl rfl
  | notification n =>
    cases n with
    | threadStatusChanged threadID status => exact threadStatus_effect s threadID status
    | planUpdated turnID plan => exact plan_effect s turnID plan
    | turnStarted threadID turn => exact turnStarted_effect s threadID turn
    | turnCompleted threadID turn => exact turnCompleted_effect s threadID turn
    | agentMessageDelta turnID delta => exact delta_effect s turnID delta
    | itemStarted turnID item => exact item_effect s item true (fun _ => rfl) (fun _ _ => rfl) rfl rfl fun _ named => named
    | itemCompleted turnID item => exact item_effect s item false (fun _ => rfl) (fun _ _ => rfl) rfl rfl fun _ named => named
    | tokenUsageUpdated turnID last => exact usage_effect s turnID last
    | other => exact .silent (.refl s) rfl rfl
  | serverRequest rpcID method params => exact serverRequest_effect s rpcID method params
  | resolveInteraction rpcID decision answer => exact resolveInteraction_effect s rpcID decision answer

end

end Pagnet.Codex
