import Pagnet.Session.Event

/-!
# The Codex app-server event stream

`TurnState` is the turn and interaction state of one endpoint. The reader feeds it
notifications and server requests; `Submit` registers and withdraws machine turns.
Every function here is one section under the state's mutex.
-/

namespace Pagnet.Codex

open Session

/-- The machine error codes that are classified without looking at the message. -/
inductive ErrorCode
  | rateLimitExceeded
  | usageLimitExceeded
  | serverOverloaded
  | unauthorized
  | contextWindowExceeded
  | other
  deriving DecidableEq, Repr

/-- The error of a failed turn; the code is absent when it is no JSON string. -/
structure TurnError where
  message : String
  codexErrorInfo : Option ErrorCode
  deriving DecidableEq, Repr

inductive TurnStatus
  | completed
  | failed
  | interrupted
  | other (name : String)
  deriving DecidableEq, Repr

/-- The turn object of `turn/started` and `turn/completed`. -/
structure Turn where
  id : String
  status : TurnStatus
  error : Option TurnError := none
  deriving DecidableEq, Repr

inductive ItemType
  | commandExecution
  | fileChange
  | mcpToolCall
  | other
  deriving DecidableEq, Repr

/-- One thread item, with the fields that a note shows. -/
structure Item where
  type : ItemType
  command : String
  server : String
  tool : String
  failed : Bool
  exitCode : Option Int
  deriving DecidableEq, Repr

inductive ThreadStatus
  | active
  | idle
  | notLoaded
  | other
  deriving DecidableEq, Repr

/-- A decoded notification. A plan is absent when it is too large or invalid. -/
inductive Notification
  | threadStatusChanged (threadID : String) (status : ThreadStatus)
  | planUpdated (turnID : String) (plan : Option (List PlanEntry))
  | turnStarted (threadID : String) (turn : Turn)
  | turnCompleted (threadID : String) (turn : Turn)
  | agentMessageDelta (turnID delta : String)
  | itemStarted (turnID : String) (item : Item)
  | itemCompleted (turnID : String) (item : Item)
  | tokenUsageUpdated (turnID : String) (last : Usage)
  | other
  deriving DecidableEq, Repr

inductive RequestMethod
  | commandExecutionApproval
  | fileChangeApproval
  | permissionsApproval
  | requestUserInput
  | mcpElicitation
  | openaiForm
  | other
  deriving DecidableEq, Repr

/-- The parameters of a server request: the text, what the driver decodes of it, and
the native turn that asks (which the driver does not read). -/
structure Params where
  raw : String
  isObject : Bool
  /-- absent, not a list, or the entries; an entry that is no string is `none` -/
  availableDecisions : Option (Option (List (Option String)))
  questions : List String
  turnID : String
  deriving DecidableEq, Repr

/-- A server request that awaits its resolution. -/
structure Interaction where
  rpcID : String
  method : RequestMethod
  kind : InteractionKind
  summary : String
  payload : Params
  onMachineStream : Bool
  deriving DecidableEq, Repr

/-- The JSON-RPC results that resolve a request. -/
inductive Response
  | decision (selected : String)
  | emptyGrant
  | answers (questions : List String) (answer : String)
  | action (name : String)
  deriving DecidableEq, Repr

/-- `codexTurnState`. -/
structure TurnState where
  threadID : String
  model : String
  activated : Bool
  resuming : Bool
  resumeID : String
  turnActive : Bool
  materialised : Bool
  turnIsMachine : Bool
  nativeActive : Bool
  machineTurnID : String
  nativeTurnID : String
  turnAccepted : Bool
  usage : Usage
  interactions : List Interaction
  deriving DecidableEq, Repr

/-- `newCodexTurnState`. -/
def TurnState.new (resuming : Bool) (resumeID : String) : TurnState where
  threadID := ""
  model := ""
  activated := false
  resuming := resuming
  resumeID := resumeID
  turnActive := false
  materialised := false
  turnIsMachine := false
  nativeActive := false
  machineTurnID := ""
  nativeTurnID := ""
  turnAccepted := false
  usage := .zero
  interactions := []

/-- `classifyCodexError`: the machine code decides, the message is the fallback. -/
def classifyCodexError (provider : Provider) (err : TurnError) : FailureKind × Option String :=
  match err.codexErrorInfo with
  | some .rateLimitExceeded | some .usageLimitExceeded | some .serverOverloaded => (.rateLimited, none)
  | some .unauthorized => (.authRequired, none)
  | some .contextWindowExceeded => (.contextLimit, none)
  | some .other | none => provider.classify err.message

/-- `classifyCodexServerRequest`. -/
def classifyCodexServerRequest : RequestMethod → InteractionKind × String
  | .commandExecutionApproval | .fileChangeApproval | .permissionsApproval => (.permission, "Native tool approval")
  | .requestUserInput | .mcpElicitation | .openaiForm => (.question, "Native input request")
  | .other => (.other, "Native interaction")

/-- The decisions that a request offers: the vendor's list, or all documented ones. -/
def Params.decisions (params : Params) : List String :=
  match params.isObject, params.availableDecisions with
  | false, _ => []
  | true, none => ["accept", "acceptForSession", "decline", "cancel"]
  | true, some none => []
  | true, some (some entries) => entries.filterMap id

/-- The generic kind of a documented decision. -/
def decisionKind : String → Option String
  | "accept" => some "allow_once"
  | "acceptForSession" => some "allow_always"
  | "decline" => some "reject_once"
  | "cancel" => some "reject_once"
  | _ => none

/-- `codexApprovalOptions`. -/
def codexApprovalOptions (method : RequestMethod) (params : Params) : List InteractionOption :=
  match method with
  | .commandExecutionApproval | .fileChangeApproval =>
    params.decisions.eraseDups.filterMap fun decision => (decisionKind decision).map fun kind => ⟨decision, kind⟩
  | _ => []

/-- The choice that a generic decision stands for when there is no answer. -/
def defaultChoice : String → String
  | "resolved" => "accept"
  | "declined" => "decline"
  | "cancelled" => "cancel"
  | _ => ""

/-- `buildInteractionResponseLocked`: `none` when the decision cannot be expressed. -/
def buildInteractionResponse (inte : Interaction) (decision answer : String) : Option Response :=
  match inte.method with
  | .commandExecutionApproval | .fileChangeApproval =>
    let selected := if answer = "" then defaultChoice decision else answer
    if (codexApprovalOptions inte.method inte.payload).any (·.id = selected) then some (.decision selected) else none
  | .permissionsApproval => some .emptyGrant
  | .requestUserInput =>
    if decision ≠ "resolved" ∨ answer = "" ∨ inte.payload.questions = [] then none
    else some (.answers inte.payload.questions answer)
  | .mcpElicitation | .openaiForm =>
    match decision with
    | "resolved" => some (.action "accept")
    | "cancelled" => some (.action "cancel")
    | "declined" => some (.action "decline")
    | _ => none
  | .other => none

/-- The note that an item shows on the machine stream. -/
def itemNote (item : Item) (started : Bool) : Option String :=
  match item.type with
  | .commandExecution =>
    if started then some ("[codex] command: " ++ item.command)
    else if item.failed || item.exitCode.any (· ≠ 0) then some ("[codex] command failed: " ++ item.command)
    else some ("[codex] command completed: " ++ item.command)
  | .fileChange =>
    if started then some "[codex] file change in progress" else some "[codex] file change applied"
  | .mcpToolCall =>
    let name := item.server ++ "." ++ item.tool
    if started then some ("[codex] mcp tool: " ++ name)
    else if item.failed then some ("[codex] mcp tool failed: " ++ name)
    else some ("[codex] mcp tool completed: " ++ name)
  | .other => none

namespace TurnState

variable (s : TurnState)

/-- `setThread`: a resume that re-bases onto another thread is a lost session. -/
def setThread (threadID model : String) : TurnState × List SessionEvent :=
  if threadID = "" then
    (s, [{ type := .sessionLost, error := "codex thread start/resume returned no thread id" }])
  else if s.resuming ∧ s.resumeID ≠ "" ∧ threadID ≠ s.resumeID then
    (s, [{ type := .sessionLost, sessionID := s.resumeID,
           error := "codex resume started a different thread (wanted " ++ s.resumeID ++ ", got " ++ threadID ++ ")" }])
  else
    ({ s with threadID := threadID, model := model, activated := true },
      [{ type := if s.resuming then .sessionResumed else .sessionStarted, sessionID := threadID }])

def beginMachineTurn (turnID : String) : TurnState :=
  { s with machineTurnID := turnID, nativeTurnID := "", turnAccepted := false, usage := .zero }

/-- `clearMachineTurn` leaves the activity flags to the terminal event. -/
def clearMachineTurn : TurnState :=
  { s with machineTurnID := "", nativeTurnID := "", turnAccepted := false, usage := .zero }

def markTurnAccepted : TurnState := { s with turnAccepted := true }

/-- `endTurnLocked`. -/
def endTurn : TurnState :=
  { s with turnActive := false, turnIsMachine := false, machineTurnID := "", nativeTurnID := "",
           turnAccepted := false, usage := .zero }

/-- An event of the registered machine turn. -/
def turnEvent (type : EventType) : SessionEvent :=
  { type := type, sessionID := s.threadID, turnID := s.machineTurnID }

/-- A machine turn is in progress, as far as the activity flags tell. -/
def onMachineStream : Bool := s.turnActive && s.turnIsMachine

/-- The filter by native turn, which lets everything pass while an id is unknown. -/
def foreign (turnID : String) : Bool :=
  turnID ≠ "" && s.nativeTurnID ≠ "" && turnID ≠ s.nativeTurnID

def processThreadStatus (threadID : String) (status : ThreadStatus) : TurnState :=
  if threadID = "" ∨ threadID ≠ s.threadID then s
  else
    match status with
    | .active => { s with nativeActive := true }
    | .idle | .notLoaded => { s with nativeActive := false }
    | .other => s

/-- Plans are shown only when the native turn is known. -/
def processPlan (turnID : String) (plan : Option (List PlanEntry)) : List SessionEvent :=
  match plan with
  | none => []
  | some entries =>
    if !s.activated || !s.onMachineStream || s.machineTurnID = "" || s.nativeTurnID = "" || turnID ≠ s.nativeTurnID then []
    else [{ s.turnEvent .planUpdated with plan := some ⟨"codex", turnID, entries⟩ }]

/-- `processTurnStarted`: without a registered submit it is an external turn. -/
def processTurnStarted (threadID : String) (turn : Turn) : TurnState × List SessionEvent :=
  if !s.activated || (threadID ≠ "" && threadID ≠ s.threadID) then (s, [])
  else if s.machineTurnID = "" then
    ({ s with turnAccepted := true, turnActive := true, turnIsMachine := false, nativeTurnID := turn.id }, [])
  else
    ({ s with turnAccepted := true, turnActive := true, turnIsMachine := true, nativeTurnID := turn.id },
      [s.turnEvent .turnStarted])

def processAgentMessageDelta (turnID delta : String) : List SessionEvent :=
  if !s.onMachineStream || delta = "" || s.foreign turnID then []
  else [{ s.turnEvent .turnOutput with output := delta, nativeOutput := true }]

def processItemEvent (turnID : String) (item : Item) (started : Bool) : List SessionEvent :=
  if !s.onMachineStream || s.foreign turnID then []
  else
    match itemNote item started with
    | none => []
    | some note => [{ s.turnEvent .turnOutput with output := note }]

def processTokenUsage (turnID : String) (last : Usage) : TurnState :=
  if !s.onMachineStream || s.foreign turnID then s else { s with usage := s.usage.add last }

/-- The terminal event of a machine turn, by its status. -/
def terminalEvent (provider : Provider) (turn : Turn) : SessionEvent :=
  match turn.status with
  | .completed => { s.turnEvent .turnCompleted with model := s.model, usage := some s.usage }
  | .failed =>
    match turn.error with
    | none => { s.turnEvent .turnFailed with
        failureKind := some .unknown, error := provider.trunc "codex turn failed" }
    | some err => { s.turnEvent .turnFailed with
        failureKind := some (classifyCodexError provider err).1
        error := provider.trunc (if err.message = "" then "codex turn failed" else err.message)
        retryAt := (classifyCodexError provider err).2 }
  | .interrupted => { s.turnEvent .turnFailed with
      failureKind := some .interrupted, error := "codex turn interrupted" }
  | .other name => { s.turnEvent .turnFailed with
      failureKind := some .unknown, error := "codex turn ended with unknown status " ++ name }

/-- `processTurnCompleted`. -/
def processTurnCompleted (provider : Provider) (threadID : String) (turn : Turn) : TurnState × List SessionEvent :=
  if threadID ≠ "" ∧ s.threadID ≠ "" ∧ threadID ≠ s.threadID then (s, [])
  else if !s.turnActive then (s, [])
  else if s.nativeTurnID ≠ "" ∧ turn.id ≠ "" ∧ turn.id ≠ s.nativeTurnID then (s, [])
  else
    ({ s.endTurn with materialised := true }, if s.turnIsMachine then [s.terminalEvent provider turn] else [])

/-- `processNotification`. -/
def processNotification (provider : Provider) : Notification → TurnState × List SessionEvent
  | .threadStatusChanged threadID status => (s.processThreadStatus threadID status, [])
  | .planUpdated turnID plan => (s, s.processPlan turnID plan)
  | .turnStarted threadID turn => s.processTurnStarted threadID turn
  | .turnCompleted threadID turn => s.processTurnCompleted provider threadID turn
  | .agentMessageDelta turnID delta => (s, s.processAgentMessageDelta turnID delta)
  | .itemStarted turnID item => (s, s.processItemEvent turnID item true)
  | .itemCompleted turnID item => (s, s.processItemEvent turnID item false)
  | .tokenUsageUpdated turnID last => (s.processTokenUsage turnID last, [])
  | .other => (s, [])

/-- The pending request of an id. -/
def interaction? (rpcID : String) : Option Interaction := s.interactions.find? (·.rpcID = rpcID)

/-- The record of a new request. -/
def newInteraction (rpcID : String) (method : RequestMethod) (params : Params) : Interaction where
  rpcID := rpcID
  method := method
  kind := (classifyCodexServerRequest method).1
  summary := (classifyCodexServerRequest method).2
  payload := params
  onMachineStream := s.onMachineStream

/-- `processServerRequest`: a pending request id is not taken twice. -/
def processServerRequest (rpcID : String) (method : RequestMethod) (params : Params) : TurnState × List SessionEvent :=
  if rpcID = "" ∨ (s.interaction? rpcID).isSome then (s, [])
  else
    let inte := s.newInteraction rpcID method params
    ({ s with interactions := inte :: s.interactions },
      if s.onMachineStream then
        [{ s.turnEvent .interactionStarted with
            interaction := some {
              options := codexApprovalOptions method params, nativeInteractionID := rpcID, kind := inte.kind
              summary := inte.summary, nativePayload := params.raw, resolved := false } }]
      else [])

/-- The decision as the resolved event reports it. -/
def reportedDecision (decision answer : String) : String :=
  if answer = "cancel" then "cancelled" else if answer = "decline" then "declined" else decision

/-- `resolvedEventsLocked`. -/
def resolvedEvents (inte : Interaction) (decision : String) : List SessionEvent :=
  if inte.onMachineStream then
    [{ s.turnEvent .interactionResolved with
        interaction := some {
          nativeInteractionID := inte.rpcID, kind := inte.kind, summary := inte.summary
          nativePayload := inte.payload.raw, resolved := true, decision := decision } }]
  else []

/-- An approval that no offered choice expresses stays pending. -/
def unavailable (inte : Interaction) (decision answer : String) : Bool :=
  (buildInteractionResponse inte decision answer).isNone &&
    (inte.method = .commandExecutionApproval || inte.method = .fileChangeApproval)

/-- `resolveInteraction`: the state, the result to send and the events, or `none` when not found. -/
def resolveInteraction (rpcID decision answer : String) : Option (TurnState × Option Response × List SessionEvent) :=
  match s.interaction? rpcID with
  | none => none
  | some inte =>
    if unavailable inte decision answer then none
    else some ({ s with interactions := s.interactions.filter (·.rpcID ≠ rpcID) },
      buildInteractionResponse inte decision answer, s.resolvedEvents inte (reportedDecision decision answer))

end TurnState

/-- The calls that the endpoint makes on its state. -/
inductive Call
  | setThread (threadID model : String)
  | beginMachineTurn (turnID : String)
  | clearMachineTurn
  | markTurnAccepted
  | notification (n : Notification)
  | serverRequest (rpcID : String) (method : RequestMethod) (params : Params)
  | resolveInteraction (rpcID decision answer : String)
  deriving DecidableEq, Repr

/-- What a call returns: the events to emit, and the answer to a resolution that was found. -/
structure Output where
  events : List SessionEvent := []
  resolution : Option (Option Response) := none
  deriving DecidableEq, Repr

/-- One call. -/
def TurnState.step (provider : Provider) (s : TurnState) : Call → TurnState × Output
  | .setThread threadID model => ((s.setThread threadID model).1, { events := (s.setThread threadID model).2 })
  | .beginMachineTurn turnID => (s.beginMachineTurn turnID, {})
  | .clearMachineTurn => (s.clearMachineTurn, {})
  | .markTurnAccepted => (s.markTurnAccepted, {})
  | .notification n => ((s.processNotification provider n).1, { events := (s.processNotification provider n).2 })
  | .serverRequest rpcID method params =>
    ((s.processServerRequest rpcID method params).1, { events := (s.processServerRequest rpcID method params).2 })
  | .resolveInteraction rpcID decision answer =>
    match s.resolveInteraction rpcID decision answer with
    | none => (s, {})
    | some (s', result, events) => (s', { events := events, resolution := some result })

end Pagnet.Codex
