import Pagnet.Data.Span

/-!
# Session events

The normalized events that a runtime driver emits, whatever the runtime: the
session's activation, the turns, their output and the native interactions.
-/

namespace Pagnet.Session

/-- The classes of runtime failures. -/
inductive FailureKind
  | rateLimited
  | quotaExhausted
  | authRequired
  | contextLimit
  | networkError
  | processError
  | permissionError
  | unknown
  | interrupted
  deriving DecidableEq, Repr

/-- Token counts, as the machine integers that a driver adds up. -/
structure Usage where
  input : BitVec 64
  output : BitVec 64
  cached : BitVec 64
  deriving DecidableEq, Repr

namespace Usage

def zero : Usage := ⟨0, 0, 0⟩

def add (u v : Usage) : Usage := ⟨u.input + v.input, u.output + v.output, u.cached + v.cached⟩

/-- What a list of reports counts. -/
def total (reports : List Usage) : Usage := reports.foldr add zero

theorem add_comm (u v : Usage) : u.add v = v.add u := by
  simp [add, BitVec.add_comm]

end Usage

/-- The types of events that are not of one runtime only. -/
inductive EventType
  | sessionStopped
  | sessionStarted
  | sessionResumed
  | sessionLost
  | sessionIdentityChanged
  | busy
  | idle
  | turnStarted
  | turnOutput
  | planUpdated
  | turnCompleted
  | turnFailed
  | interactionStarted
  | interactionResolved
  deriving DecidableEq, Repr

/-- The events that belong to one turn. -/
def EventType.isTurn : EventType → Bool
  | .turnStarted | .turnOutput | .planUpdated | .turnCompleted | .turnFailed | .interactionStarted
  | .interactionResolved => true
  | _ => false

/-- The events that end a turn's stream. -/
def isTerminalSessionEvent : EventType → Bool
  | .turnCompleted | .turnFailed | .sessionLost => true
  | _ => false

/-- What an event does to the stream of its turn. -/
def EventType.mark : EventType → Mark
  | .turnStarted => .opens
  | .turnCompleted | .turnFailed => .closes
  | _ => .within

inductive InteractionKind
  | question
  | permission
  | other
  deriving DecidableEq, Repr

/-- One choice of a permission request. -/
structure InteractionOption where
  id : String
  kind : String
  deriving DecidableEq, Repr

/-- An observation of a native interaction; its payload is the vendor's text. -/
structure InteractionEvent where
  options : List InteractionOption := []
  nativeInteractionID : String
  kind : InteractionKind
  summary : String
  nativePayload : String
  resolved : Bool
  decision : String := ""
  deriving DecidableEq, Repr

/-- One entry of a native checklist. -/
structure PlanEntry where
  text : String
  status : String
  deriving DecidableEq, Repr

/-- A native checklist of one turn. -/
structure PlanSnapshot where
  source : String
  nativeTurnID : String
  entries : List PlanEntry
  deriving DecidableEq, Repr

/-- A normalized event. -/
structure SessionEvent where
  type : EventType
  sessionID : String := ""
  turnID : String := ""
  output : String := ""
  nativeOutput : Bool := false
  model : String := ""
  usage : Option Usage := none
  failureKind : Option FailureKind := none
  error : String := ""
  retryAt : Option String := none
  plan : Option PlanSnapshot := none
  interaction : Option InteractionEvent := none
  deriving DecidableEq, Repr

/-- The stream marks of a log of events; activation events have no turn. -/
def marks (events : List SessionEvent) : List (String × Mark) :=
  (events.filter fun e => e.type.isTurn).map fun e => (e.turnID, e.type.mark)

theorem marks_cons_turn {e : SessionEvent} (turn : e.type.isTurn) (events : List SessionEvent) :
    marks (e :: events) = (e.turnID, e.type.mark) :: marks events := by
  simp [marks, turn]

theorem marks_cons_other {e : SessionEvent} (other : e.type.isTurn = false) (events : List SessionEvent) :
    marks (e :: events) = marks events := by
  simp [marks, other]

/-- The classifier of provider errors and the cut of long messages; both look at texts only. -/
structure Provider where
  classify : String → FailureKind × Option String
  trunc : String → String

end Pagnet.Session
