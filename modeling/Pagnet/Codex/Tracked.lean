import Pagnet.Codex.Attribution

/-!
# Orderly Codex streams

What the state knows of the turn in progress is tied to the journal, call by call:
a registered turn without a native id has emitted nothing, and one with a native id
has an open stream that this native turn started.
-/

namespace Pagnet.Codex

open Session List

/-- The reports of native turn `native` in the journal add up to `usage`. -/
def Journal.Counts (j : Journal) (native : String) (usage : Usage) : Prop :=
  ∃ counted, List.Sublist counted j.reported ∧ (∀ report ∈ counted, report.1 = native) ∧
    usage = .total (counted.map (·.2))

/-- The events of a journal follow the law. -/
structure Recorded (j : Journal) : Prop where
  sourced : ∀ e ∈ j.events, e.event.type.isTurn → (e.event.turnID, e.native) ∈ j.starts
  named : ∀ e ∈ j.events, e.event.type.isTurn → e.event.turnID ≠ ""
  spanned : Spanned j.marks
  usage : ∀ e ∈ j.events, e.event.type = .turnCompleted → ∃ total, e.event.usage = some total ∧ j.Counts e.native total
  known : ∀ mark ∈ j.marks, mark.1 ∈ j.begun

/-- The turn in progress and the events so far agree. -/
structure Streams (j : Journal) : Prop where
  recorded : Recorded j
  registered : j.state.machineTurnID ≠ "" → j.state.machineTurnID ∈ j.begun
  live : j.state.onMachineStream → j.state.nativeTurnID ≠ "" → j.state.machineTurnID ≠ ""
  running : j.state.machineTurnID ≠ "" → j.state.nativeTurnID ≠ "" →
    (j.state.machineTurnID, j.state.nativeTurnID) ∈ j.starts ∧ IsOpen j.marks j.state.machineTurnID ∧
      j.Counts j.state.nativeTurnID j.state.usage
  waiting : j.state.machineTurnID ≠ "" → j.state.nativeTurnID = "" →
    (∀ m, (j.state.machineTurnID, m) ∉ j.marks) ∧ j.state.usage = .zero

/-- The requests of a journal: every id was received, and none is resolved while it is pending. -/
structure Requests (j : Journal) : Prop where
  resolved_once : j.resolved.Nodup
  resolved_requested : ∀ id ∈ j.resolved, id ∈ j.requested
  pending_requested : ∀ inte ∈ j.state.interactions, inte.rpcID ∈ j.requested
  pending_unresolved : ∀ inte ∈ j.state.interactions, inte.rpcID ∉ j.resolved

theorem streams_new (resuming : Bool) (resumeID : String) : Streams (.new resuming resumeID) where
  recorded :=
    { sourced := fun _ mem => nomatch mem
      named := fun _ mem => nomatch mem
      spanned := .nil
      usage := fun _ mem => nomatch mem
      known := fun _ mem => absurd mem not_mem_nil }
  registered none := absurd rfl none
  live on := nomatch on
  running none := absurd rfl none
  waiting none := absurd rfl none

section

variable {j j' : Journal}

variable {native : String} {total : Usage} {e : Emitted}

theorem Journal.Counts.mono (counts : j.Counts native total)
    (reported : List.Sublist j.reported j'.reported) : j'.Counts native total := by
  obtain ⟨counted, sub, own, is_total⟩ := counts
  exact ⟨counted, sub.trans reported, own, is_total⟩

/-- A report of the native turn is counted. -/
theorem Journal.Counts.report {last : Usage} (counts : j.Counts native total)
    (reported : j'.reported = (native, last) :: j.reported) : j'.Counts native (total.add last) := by
  obtain ⟨counted, sub, own, rfl⟩ := counts
  refine ⟨(native, last) :: counted, reported ▸ sub.cons_cons _, ?_, Usage.add_comm _ _⟩
  rintro report (_ | ⟨_, mem⟩)
  · rfl
  · exact own report mem

theorem Journal.marks_eq (events : j'.events = j.events) : j'.marks = j.marks := by
  rw [Journal.marks, events, Journal.marks]

theorem Journal.marks_turn (events : j'.events = e :: j.events) (turn : e.event.type.isTurn) :
    j'.marks = (e.event.turnID, e.event.type.mark) :: j.marks := by
  rw [Journal.marks, events, map_cons, marks_cons_turn turn, Journal.marks]

theorem Journal.marks_session (events : j'.events = e :: j.events) (session : e.event.type.isTurn = false) :
    j'.marks = j.marks := by
  rw [Journal.marks, events, map_cons, marks_cons_other session, Journal.marks]

namespace Recorded

/-- Without a new event, the rest of the history may grow. -/
theorem mono (recorded : Recorded j) (events : j'.events = j.events) (begun : j.begun ⊆ j'.begun)
    (starts : j'.starts = j.starts) (reported : List.Sublist j.reported j'.reported) : Recorded j' := by
  constructor
  case sourced => rw [events, starts]; exact recorded.sourced
  case named => rw [events]; exact recorded.named
  case spanned => rw [Journal.marks_eq events]; exact recorded.spanned
  case usage =>
    rw [events]
    intro e mem completed
    obtain ⟨total, is_total, counts⟩ := recorded.usage e mem completed
    exact ⟨total, is_total, counts.mono reported⟩
  case known =>
    rw [Journal.marks_eq events]
    exact fun mark mem => begun (recorded.known mark mem)

variable {e : Emitted}

/-- An activation event belongs to no turn. -/
theorem session (recorded : Recorded j) (events : j'.events = e :: j.events)
    (session : e.event.type.isTurn = false) (begun : j'.begun = j.begun) (starts : j'.starts = j.starts)
    (reported : j'.reported = j.reported) : Recorded j' := by
  constructor
  case sourced =>
    rw [events, starts]
    exact forall_mem_cons.2 ⟨fun turn => by simp [session] at turn, recorded.sourced⟩
  case named =>
    rw [events]
    exact forall_mem_cons.2 ⟨fun turn => by simp [session] at turn, recorded.named⟩
  case spanned => rw [Journal.marks_session events session]; exact recorded.spanned
  case usage =>
    rw [events]
    refine forall_mem_cons.2 ⟨fun completed => by simp [completed, EventType.isTurn] at session, ?_⟩
    intro e mem completed
    obtain ⟨total, is_total, counts⟩ := recorded.usage e mem completed
    exact ⟨total, is_total, counts.mono (reported ▸ List.Sublist.refl _)⟩
  case known => rw [Journal.marks_session events session, begun]; exact recorded.known

/-- A turn event of a turn with an accepted start. -/
theorem push (recorded : Recorded j) (events : j'.events = e :: j.events)
    (turn : e.event.type.isTurn) (starts : j.starts ⊆ j'.starts) (begun : j'.begun = j.begun)
    (reported : j'.reported = j.reported) (source : (e.event.turnID, e.native) ∈ j'.starts)
    (name : e.event.turnID ≠ "") (known : e.event.turnID ∈ j.begun)
    (spanned : Spanned ((e.event.turnID, e.event.type.mark) :: j.marks))
    (usage : e.event.type = .turnCompleted → ∃ total, e.event.usage = some total ∧ j.Counts e.native total) :
    Recorded j' := by
  have same : List.Sublist j.reported j'.reported := reported ▸ List.Sublist.refl _
  constructor
  case sourced =>
    rw [events]
    exact forall_mem_cons.2 ⟨fun _ => source, fun e mem turn => starts (recorded.sourced e mem turn)⟩
  case named =>
    rw [events]
    exact forall_mem_cons.2 ⟨fun _ => name, recorded.named⟩
  case spanned => rw [Journal.marks_turn events turn]; exact spanned
  case usage =>
    rw [events]
    have kept : ∀ e : Emitted, (∃ total, e.event.usage = some total ∧ j.Counts e.native total) →
        ∃ total, e.event.usage = some total ∧ j'.Counts e.native total :=
      fun e ⟨total, is_total, counts⟩ => ⟨total, is_total, counts.mono same⟩
    exact forall_mem_cons.2 ⟨fun completed => kept e (usage completed),
      fun e mem completed => kept e (recorded.usage e mem completed)⟩
  case known =>
    rw [Journal.marks_turn events turn, begun]
    exact forall_mem_cons.2 ⟨known, recorded.known⟩

end Recorded

namespace Streams

/-- The turn in progress is the same, and no event was added. -/
theorem frame (streams : Streams j) (same : j.state.Same j'.state) (recorded : Recorded j') (marks : j'.marks = j.marks)
    (begun : j'.begun = j.begun) (starts : j'.starts = j.starts) (reported : List.Sublist j.reported j'.reported) :
    Streams j' where
  recorded := recorded
  registered := by rw [same.machine, begun]; exact streams.registered
  live := by rw [same.stream, same.native, same.machine]; exact streams.live
  running := by
    rw [same.machine, same.native, marks, starts, same.usage]
    intro registered known
    obtain ⟨start, is_open, counts⟩ := streams.running registered known
    exact ⟨start, is_open, counts.mono reported⟩
  waiting := by rw [same.machine, same.native, marks, same.usage]; exact streams.waiting

/-- No machine turn is registered any more. -/
theorem withdrawn (recorded : Recorded j') (none_registered : j'.state.machineTurnID = "")
    (off : j'.state.onMachineStream → j'.state.nativeTurnID = "") : Streams j' where
  recorded := recorded
  registered registered := absurd none_registered registered
  live on known := absurd (off on) known
  running registered := absurd none_registered registered
  waiting registered := absurd none_registered registered

/-- An event within the stream of the turn in progress. -/
theorem emit (streams : Streams j) (same : j.state.Same j'.state) {e : Emitted} (events : j'.events = e :: j.events)
    (begun : j'.begun = j.begun) (starts : j'.starts = j.starts) (reported : j'.reported = j.reported)
    (on : j.state.onMachineStream) (known : j.state.nativeTurnID ≠ "")
    (source : e.native = j.state.nativeTurnID) (turn : e.event.turnID = j.state.machineTurnID)
    (is_turn : e.event.type.isTurn) (within : e.event.type.mark = .within) : Streams j' := by
  have registered := streams.live on known
  obtain ⟨start, is_open, counts⟩ := streams.running registered known
  have marks := Journal.marks_turn events is_turn
  rw [turn, within] at marks
  constructor
  case recorded =>
    refine streams.recorded.push events is_turn (starts ▸ fun _ mem => mem) begun reported ?_ ?_ ?_ ?_ ?_
    · rw [turn, source, starts]; exact start
    · rw [turn]; exact registered
    · rw [turn]; exact streams.registered registered
    · rw [turn, within]; exact streams.recorded.spanned.within is_open
    · intro completed
      rw [completed] at within
      cases within
  case registered => rw [same.machine, begun]; exact streams.registered
  case live => rw [same.stream, same.native, same.machine]; exact streams.live
  case running =>
    rw [same.machine, same.native, same.usage, starts, marks]
    exact fun _ _ => ⟨start, is_open.push nofun, counts.mono (reported ▸ List.Sublist.refl _)⟩
  case waiting =>
    rw [same.native]
    exact fun _ unknown => absurd unknown known

end Streams

end

section

variable {provider : Provider} {j : Journal} {call : Call} {s : TurnState} {out : Output}

variable {turnID threadID : String} {turn : Turn} {inte : Interaction} {j' : Journal}

theorem TurnState.not_foreign (own : s.foreign turnID = false) (named : turnID ≠ "")
    (known : s.nativeTurnID ≠ "") : turnID = s.nativeTurnID := by
  simpa [TurnState.foreign, named, known] using own

/-- Outside a stale state, a machine turn in progress has a known native turn. -/
theorem TurnState.known_of_not_stale (fresh : ¬s.Stale) (on : s.onMachineStream) : s.nativeTurnID ≠ "" :=
  fun unknown => fresh ⟨on, unknown⟩

theorem TurnState.terminalEvent_turnID (turn : Turn) : (s.terminalEvent provider turn).turnID = s.machineTurnID := by
  unfold TurnState.terminalEvent
  cases turn.status with
  | failed => cases turn.error <;> rfl
  | _ => rfl

theorem TurnState.terminalEvent_closes (provider : Provider) (s : TurnState) (turn : Turn) : (s.terminalEvent provider turn).type.isTurn ∧
    (s.terminalEvent provider turn).type.mark = .closes := by
  unfold TurnState.terminalEvent
  cases turn.status with
  | failed => cases turn.error <;> exact ⟨rfl, rfl⟩
  | _ => exact ⟨rfl, rfl⟩

theorem TurnState.terminalEvent_usage (completed : (s.terminalEvent provider turn).type = .turnCompleted) :
    (s.terminalEvent provider turn).usage = some s.usage := by
  unfold TurnState.terminalEvent at completed ⊢
  cases status : turn.status with
  | completed => rfl
  | failed => cases error : turn.error <;> simp [status, error, TurnState.turnEvent] at completed
  | interrupted | other => simp [status, TurnState.turnEvent] at completed

section

variable (streams : Streams j)
include streams

/-- A registration of a new turn, of which nothing was emitted. -/
theorem Streams.begins (fresh : turnID ∉ j.begun) :
    Streams (j.after (.beginMachineTurn turnID) (j.state.beginMachineTurn turnID) {}) where
  recorded := streams.recorded.mono rfl (subset_cons_self _ _) rfl (.refl _)
  registered _ := mem_cons_self
  live _ known := absurd rfl known
  running _ known := absurd rfl known
  waiting _ _ := ⟨fun _ mem => fresh (streams.recorded.known _ mem), rfl⟩

/-- The accepted start opens the stream of the registered turn. -/
theorem Streams.starts
    (registered : j.state.machineTurnID ≠ "") (unknown : j.state.nativeTurnID = "") (named : turn.id ≠ "") :
    Streams (j.after (.notification (.turnStarted threadID turn))
      { j.state with turnAccepted := true, turnActive := true, turnIsMachine := true, nativeTurnID := turn.id }
      { events := [j.state.turnEvent .turnStarted] }) := by
  obtain ⟨unused, no_usage⟩ := streams.waiting registered unknown
  constructor
  case recorded =>
    exact streams.recorded.push rfl rfl (subset_cons_self _ _) rfl rfl mem_cons_self registered
      (streams.registered registered) (streams.recorded.spanned.opens unused) nofun
  case registered => exact streams.registered
  case live => exact fun _ _ => registered
  case running =>
    refine fun _ _ => ⟨mem_cons_self, IsOpen.of_opens unused, [], nil_sublist _, nofun, no_usage⟩
  case waiting => exact fun _ none_native => absurd none_native named

/-- The terminal event closes the stream of the turn in progress. -/
theorem Streams.ends (on : j.state.onMachineStream)
    (known : j.state.nativeTurnID ≠ "") (own : turn.id = j.state.nativeTurnID) :
    Streams (j.after (.notification (.turnCompleted threadID turn)) { j.state.endTurn with materialised := true }
      { events := [j.state.terminalEvent provider turn] }) := by
  have registered := streams.live on known
  obtain ⟨start, is_open, counts⟩ := streams.running registered known
  obtain ⟨is_turn, closes⟩ := TurnState.terminalEvent_closes provider j.state turn
  have named : (j.state.terminalEvent provider turn).turnID = j.state.machineTurnID := j.state.terminalEvent_turnID turn
  refine .withdrawn ?_ rfl fun _ => rfl
  refine streams.recorded.push (e := ⟨turn.id, _⟩) rfl is_turn (fun _ mem => mem) rfl rfl ?_ ?_ ?_ ?_ ?_
  · rw [named, own]; exact start
  · rw [named]; exact registered
  · rw [named]; exact streams.registered registered
  · rw [named, closes]; exact streams.recorded.spanned.closes is_open
  · exact fun completed => ⟨_, TurnState.terminalEvent_usage completed, own ▸ counts⟩

/-- A report of the native turn in progress. -/
theorem Streams.counts {last : Usage} (on : j.state.onMachineStream)
    (known : j.state.nativeTurnID ≠ "") (own : turnID = j.state.nativeTurnID) :
    Streams (j.after (.notification (.tokenUsageUpdated turnID last)) { j.state with usage := j.state.usage.add last } {}) := by
  obtain ⟨start, is_open, counts⟩ := streams.running (streams.live on known) known
  constructor
  case recorded => exact streams.recorded.mono rfl (fun _ mem => mem) rfl (sublist_cons_self _ _)
  case registered => exact streams.registered
  case live => exact streams.live
  case running => exact fun _ _ => ⟨start, is_open, counts.report (own ▸ rfl)⟩
  case waiting => exact fun _ unknown => absurd unknown known

/-- The streams go on through every orderly call. -/
theorem Streams.step (orderly : Orderly j call) (effect : Effect provider j.state call s out) :
    Streams (j.after call s out) := by
  cases effect with
  | silent same requests other =>
    have begun : (j.after call s {}).begun = j.begun := by rw [Journal.after, other, nil_append]
    have starts : (j.after call s {}).starts = j.starts := by
      cases call with
      | notification n => cases n <;> rfl
      | _ => rfl
    have reported : List.Sublist j.reported (j.after call s {}).reported := sublist_append_right _ _
    exact streams.frame same (streams.recorded.mono rfl (begun ▸ fun _ mem => mem) starts reported) rfl begun starts reported
  | activates threadID model same requests e session =>
    exact streams.frame same (streams.recorded.session rfl session rfl rfl rfl) (Journal.marks_session rfl session) rfl rfl
      (.refl _)
  | begins turnID => exact streams.begins orderly.2
  | clears | endsOther =>
    exact .withdrawn (streams.recorded.mono rfl (fun _ mem => mem) rfl (.refl _)) rfl fun _ => rfl
  | startsOther threadID turn none_registered =>
    exact .withdrawn (streams.recorded.mono rfl (fun _ mem => mem) rfl (.refl _)) none_registered nofun
  | starts threadID turn registered => exact streams.starts registered (orderly.2 registered) orderly.1
  | @shows n turnID source no_start no_report names on own e turn type =>
    obtain ⟨named, fresh⟩ := names j orderly
    have known := TurnState.known_of_not_stale fresh on
    refine streams.emit (.refl _) rfl rfl ?_ ?_ on known ?_ turn (by rw [type]; rfl) (by rw [type]; rfl)
    · rw [Journal.after, no_start, nil_append]
    · rw [Journal.after, no_report, nil_append]
    · exact (source j).trans (TurnState.not_foreign own named known)
  | plans turnID plan on registered known own e turn type =>
    exact streams.emit (.refl _) rfl rfl rfl rfl on known own turn (by rw [type]; rfl) (by rw [type]; rfl)
  | counts turnID last on own =>
    have known := TurnState.known_of_not_stale orderly.2 on
    exact streams.counts on known (TurnState.not_foreign own orderly.1 known)
  | ends threadID turn on own =>
    have known := TurnState.known_of_not_stale orderly.2 on
    exact streams.ends on known (own known orderly.1)
  | asksOther rpcID method params off =>
    exact streams.frame ⟨rfl, rfl, rfl, rfl⟩ (streams.recorded.mono rfl (fun _ mem => mem) rfl (.refl _)) rfl rfl rfl (.refl _)
  | asks rpcID method params on e turn type =>
    obtain ⟨named, own⟩ := orderly.2 on
    exact streams.emit ⟨rfl, rfl, rfl, rfl⟩ rfl rfl rfl rfl on (own ▸ named) own turn (by rw [type]; rfl) (by rw [type]; rfl)
  | resolves rpcID decision answer inte found result =>
    have source : j.native (.resolveInteraction rpcID decision answer) = inte.payload.turnID := by
      rw [Journal.native, found]; rfl
    cases shown : inte.onMachineStream with
    | false =>
      have quiet : j.state.resolvedEvents inte (TurnState.reportedDecision decision answer) = [] := by
        simp [TurnState.resolvedEvents, shown]
      rw [quiet]
      exact streams.frame ⟨rfl, rfl, rfl, rfl⟩ (streams.recorded.mono rfl (fun _ mem => mem) rfl (.refl _)) rfl rfl rfl
        (.refl _)
    | true =>
      obtain ⟨on, named, own⟩ := orderly inte found shown
      rw [TurnState.resolvedEvents, if_pos shown]
      exact streams.emit ⟨rfl, rfl, rfl, rfl⟩ rfl rfl rfl rfl on (own ▸ named) (source.trans own) rfl rfl rfl

end

/-- No request was added and none was resolved. -/
theorem Requests.frame (requests : Requests j) (pending : j'.state.interactions = j.state.interactions)
    (requested : j.requested ⊆ j'.requested) (resolved : j'.resolved = j.resolved) : Requests j' where
  resolved_once := by rw [resolved]; exact requests.resolved_once
  resolved_requested := by rw [resolved]; exact fun id mem => requested (requests.resolved_requested id mem)
  pending_requested := by rw [pending]; exact fun inte mem => requested (requests.pending_requested inte mem)
  pending_unresolved := by rw [pending, resolved]; exact requests.pending_unresolved

/-- A request with a new id. -/
theorem Requests.asks (requests : Requests j) (inte : Interaction) (fresh : inte.rpcID ∉ j.requested)
    (pending : j'.state.interactions = inte :: j.state.interactions) (requested : j'.requested = inte.rpcID :: j.requested)
    (resolved : j'.resolved = j.resolved) : Requests j' where
  resolved_once := by rw [resolved]; exact requests.resolved_once
  resolved_requested := by
    rw [resolved, requested]
    exact fun id mem => mem_cons_of_mem _ (requests.resolved_requested id mem)
  pending_requested := by
    rw [pending, requested]
    exact forall_mem_cons.2 ⟨mem_cons_self,
      fun inte mem => mem_cons_of_mem _ (requests.pending_requested inte mem)⟩
  pending_unresolved := by
    rw [pending, resolved]
    exact forall_mem_cons.2 ⟨fun mem => fresh (requests.resolved_requested _ mem), requests.pending_unresolved⟩

/-- The resolution of a pending request. -/
theorem Requests.resolves (requests : Requests j) (mem : inte ∈ j.state.interactions)
    (pending : j'.state.interactions = j.state.interactions.filter (·.rpcID ≠ inte.rpcID))
    (requested : j'.requested = j.requested) (resolved : j'.resolved = inte.rpcID :: j.resolved) : Requests j' where
  resolved_once := by
    rw [resolved]
    exact nodup_cons.2 ⟨requests.pending_unresolved inte mem, requests.resolved_once⟩
  resolved_requested := by
    rw [resolved, requested]
    exact forall_mem_cons.2 ⟨requests.pending_requested inte mem, requests.resolved_requested⟩
  pending_requested := by
    rw [pending, requested]
    exact fun other kept => requests.pending_requested other (mem_of_mem_filter kept)
  pending_unresolved := by
    rw [pending, resolved]
    intro other kept
    obtain ⟨was, differs⟩ := List.mem_filter.1 kept
    exact not_mem_cons_of_ne_of_not_mem (by simpa using differs) (requests.pending_unresolved other was)

/-- The requests go on through every orderly call. -/
theorem Requests.step (requests : Requests j) (orderly : Orderly j call) (effect : Effect provider j.state call s out) :
    Requests (j.after call s out) := by
  cases effect with
  | silent same unchanged other =>
    have resolved : (j.after call s {}).resolved = j.resolved := by cases call <;> rfl
    exact requests.frame unchanged (subset_append_right _ _) resolved
  | activates threadID model same unchanged e session => exact requests.frame unchanged (fun _ mem => mem) rfl
  | asksOther rpcID method params | asks rpcID method params =>
    exact requests.asks (j.state.newInteraction rpcID method params) orderly.1 rfl rfl rfl
  | resolves rpcID decision answer inte found result =>
    obtain rfl : inte.rpcID = rpcID := by simpa using find?_some found
    exact requests.resolves (mem_of_find?_eq_some found) rfl rfl rfl
  | _ => exact requests.frame rfl (fun _ mem => mem) rfl

end

/-- **Attribution.** In every run of orderly calls, each event belongs to the native
turn that started for its machine turn, and the events of a machine turn are one stream. -/
theorem events_attributed (provider : Provider) (resuming : Bool) (resumeID : String)
    {trace : List (Event Journal Call Output)} {j : Journal}
    (run : Run (Journal.step · provider) (.new resuming resumeID) trace j)
    (orderly : ∀ e ∈ trace, Orderly e.before e.input) : Attributed j := by
  have invariant : Streams j ∧ Requests j := by
    refine run.guarded (P := fun j => Streams j ∧ Requests j) (G := Orderly)
      ⟨streams_new resuming resumeID, nodup_nil, nofun, nofun, nofun⟩ ?_ orderly
    rintro j call ⟨streams, requests⟩ orderly
    exact ⟨streams.step orderly (step_effect j.state call), requests.step orderly (step_effect j.state call)⟩
  obtain ⟨streams, requests⟩ := invariant
  refine ⟨streams.recorded.sourced, streams.recorded.named, streams.recorded.spanned, ?_, requests.resolved_once⟩
  intro e mem completed
  obtain ⟨total, is_total, counted, sub, own, rfl⟩ := streams.recorded.usage e mem completed
  exact ⟨counted, sub, own, is_total⟩

/-- A classifier that knows no provider error. -/
def plainProvider : Provider where
  classify _ := (.unknown, none)
  trunc := id

/-- A turn that starts, reports usage and completes. -/
def completedTurn : List Call :=
  [.setThread "th" "gpt", .beginMachineTurn "t1", .notification (.turnStarted "th" ⟨"n1", .other "inProgress", none⟩),
    .notification (.agentMessageDelta "n1" "hi"), .notification (.tokenUsageUpdated "n1" ⟨5, 2, 0⟩),
    .notification (.turnCompleted "th" ⟨"n1", .completed, none⟩)]

theorem completed_turn_attributed :
    Attributed (finalState (Journal.step · plainProvider) (.new false "") completedTurn) :=
  events_attributed plainProvider false "" (Run.start.inputs completedTurn) (by decide)

/-- A turn is withdrawn while its native turn runs on, the next one is registered, and
an output of the first native turn arrives. -/
def withdrawnTurn : List Call :=
  [.setThread "th" "gpt", .beginMachineTurn "t1", .notification (.turnStarted "th" ⟨"n1", .other "inProgress", none⟩),
    .clearMachineTurn, .beginMachineTurn "t2", .notification (.agentMessageDelta "n1" "late")]

/-- The late output of the withdrawn turn appears as output of the next one. -/
theorem late_output_misattributed :
    ¬Attributed (finalState (Journal.step · plainProvider) (.new false "") withdrawnTurn) := by
  intro attributed
  have stray : ∃ e ∈ (finalState (Journal.step · plainProvider) (.new false "") withdrawnTurn).events,
      e.event.type.isTurn = true ∧
        (e.event.turnID, e.native) ∉ (finalState (Journal.step · plainProvider) (.new false "") withdrawnTurn).starts := by
    decide
  obtain ⟨e, mem, turn, no_start⟩ := stray
  exact no_start (attributed.sourced e mem turn)

end Pagnet.Codex
