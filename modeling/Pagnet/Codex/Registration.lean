import Pagnet.Codex.Coherent
import Pagnet.Codex.Tracked

/-!
# The registration of a Codex turn

A turn stays registered with the protocol state from its `beginMachineTurn` until its
terminal event or its own withdrawal, provided that the reader's clean-up after a
settlement and the end of other native turns do not fall into that time.
-/

namespace Pagnet.Codex

open Session List

variable (e : Endpoint)

/-- `Submit` number `n` has returned. -/
def Endpoint.HasReturned (n : Nat) : Prop := n < e.serial ∨ n = e.serial ∧ e.pc.inFlight = false

/-- A turn registration belongs to its own `Submit`. -/
structure Belongs (e : Endpoint) : Prop where
  /-- the registered turn is the one that the state knows -/
  registered : ∀ t, e.registered = some t → e.state.machineTurnID = t
  /-- a turn begins only when no other one is registered -/
  unreplaced : e.pc = .beginning → e.registered = none
  /-- a send is on the channel of the `Submit` in flight -/
  no_late_send : ∀ ch ev rest, e.reader = .sending ch ev rest → ch = e.serial ∧ e.pc.inFlight
  /-- what was captured for a turn was sent before its `Submit` returned -/
  delivered : ∀ n, e.HasReturned n → e.captured.filter (·.1 = n) = e.sent.filter (·.1 = n)

/-- A section of the reader that leaves the turn in flight: the clean-up after a
settlement finds no registered turn, and the terminal event of a turn without a name
finds no channel. -/
def Endpoint.Leaves : Reader → Prop
  | .clearing _ => e.state.machineTurnID = ""
  | .routing (ev :: _) => isTerminalSessionEvent ev.type → ev.turnID = "" → e.currentTurnEvents = none
  | _ => True

/-- A step that does not disturb a registration: turn ids are new, the reader leaves
the turn in flight, and no external turn ends while a machine turn is registered. -/
def Undisturbed : Action → Prop
  | .submit turnID => turnID ≠ "" ∧ turnID ∉ e.used
  | .read => e.Leaves e.reader
  | .receive (.notification (.turnCompleted _ _) _) =>
    e.state.turnActive → e.state.turnIsMachine = false → e.state.machineTurnID = ""
  | _ => True

instance : ∀ reader, Decidable (e.Leaves reader)
  | .clearing _ => inferInstanceAs (Decidable (_ = _))
  | .routing (_ :: _) => inferInstanceAs (Decidable (_ → _))
  | .ready | .routing [] | .sending _ _ _ | .releasing _ _ _ | .settling _ _ | .settleDraining _ | .reaping | .failing
  | .signalling | .signalDraining | .closingStdin | .closing | .done => inferInstanceAs (Decidable True)

instance : ∀ a, Decidable (Undisturbed e a)
  | .submit _ => inferInstanceAs (Decidable (_ ∧ _))
  | .read => inferInstanceAs (Decidable (e.Leaves e.reader))
  | .receive (.notification (.turnCompleted _ _) _) => inferInstanceAs (Decidable (_ → _))
  | .receive (.notification (.threadStatusChanged _ _) _) | .receive (.notification (.planUpdated _ _) _)
  | .receive (.notification (.turnStarted _ _) _) | .receive (.notification (.agentMessageDelta _ _) _)
  | .receive (.notification (.itemStarted _ _) _) | .receive (.notification (.itemCompleted _ _) _)
  | .receive (.notification (.tokenUsageUpdated _ _) _) | .receive (.notification .other _) | .receive (.response _)
  | .receive (.serverRequest _ _ _) | .receive .other | .cancel | .advance | .write _ | .take | .giveUp | .die
  | .eof | .deliver | .report => inferInstanceAs (Decidable True)

/-- The events that the reader still has to route or has begun to send. -/
def Reader.hand : Reader → List SessionEvent
  | .routing events => events
  | .sending _ ev rest => ev :: rest
  | .releasing _ ev rest => ev :: rest
  | .settling _ rest => rest
  | .settleDraining rest => rest
  | .clearing rest => rest
  | _ => []

/-- `Submit` has not begun its turn yet. -/
def Pc.unbegun : Pc → Bool
  | .lookup | .probing | .registering | .beginning => true
  | _ => false

/-- `Submit` has no registration: it has not begun, or it has withdrawn. -/
def Pc.unregistered : Pc → Bool
  | .probing | .registering | .beginning | .clearing _ | .draining _ | .judging | .rejecting | .deciding => true
  | _ => false

/-- `Submit` has begun its turn and not withdrawn it. -/
def Pc.running : Pc → Bool
  | .requesting | .writing | .waiting | .dropping _ | .accepting | .awaiting | .settled | .withdrawing _ => true
  | _ => false

/-- No `Submit` is in flight, or it has not found the endpoint yet. -/
def Pc.outside : Pc → Bool
  | .idle | .lookup | .returned _ => true
  | _ => false

/-- How the registration, the state and the reader's events stand to each other. -/
structure Kept (e : Endpoint) : Prop where
  machine : ∀ t, e.registered = some t → e.state.machineTurnID = t ∧ t ≠ ""
  machine_used : e.state.machineTurnID = "" ∨ e.state.machineTurnID ∈ e.used
  hand_used : ∀ ev ∈ e.reader.hand, ev.turnID = "" ∨ ev.turnID ∈ e.used
  named : e.pc.inFlight → e.turnID ≠ "" ∧ e.turnID ∈ e.used
  unbegun : e.pc.unbegun → e.state.machineTurnID ≠ e.turnID ∧ ∀ ev ∈ e.reader.hand, ev.turnID ≠ e.turnID
  hand : ∀ ev ∈ e.reader.hand, isTerminalSessionEvent ev.type → e.registered ≠ some ev.turnID
  current : ∀ ch, e.currentTurnEvents = some ch → e.currentTurnID = e.turnID
  sends : ∀ ch ev, e.reader.sends = some (ch, ev) →
    ev.turnID = "" ∧ isTerminalSessionEvent ev.type = false ∨ ev.turnID = e.turnID
  settles : ∀ ch rest, e.reader = .settling ch rest → ch ≤ e.serial ∧
    (ch = e.serial → e.pc.unbegun = false ∧ e.registered ≠ some e.turnID)
  unregistered : e.pc.unregistered → e.registered = none
  outside : e.pc.outside → e.registered ≠ none → e.listed = false
  own : e.pc.outside = false → ∀ t, e.registered = some t → t = e.turnID
  closed : e.serial ∈ e.closed → e.registered ≠ none ∨ e.pc.unbegun → e.listed = false

/-- The registration and what it is compared with are the same. -/
structure SameRegistration (e e' : Endpoint) : Prop where
  machine : e'.state.machineTurnID = e.state.machineTurnID := by rfl
  registered : e'.registered = e.registered := by rfl
  used : e'.used = e.used := by rfl
  turnID : e'.turnID = e.turnID := by rfl
  serial : e'.serial = e.serial := by rfl
  listed : e.listed = false → e'.listed = false := by exact id

/-- The turn's fields and the closed channels are the same. -/
structure SameFields (e e' : Endpoint) : Prop where
  current : e'.currentTurnEvents = e.currentTurnEvents := by rfl
  currentID : e'.currentTurnID = e.currentTurnID := by rfl
  closed : e'.closed = e.closed := by rfl

theorem kept_launched (resuming : Bool) (resumeID threadID model : String) :
    Kept (.launched resuming resumeID threadID model) where
  machine _ none := nomatch none
  machine_used := by
    refine .inl ?_
    unfold Endpoint.launched TurnState.setThread
    dsimp only
    split
    · rfl
    · split <;> rfl
  hand_used _ mem := nomatch mem
  named none := nomatch none
  unbegun none := nomatch none
  hand _ mem := nomatch mem
  current _ none := nomatch none
  sends _ _ none := nomatch none
  settles _ _ none := nomatch none
  unregistered none := nomatch none
  outside _ some := absurd rfl some
  own none := nomatch none
  closed mem := nomatch mem

section

variable {e e' : Endpoint}

namespace Kept

section

variable (k : Kept e)
include k

/-- A section that leaves the registration alone, and the turn's fields too or frees them. -/
theorem moves (same : SameRegistration e e') (hand : e'.reader.hand ⊆ e.reader.hand)
    (sends : e'.reader.sends = none ∨ e'.reader.sends = e.reader.sends)
    (settles : ∀ ch rest, e'.reader = .settling ch rest → e.reader = .settling ch rest)
    (inFlight : e'.pc.inFlight → e.pc.inFlight) (unbegun : e'.pc.unbegun → e.pc.unbegun)
    (unregistered : e'.pc.unregistered → e.registered = none)
    (outside : e'.pc.outside → e.registered ≠ none → e.listed = false)
    (own : e'.pc.outside = false → e.pc.outside = false ∨ e.registered = none) (fields : SameFields e e' ∨
      e'.currentTurnEvents = none ∧ (e.registered ≠ none ∨ e'.pc.unbegun → e.listed = false)) : Kept e' where
  machine := by rw [same.registered, same.machine]; exact k.machine
  machine_used := by rw [same.machine, same.used]; exact k.machine_used
  hand_used ev mem := by rw [same.used]; exact k.hand_used ev (hand mem)
  named is := by rw [same.turnID, same.used]; exact k.named (inFlight is)
  unbegun is := by
    obtain ⟨differs, hands⟩ := k.unbegun (unbegun is)
    rw [same.machine, same.turnID]
    exact ⟨differs, fun ev mem => hands ev (hand mem)⟩
  hand ev mem := by rw [same.registered]; exact k.hand ev (hand mem)
  current ch is := by
    rcases fields with kept | ⟨none, -⟩
    · rw [kept.currentID, same.turnID]
      exact k.current ch (kept.current ▸ is)
    · cases none.symm.trans is
  sends ch ev is := by
    rw [same.turnID]
    rcases sends with none | was
    · cases none.symm.trans is
    · exact k.sends ch ev (was ▸ is)
  settles ch rest is := by
    obtain ⟨le, begun⟩ := k.settles ch rest (settles ch rest is)
    rw [same.serial, same.registered, same.turnID]
    refine ⟨le, fun own => ⟨?_, (begun own).2⟩⟩
    exact Bool.eq_false_iff.2 fun was => Bool.eq_false_iff.1 (begun own).1 (unbegun was)
  unregistered is := same.registered ▸ unregistered is
  outside is some := same.listed (outside is (same.registered ▸ some))
  own is t := by
    rw [same.registered, same.turnID]
    rcases own is with was | none
    · exact k.own was t
    · rw [none]; nofun
  closed mem held := by
    rw [same.registered] at held
    rcases fields with kept | ⟨-, freed⟩
    · rw [same.serial, kept.closed] at mem
      exact same.listed (k.closed mem (held.imp_right unbegun))
    · exact same.listed (freed held)

/-- A section of `Submit` that leaves the registration alone. -/
theorem goes (inFlight : e'.pc.inFlight → e.pc.inFlight)
    (unbegun : e'.pc.unbegun → e.pc.unbegun) (unregistered : e'.pc.unregistered → e.registered = none)
    (outside : e'.pc.outside → e.registered ≠ none → e.listed = false)
    (own : e'.pc.outside = false → e.pc.outside = false ∨ e.registered = none)
    (same : SameRegistration e e' := by exact { }) (fields : SameFields e e' := by exact { })
    (reader : e'.reader = e.reader := by rfl) : Kept e' :=
  k.moves same (reader ▸ fun _ mem => mem) (.inr (reader ▸ rfl)) (fun _ _ is => reader ▸ is) inFlight unbegun unregistered
    outside own (.inl fields)

/-- A section between the beginning and the withdrawal. -/
theorem runs (running : e.pc.running) (running' : e'.pc.running)
    (same : SameRegistration e e' := by exact { }) (fields : SameFields e e' := by exact { })
    (reader : e'.reader = e.reader := by rfl) : Kept e' := by
  have begun : e'.pc.unbegun = false ∧ e'.pc.unregistered = false ∧ e'.pc.outside = false := by
    cases pc : e'.pc with
    | requesting | writing | waiting | dropping | accepting | awaiting | settled | withdrawing => exact ⟨rfl, rfl, rfl⟩
    | _ => rw [pc] at running'; cases running'
  have was : e.pc.inFlight ∧ e.pc.outside = false := by
    cases pc : e.pc with
    | requesting | writing | waiting | dropping | accepting | awaiting | settled | withdrawing => exact ⟨rfl, rfl⟩
    | _ => rw [pc] at running; cases running
  obtain ⟨unbegun, unregistered, outside⟩ := begun
  refine k.goes (fun _ => was.1) ?_ ?_ ?_ (fun _ => .inl was.2) same fields reader
  · rw [unbegun]; nofun
  · rw [unregistered]; nofun
  · rw [outside]; nofun

/-- `Submit` returns without a registration. -/
theorem returns {r : Result} (pc : e'.pc = .returned r) (none : e.registered = none)
    (same : SameRegistration e e' := by exact { }) (fields : SameFields e e' := by exact { })
    (reader : e'.reader = e.reader := by rfl) : Kept e' := by
  refine k.goes ?_ ?_ (fun _ => none) (fun _ some => absurd none some) (fun _ => .inr none) same fields reader
  · rw [pc]; nofun
  · rw [pc]; nofun

/-- A section of the reader that leaves the registration alone. -/
theorem reads (hand : e'.reader.hand ⊆ e.reader.hand)
    (sends : e'.reader.sends = none ∨ e'.reader.sends = e.reader.sends)
    (settles : ∀ ch rest, e'.reader ≠ .settling ch rest) (same : SameRegistration e e' := by exact { })
    (fields : SameFields e e' := by exact { }) (pc : e'.pc = e.pc := by rfl) : Kept e' :=
  k.moves same hand sends (fun ch rest is => absurd is (settles ch rest)) (pc ▸ id) (pc ▸ id) (pc ▸ k.unregistered)
    (pc ▸ k.outside) (pc ▸ .inl) (.inl fields)

/-- The last section of `clearTurn`. -/
theorem clears (none : e.registered = none) (inFlight : e.pc.inFlight) (why : Why)
    (same : SameRegistration e e') (current : e'.currentTurnEvents = .none) (reader : e'.reader = e.reader)
    (pc : e'.pc = why.after) : Kept e' := by
  have unbegun : ¬ e'.pc.unbegun := by rw [pc]; cases why <;> nofun
  exact k.moves same (reader ▸ fun _ mem => mem) (.inr (reader ▸ rfl)) (fun _ _ is => reader ▸ is) (fun _ => inFlight)
    (fun is => absurd is unbegun) (fun _ => none) (fun _ some => absurd none some) (fun _ => .inr none)
    (.inr ⟨current, fun held => held.elim (fun some => absurd none some) fun is => absurd is unbegun⟩)

/-- `Submit` takes the turn's fields. -/
theorem registers (pc : e.pc = .registering) :
    Kept { e with
      currentTurnID := e.turnID, currentTurnEvents := some e.serial, turnEndpointGone := false
      turnDone := some e.serial, pc := .beginning } := by
  have none : e.registered = none := k.unregistered (by rw [pc]; rfl)
  exact { k with
    named := fun _ => k.named (by rw [pc]; rfl)
    unbegun := fun _ => k.unbegun (by rw [pc]; rfl)
    current := fun _ _ => rfl
    settles := fun ch rest is => by
      obtain ⟨le, begun⟩ := k.settles ch rest is
      refine ⟨le, fun own => absurd (begun own).1 ?_⟩
      rw [pc]
      nofun
    unregistered := fun _ => none
    outside := nofun
    own := fun _ t is => by rw [none] at is; cases is
    closed := fun mem _ => k.closed mem (.inr (by rw [pc]; rfl)) }

/-- The `Submit` registers its turn with the state. -/
theorem begins (pc : e.pc = .beginning) :
    Kept { e with state := e.state.beginMachineTurn e.turnID, registered := some e.turnID, pc := .requesting } := by
  obtain ⟨named, used⟩ := k.named (by rw [pc]; rfl)
  obtain ⟨-, hands⟩ := k.unbegun (by rw [pc]; rfl)
  exact { k with
    machine := fun t is => by cases is; exact ⟨rfl, named⟩
    machine_used := .inr used
    named := fun _ => ⟨named, used⟩
    unbegun := nofun
    hand := fun ev mem _ same => hands ev mem (Option.some.inj same).symm
    settles := fun ch rest is => by
      obtain ⟨le, begun⟩ := k.settles ch rest is
      refine ⟨le, fun own => absurd (begun own).1 ?_⟩
      rw [pc]
      nofun
    unregistered := nofun
    outside := nofun
    own := fun _ t is => (Option.some.inj is).symm
    closed := fun mem _ => k.closed mem (.inr (by rw [pc]; rfl)) }

/-- The `Submit` withdraws its turn. -/
theorem withdraws (why : Why) (pc : e.pc = .withdrawing why) :
    Kept { e with state := e.state.clearMachineTurn, registered := none, pc := .clearing why } where
  __ := k
  machine := nofun
  machine_used := .inl rfl
  named _ := k.named (by rw [pc]; rfl)
  unbegun := nofun
  hand _ _ _ is := nomatch is
  settles ch rest is := ⟨(k.settles ch rest is).1, fun _ => ⟨rfl, nofun⟩⟩
  unregistered _ := rfl
  outside := nofun
  own := nofun
  closed _ held := held.elim (fun some => absurd rfl some) nofun

/-- Every section of `Submit` keeps the registration. -/
theorem advance (c : Coherent e) : Kept e.advance := by
  unfold Endpoint.advance
  cases pc : e.pc with
  | lookup =>
    dsimp only
    split
    next listed =>
      have none : e.registered = none := by
        by_contra some
        rw [k.outside (by rw [pc]; rfl) some] at listed
        cases listed
      exact k.goes (fun _ => by rw [pc]; rfl) (fun _ => by rw [pc]; rfl)
        (fun _ => none) nofun (fun _ => .inr none)
    · exact k.goes nofun nofun nofun
        (fun _ => k.outside (by rw [pc]; rfl)) nofun
  | probing =>
    have none : e.registered = none := k.unregistered (by rw [pc]; rfl)
    dsimp only
    split
    · exact k.returns rfl none
    · exact k.goes (fun _ => by rw [pc]; rfl) (fun _ => by rw [pc]; rfl)
        (fun _ => none) nofun (fun _ => .inr none)
  | registering =>
    dsimp only
    split
    · exact k.returns rfl (k.unregistered (by rw [pc]; rfl))
    · exact k.registers pc
  | beginning => exact k.begins pc
  | requesting | dropping | accepting =>
    exact k.runs (by rw [pc]; rfl) rfl
  | settled =>
    exact k.goes nofun nofun nofun
      (fun _ some => k.closed (c.settled pc) (.inl some)) nofun
  | withdrawing why => exact k.withdraws why pc
  | clearing why =>
    have none : e.registered = none := k.unregistered (by rw [pc]; rfl)
    dsimp only
    split
    · exact k.clears none (by rw [pc]; rfl) why { } rfl rfl rfl
    · exact k.moves { } (fun _ mem => mem) (.inr rfl) (fun _ _ is => is) (fun _ => by rw [pc]; rfl) nofun (fun _ => none)
        nofun (fun _ => .inr none) (.inr ⟨rfl, fun held => held.elim (fun some => absurd none some) nofun⟩)
  | draining why =>
    have none : e.registered = none := k.unregistered (by rw [pc]; rfl)
    dsimp only
    split
    · exact k.clears none (by rw [pc]; rfl) why { } (c.drained why pc) rfl rfl
    · exact k
  | judging =>
    have none : e.registered = none := k.unregistered (by rw [pc]; rfl)
    refine k.goes (fun _ => by rw [pc]; rfl) ?_ (fun _ => none)
      (fun _ some => absurd none some) (fun _ => .inr none)
    cases e.readerDone <;> nofun
  | deciding => exact k.returns rfl (k.unregistered (by rw [pc]; rfl))
  | idle | writing | waiting | awaiting | rejecting | returned => exact k

/-- A new `Submit` has a new turn id. -/
theorem submit (c : Coherent e) {turnID : String} (named : turnID ≠ "") (fresh : turnID ∉ e.used) :
    Kept (e.submit turnID) := by
  have differs : ∀ id : String, id = "" ∨ id ∈ e.used → id ≠ turnID := by
    rintro id (rfl | mem) same
    · exact named same.symm
    · exact fresh (same ▸ mem)
  unfold Endpoint.submit
  split
  · exact k
  rename_i returned
  have idle : e.pc.outside ∧ e.pc.free := by
    cases pc : e.pc with
    | idle | returned => exact ⟨rfl, rfl⟩
    | _ => rw [pc] at returned; exact absurd rfl returned
  have no_current := (c.free idle.2).1
  exact { k with
    machine_used := k.machine_used.imp_right (mem_cons_of_mem _)
    hand_used := fun ev mem => (k.hand_used ev mem).imp_right (mem_cons_of_mem _)
    named := fun _ => ⟨named, mem_cons_self⟩
    unbegun := fun _ => ⟨differs _ k.machine_used, fun ev mem => differs _ (k.hand_used ev mem)⟩
    current := fun ch is => by rw [no_current] at is; cases is
    sends := fun ch ev is => by
      have held := c.sends_open is
      rw [idle.2] at held
      cases held
    settles := fun ch rest is => by
      have le := (k.settles ch rest is).1
      exact ⟨Nat.le_succ_of_le le, fun same => absurd le (by rw [same]; exact Nat.not_succ_le_self _)⟩
    unregistered := nofun
    outside := fun _ => k.outside idle.1
    own := nofun
    closed := fun mem => absurd (c.bounded _ mem) (Nat.not_succ_le_self _) }

theorem write (ok : Bool) : Kept (e.write ok) := by
  unfold Endpoint.write
  cases pc : e.pc with
  | writing =>
    dsimp only
    split <;> exact k.runs (by rw [pc]; rfl) rfl
  | _ => exact k

theorem take : Kept e.take := by
  unfold Endpoint.take
  split
  next pc _ => exact k.runs (by rw [pc]; rfl) rfl
  next pc _ => exact k.runs (by rw [pc]; rfl) rfl
  next pc =>
    split
    · exact k.runs (by rw [pc]; rfl) rfl
    · exact k
  · exact k

theorem giveUp : Kept e.giveUp := by
  unfold Endpoint.giveUp
  split
  next pc _ => exact k.runs (by rw [pc]; rfl) rfl
  next pc _ => exact k.runs (by rw [pc]; rfl) rfl
  · exact k

end

end Kept

/-! ## Messages -/

/-- The registered turn goes on, and the events are its own. -/
structure Runs (s s' : TurnState) (events : List SessionEvent) : Prop where
  machine : s'.machineTurnID = s.machineTurnID
  running : ∀ ev ∈ events, ev.turnID = s.machineTurnID ∧ isTerminalSessionEvent ev.type = false

theorem TurnState.terminalEvent_terminal {provider : Provider} {s : TurnState} (turn : Turn) :
    isTerminalSessionEvent (s.terminalEvent provider turn).type := by
  unfold TurnState.terminalEvent
  cases turn.status with
  | failed => cases turn.error <;> rfl
  | _ => rfl

/-- What a notification does to the registered turn: only the end of a turn ends it. -/
theorem processNotification_registration (provider : Provider) (s : TurnState) (n : Notification) :
    Runs s (s.processNotification provider n).1 (s.processNotification provider n).2 ∨
    ((∃ threadID turn, n = .turnCompleted threadID turn) ∧ s.turnActive ∧
      (s.processNotification provider n).1.machineTurnID = "" ∧
      ((s.turnIsMachine ∧ ∃ ev, (s.processNotification provider n).2 = [ev] ∧ ev.turnID = s.machineTurnID ∧
          isTerminalSessionEvent ev.type) ∨
        s.turnIsMachine = false ∧ (s.processNotification provider n).2 = [])) := by
  have effect : Effect provider s (.notification n) (s.processNotification provider n).1
      { events := (s.processNotification provider n).2 } := step_effect s (.notification n)
  generalize (s.processNotification provider n).1 = s' at effect ⊢
  generalize (s.processNotification provider n).2 = events at effect ⊢
  cases effect with
  | silent same requests other => exact .inl ⟨same.machine, forall_mem_nil _⟩
  | startsOther | counts => exact .inl ⟨rfl, forall_mem_nil _⟩
  | starts threadID turn registered => exact .inl ⟨rfl, forall_mem_singleton.2 ⟨rfl, rfl⟩⟩
  | shows _ _ _ _ _ _ _ turn type | plans _ _ _ _ _ _ _ turn type =>
    exact .inl ⟨rfl, forall_mem_singleton.2 ⟨turn, by rw [type]; rfl⟩⟩
  | endsOther threadID turn active external => exact .inr ⟨⟨threadID, turn, rfl⟩, active, rfl, .inr ⟨external, rfl⟩⟩
  | ends threadID turn on own =>
    obtain ⟨active, machine⟩ := Bool.and_eq_true_iff.1 on
    exact .inr ⟨⟨threadID, turn, rfl⟩, active, rfl,
      .inl ⟨machine, _, rfl, TurnState.terminalEvent_turnID turn, TurnState.terminalEvent_terminal turn⟩⟩

/-- A server request leaves the registered turn, and is shown on its stream. -/
theorem processServerRequest_registration (s : TurnState) (rpcID : String) (method : RequestMethod) (params : Params) :
    Runs s (s.processServerRequest rpcID method params).1 (s.processServerRequest rpcID method params).2 := by
  unfold TurnState.processServerRequest
  split
  · exact ⟨rfl, forall_mem_nil _⟩
  · refine ⟨rfl, ?_⟩
    split
    · exact forall_mem_singleton.2 ⟨rfl, rfl⟩
    · exact forall_mem_nil _

theorem ended_none (events : List SessionEvent) : ended events none = none := by
  simp [ended]

theorem ended_of_running {events : List SessionEvent} (running : ∀ ev ∈ events, isTerminalSessionEvent ev.type = false)
    (registered : Option String) : ended events registered = registered := by
  unfold ended
  rw [if_neg]
  intro any
  obtain ⟨ev, mem, terminal⟩ := any_eq_true.1 any
  rw [running ev mem] at terminal
  cases terminal

variable {ev : SessionEvent}

namespace Kept

variable {events rest : List SessionEvent} {s : TurnState} {ch : Nat} {ev : SessionEvent}

section

variable (k : Kept e)
include k

/-- A message that ends no turn brings events of the registered one. -/
theorem brings (accepted : Bool) (runs : Runs e.state s events) :
    Kept { e with state := s, reader := .routing events, registered := ended events e.registered, accepted := accepted } := by
  obtain ⟨machine, running⟩ := runs
  have same : ended events e.registered = e.registered := ended_of_running (fun ev mem => (running ev mem).2) _
  rw [same]
  exact { k with
    machine := by dsimp only; rw [machine]; exact k.machine
    machine_used := by dsimp only; rw [machine]; exact k.machine_used
    hand_used := fun ev mem => by rw [(running ev mem).1]; exact k.machine_used
    unbegun := fun is => by
      obtain ⟨differs, -⟩ := k.unbegun is
      rw [machine]
      exact ⟨differs, fun ev mem => by rw [(running ev mem).1]; exact differs⟩
    hand := fun ev mem terminal => by rw [(running ev mem).2] at terminal; cases terminal
    sends := fun _ _ is => nomatch (is : none = some _)
    settles := fun _ _ is => nomatch is }

/-- The message that ends the turn in progress ends its registration. -/
theorem finishes (accepted : Bool) (machine : s.machineTurnID = "")
    (none : ended events e.registered = none)
    (own : ∀ ev ∈ events, ev.turnID = e.state.machineTurnID) :
    Kept { e with state := s, reader := .routing events, registered := ended events e.registered, accepted := accepted } where
  __ := k
  machine := by dsimp only; rw [none]; nofun
  machine_used := .inl machine
  hand_used ev mem := by rw [own ev mem]; exact k.machine_used
  unbegun is := by
    obtain ⟨differs, -⟩ := k.unbegun is
    have inFlight : e.pc.inFlight := by
      cases pc : e.pc with
      | lookup | probing | registering | beginning => rfl
      | _ => rw [pc] at is; cases is
    refine ⟨?_, fun ev mem => by rw [own ev mem]; exact differs⟩
    rw [machine]
    exact ((k.named inFlight).1).symm
  hand ev mem _ := by dsimp only; rw [none]; nofun
  sends _ _ is := nomatch (is : Option.none = some _)
  settles _ _ is := nomatch is
  unregistered _ := none
  outside _ some := absurd none some
  own _ t is := by dsimp only at is; rw [none] at is; cases is
  closed mem held := k.closed mem (.inr (held.resolve_left fun some => some none))

/-- Every message keeps the registration, when no other native turn ends. -/
theorem dispatch (provider : Provider) (m : Message)
    (undisturbed : Undisturbed e (.receive m)) : Kept (e.dispatch provider m) := by
  cases m with
  | response ok =>
    unfold Endpoint.dispatch
    dsimp only
    split
    · exact { k with }
    · exact k
  | notification n own =>
    rcases processNotification_registration provider e.state n with
      runs | ⟨⟨threadID, turn, rfl⟩, active, machine, ended_turn⟩
    · exact k.brings _ runs
    · rcases ended_turn with ⟨is_machine, ev, events, turn_id, terminal⟩ | ⟨external, events⟩
      · have none : ended [ev] e.registered = none := by
          cases registered : e.registered with
          | none => exact ended_none _
          | some t =>
            rw [← (k.machine t registered).1, ← turn_id]
            simp [ended, terminal]
        have own : ∀ other ∈ [ev], other.turnID = e.state.machineTurnID := forall_mem_singleton.2 turn_id
        rw [← events] at none own
        exact k.finishes _ machine none own
      · have none : ended [] e.registered = none := by
          cases registered : e.registered with
          | none => rfl
          | some t =>
            obtain ⟨same, named⟩ := k.machine t registered
            exact absurd (same ▸ undisturbed active external) named
        have own : ∀ other ∈ ([] : List SessionEvent), other.turnID = e.state.machineTurnID := forall_mem_nil _
        rw [← events] at none own
        exact k.finishes _ machine none own
  | serverRequest rpcID method params =>
    have runs := processServerRequest_registration e.state rpcID method params
    have brought := k.brings e.accepted runs
    rwa [ended_of_running fun ev mem => (runs.running ev mem).2] at brought
  | other => exact k

/-- The reader settles a turn whose terminal event was routed. -/
theorem settle (c : Coherent e) (reader : e.reader = .settling ch rest) : Kept (e.settle ch rest) := by
  have hand : rest ⊆ e.reader.hand := by rw [reader]; exact fun _ mem => mem
  have quiet : e.reader.sends = none := by rw [reader]; rfl
  unfold Endpoint.settle
  split
  · exact k.reads hand (.inl rfl) nofun
  next is_current =>
    have is_current := not_not.1 is_current
    obtain ⟨own, is_open⟩ := c.current ch is_current
    obtain ⟨-, begun⟩ := k.settles ch rest reader
    obtain ⟨unbegun, ended⟩ := begun own
    have inside : e.pc.outside = false := by
      cases pc : e.pc with
      | idle | lookup | returned =>
        have free := (c.free (by rw [pc]; rfl)).1
        rw [is_current] at free
        cases free
      | _ => rfl
    have none : e.registered = none := by
      cases registered : e.registered with
      | none => rfl
      | some t => exact absurd (by rw [registered, k.own inside t registered]) ended
    have is_begun : ¬ e.pc.unbegun := by rw [unbegun]; exact Bool.false_ne_true
    rw [if_pos (c.no_senders quiet)]
    exact k.moves { } hand (.inl rfl) nofun id id (fun _ => none) (fun _ some => absurd none some) .inl
      (.inr ⟨rfl, fun held => held.elim (fun some => absurd none some) (absurd · is_begun)⟩)

/-- The reader has sent a terminal event of the turn in flight. -/
theorem unsend (c : Coherent e)
    (reader : e.reader = .releasing ch ev rest) :
    Kept { e with
      turnSenders := e.turnSenders - 1
      reader := if isTerminalSessionEvent ev.type then .settling ch rest else .routing rest } := by
  have sends : e.reader.sends = some (ch, ev) := by rw [reader]; rfl
  have hand : rest ⊆ e.reader.hand := by rw [reader]; exact subset_cons_self _ _
  obtain ⟨own, -, -⟩ := c.sends ch ev sends
  split
  next terminal =>
    have in_hand : ev ∈ e.reader.hand := by rw [reader]; exact mem_cons_self
    have ended := k.hand ev in_hand terminal
    have turn : ev.turnID = e.turnID := by
      refine (k.sends ch ev sends).resolve_left fun unnamed => ?_
      rw [terminal] at unnamed
      exact Bool.noConfusion unnamed.2
    have begun : e.pc.unbegun = false := by
      cases is : e.pc.unbegun with
      | false => rfl
      | true => exact absurd turn ((k.unbegun is).2 ev in_hand)
    have settled : ∀ ch' rest', Reader.settling ch rest = .settling ch' rest' → ch' ≤ e.serial ∧
        (ch' = e.serial → e.pc.unbegun = false ∧ e.registered ≠ some e.turnID) := by
      intro ch' rest' is
      cases is
      exact ⟨own.le, fun _ => ⟨begun, turn ▸ ended⟩⟩
    exact { k with
      hand_used := fun ev mem => k.hand_used ev (hand mem)
      unbegun := fun is => absurd is (by rw [begun]; nofun)
      hand := fun ev mem => k.hand ev (hand mem)
      sends := fun _ _ is => nomatch (is : none = some _)
      settles := settled }
  · exact k.reads hand (.inl rfl) nofun

/-- The reader captures the channel of the turn in flight. -/
theorem capture (reader : e.reader = .routing (ev :: rest))
    (leaves : isTerminalSessionEvent ev.type → ev.turnID = "" → e.currentTurnEvents = none) :
    Kept (e.capture ev rest) := by
  have hand : rest ⊆ e.reader.hand := by rw [reader]; exact subset_cons_self _ _
  unfold Endpoint.capture
  split
  · exact k.reads hand (.inl rfl) nofun
  next ch is_current =>
    split
    next own =>
      have own : ev.turnID = "" ∧ isTerminalSessionEvent ev.type = false ∨ ev.turnID = e.turnID := by
        rw [k.current ch is_current] at own
        refine own.imp_left fun unnamed => ⟨unnamed, Bool.eq_false_iff.2 fun terminal => ?_⟩
        rw [leaves terminal unnamed] at is_current
        cases is_current
      have same : (Reader.sending ch ev rest).hand = e.reader.hand := by rw [reader]; rfl
      exact { k with
        hand_used := same ▸ k.hand_used
        unbegun := same ▸ k.unbegun
        hand := same ▸ k.hand
        sends := fun ch' ev' is => by cases is; exact own
        settles := fun _ _ is => nomatch is }
    · exact k.reads hand (.inl rfl) nofun

/-- The reader signals a turn whose process is gone. -/
theorem signal (c : Coherent e) (reader : e.reader = .signalling) : Kept e.signal := by
  have unlisted := (c.reaped (by rw [reader]; rfl)).2
  have quiet : e.reader.sends = none := by rw [reader]; rfl
  unfold Endpoint.signal
  rw [if_pos (c.no_senders quiet)]
  unfold Endpoint.cutOff
  split
  · exact k.moves { } (nil_subset _) (.inl rfl) nofun id id k.unregistered k.outside .inl
      (.inr ⟨rfl, fun _ => unlisted⟩)
  next no_current =>
    rw [Option.not_isSome_iff_eq_none] at no_current
    exact k.moves { } (nil_subset _) (.inl rfl) nofun id id k.unregistered k.outside .inl
      (.inr ⟨no_current, fun _ => unlisted⟩)

/-- Every section of the reader keeps the registration, when its clean-up comes in time. -/
theorem read (c : Coherent e) (undisturbed : Undisturbed e .read) : Kept e.read := by
  unfold Endpoint.read
  have leaves : e.Leaves e.reader := undisturbed
  cases reader : e.reader with
  | ready | sending | done => exact k
  | routing events =>
    cases events with
    | nil => exact k.reads (nil_subset _) (.inl rfl) nofun
    | cons ev rest =>
      rw [reader] at leaves
      exact k.capture reader leaves
  | releasing ch ev rest => exact k.unsend c reader
  | settling ch rest => exact k.settle c reader
  | settleDraining | signalDraining => exact absurd c.undrained (by rw [reader]; nofun)
  | clearing rest =>
    have cleared : e.state.machineTurnID = "" := by rw [reader] at leaves; exact leaves
    have hand : rest ⊆ e.reader.hand := by rw [reader]; exact fun _ mem => mem
    exact k.reads hand (.inl rfl) nofun { machine := cleared.symm }
  | reaping => exact k.reads (nil_subset _) (.inl rfl) nofun { listed := fun _ => rfl }
  | failing | closingStdin | closing => exact k.reads (nil_subset _) (.inl rfl) nofun
  | signalling => exact k.signal c reader

/-- Every undisturbed step keeps the registration. -/
theorem step (c : Coherent e) (provider : Provider) (a : Action) (undisturbed : Undisturbed e a) :
    Kept (e.step provider a).1 := by
  cases a with
  | submit turnID => exact k.submit c undisturbed.1 undisturbed.2
  | cancel => exact { k with }
  | advance => exact k.advance c
  | write ok => exact k.write ok
  | take => exact k.take
  | giveUp => exact k.giveUp
  | die => exact { k with }
  | receive m =>
    show Kept (e.receive provider m)
    unfold Endpoint.receive
    split
    · exact k.dispatch provider m undisturbed
    · exact k
  | eof =>
    unfold Endpoint.step
    dsimp only
    split
    · exact k.reads (nil_subset _) (.inl rfl) nofun
    · exact k
  | read => exact k.read c undisturbed
  | deliver =>
    show Kept e.deliver
    unfold Endpoint.deliver
    split
    next reader => exact k.reads (by rw [reader]; exact fun _ mem => mem) (.inr (by rw [reader]; rfl)) nofun
    · exact k
  | report =>
    show Kept e.report
    unfold Endpoint.report
    split
    next pc => exact k.returns rfl (k.unregistered (by rw [pc]; rfl))
    · exact k

end

end Kept

/-- The event that the reader captured and has not sent yet. -/
def Reader.unsent : Reader → List (Nat × SessionEvent)
  | .sending ch ev _ => [(ch, ev)]
  | _ => []

/-- What was captured is what was sent and the event at hand. -/
def Delivers (e : Endpoint) : Prop := e.captured = e.reader.unsent ++ e.sent

attribute [local grind] Endpoint.submit Endpoint.advance Endpoint.release Endpoint.closeDone Endpoint.exit Endpoint.write
  Endpoint.take Endpoint.giveUp Endpoint.receive Endpoint.capture Endpoint.settle Endpoint.cutOff Endpoint.signal
  Endpoint.read Endpoint.deliver Endpoint.report Why.after

/-- Every step delivers what was captured. -/
theorem Delivers.step (d : Delivers e) (provider : Provider) (a : Action) : Delivers (e.step provider a).1 := by
  unfold Delivers at d ⊢
  cases a with
  | receive m => cases m <;> grind [Endpoint.step, Endpoint.receive, Endpoint.dispatch, Reader.unsent]
  | _ => grind [Endpoint.step, Reader.unsent]

/-- A send stands on the channel of a `Submit` in flight. -/
theorem Coherent.sending_inFlight (c : Coherent e) {ch : Nat} {rest : List SessionEvent}
    (reader : e.reader = .sending ch ev rest) : ch = e.serial ∧ e.pc.inFlight := by
  have sends : e.reader.sends = some (ch, ev) := by rw [reader]; rfl
  refine ⟨(c.sends ch ev sends).1, ?_⟩
  have held := c.sends_open sends
  cases pc : e.pc with
  | idle | returned => rw [pc] at held; cases held
  | _ => rfl

/-- A `Submit` that has returned has nothing unsent. -/
theorem Delivers.returned (d : Delivers e) (c : Coherent e) {n : Nat} (returned : e.HasReturned n) :
    e.captured.filter (·.1 = n) = e.sent.filter (·.1 = n) := by
  have nothing : e.reader.unsent.filter (·.1 = n) = [] := by
    cases reader : e.reader with
    | sending ch ev rest =>
      obtain ⟨own, inFlight⟩ := c.sending_inFlight reader
      have other : ch ≠ n := by
        rintro rfl
        rcases returned with earlier | ⟨-, idle⟩
        · omega
        · rw [inFlight] at idle; cases idle
      exact filter_eq_nil_iff.2 (forall_mem_singleton.2 (by simpa using other))
    | _ => rfl
  have d := d
  unfold Delivers at d
  rw [d, filter_append, nothing, nil_append]

end

/-- A turn registration belongs to its own `Submit`, in every run whose steps do not
disturb it. -/
theorem registration_belongs (provider : Provider) (resuming : Bool) (resumeID threadID model : String)
    {trace : List (Event Endpoint Action Unit)} {e : Endpoint}
    (run : Run (Endpoint.step · provider) (.launched resuming resumeID threadID model) trace e)
    (undisturbed : ∀ event ∈ trace, Undisturbed event.before event.input) : Belongs e := by
  obtain ⟨c, k, d⟩ : Coherent e ∧ Kept e ∧ Delivers e :=
    run.guarded (P := fun e => Coherent e ∧ Kept e ∧ Delivers e)
      ⟨coherent_launched resuming resumeID threadID model, kept_launched resuming resumeID threadID model, rfl⟩
      (fun e a ⟨c, k, d⟩ allowed => ⟨c.step provider a, k.step c provider a allowed, d.step provider a⟩) undisturbed
  exact {
    registered := fun t is => (k.machine t is).1
    unreplaced := fun pc => k.unregistered (by rw [pc]; rfl)
    no_late_send := fun _ _ _ reader => c.sending_inFlight reader
    delivered := fun n returned => d.returned c returned }

/-- One prompt up to its settlement: the reader has closed its `turnDone`. -/
def settledPrompt (turnID : String) : List Action :=
  [.submit turnID, .advance, .advance, .advance, .advance, .advance, .write true, .receive (.response true), .take,
    .advance, .receive (.notification (.turnStarted "th" ⟨"n1", .other "inProgress", none⟩) true),
    .read, .deliver, .read, .read, .receive (.notification (.turnCompleted "th" ⟨"n1", .completed, none⟩) true),
    .read, .deliver, .read, .read]

/-- Two prompts, one after the other; the reader clears a settled turn before its `Submit` returns. -/
def settledPrompts : List Action :=
  settledPrompt "t1" ++ [.read, .read, .take, .advance] ++ settledPrompt "t2" ++ [.read, .read, .take, .advance]

theorem settled_prompt_belongs :
    (finalState (Endpoint.step · plainProvider) (.launched false "" "th" "gpt") settledPrompts).HasReturned 2 ∧
      Belongs (finalState (Endpoint.step · plainProvider) (.launched false "" "th" "gpt") settledPrompts) :=
  ⟨by unfold Endpoint.HasReturned; decide,
    registration_belongs plainProvider false "" "th" "gpt" (Run.start.inputs settledPrompts) (by decide)⟩

/-- The settled `Submit` returns and the next prompt begins its turn before the reader
clears the settled one. -/
def lateClear : List Action :=
  settledPrompt "t1" ++ [.take, .advance, .submit "t2", .advance, .advance, .advance, .advance, .read]

/-- The reader's clean-up for the settled turn clears the registration of the next. -/
theorem late_clear_unregisters :
    ¬Belongs (finalState (Endpoint.step · plainProvider) (.launched false "" "th" "gpt") lateClear) := by
  intro belongs
  have cleared : (finalState (Endpoint.step · plainProvider) (.launched false "" "th" "gpt") lateClear).registered = some "t2" ∧
      (finalState (Endpoint.step · plainProvider) (.launched false "" "th" "gpt") lateClear).state.machineTurnID ≠ "t2" := by
    decide
  exact cleared.2 (belongs.registered "t2" cleared.1)

end Pagnet.Codex
