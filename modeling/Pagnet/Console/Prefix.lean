import Mathlib.Data.List.Nodup
import Mathlib.Data.List.Range
import Pagnet.Console.Session

/-!
# What a console session accepts

Whatever the network delivers and however the clocks go on: a side accepts a
prefix of what the other one sealed, data only after both confirmations, and
nothing after a failure. `Effect` is what one call does to a session.
-/

namespace Pagnet.Console
open List Function

variable {b : Bootstrap} {gcm : Bytes → Nat → FrameAAD → Bytes → Bytes} {role r : Role} {now : Int} {log : List Frame}
  {s s' : Session} {c : Call} {out : Output}

/-! ## One call -/

def Call.receives : Call → Bool
  | .openConfirmation _ _ | .openData _ _ => true
  | _ => false

/-- The session is neither closed nor expired. -/
def Bootstrap.Usable (b : Bootstrap) (now : Int) (s : Session) : Prop := s.closed = false ∧ b.valid now

/-- A session sealed the frame. -/
structure Frame.SealedAs (f : Frame) (key : Bytes) (role : Role) (seq : Nat) (plain : Bytes) : Prop where
  key : f.key = key
  nonce : f.nonce = seq
  direction : f.aad.direction = role
  plain : f.plain = plain

/-- Two sessions differ only in what `close` changes. -/
structure SameProgress (s s' : Session) : Prop where
  sentConfirm : s'.sentConfirm = s.sentConfirm
  receivedConfirm : s'.receivedConfirm = s.receivedConfirm
  sendSeq : s'.sendSeq = s.sendSeq
  receiveSeq : s'.receiveSeq = s.receiveSeq

inductive Effect (b : Bootstrap) (role : Role) (now : Int) (log : List Frame) (s : Session) :
    Call → Session → Output → Prop
  | refuses {c : Call} {err : String} (usable : b.Usable now s) (sending : c.receives = false) (goes_on : c ≠ .close) :
      Effect b role now log s c s (.refused err)
  | closes {c : Call} {s' : Session} {out : Output} (closed : s'.closed) (same : SameProgress s s')
      (silent : out.sealed? = none ∧ out.opened? = none) : Effect b role now log s c s' out
  | confirms {f : Frame} (usable : b.Usable now s) (unsent : s.sentConfirm = false)
      (sealed : f.SealedAs (s.keys role) role 0 (b.confirmation role)) :
      Effect b role now log s .sealConfirmation { s with sentConfirm := true, sendSeq := 1 } (.sealed f)
  | confirmed {seq : Nat} {ct : Bytes} {f : Frame} (usable : b.Usable now s) (unheard : s.receivedConfirm = false)
      (mem : f ∈ log) (nonce : f.nonce = 0) (direction : f.aad.direction = role.other)
      (plain : f.plain = b.confirmation role.other) :
      Effect b role now log s (.openConfirmation seq ct) { s with receivedConfirm := true, receiveSeq := 1 }
        (.confirmed f.plain)
  | seals {plain : Bytes} {f : Frame} (usable : b.Usable now s) (both : s.sentConfirm ∧ s.receivedConfirm)
      (sealed : f.SealedAs (s.keys role) role s.sendSeq plain) :
      Effect b role now log s (.sealData plain) { s with sendSeq := s.sendSeq + 1 } (.sealed f)
  | accepts {seq : Nat} {ct : Bytes} {f : Frame} (usable : b.Usable now s)
      (both : s.sentConfirm ∧ s.receivedConfirm) (mem : f ∈ log) (nonce : f.nonce = s.receiveSeq)
      (direction : f.aad.direction = role.other) :
      Effect b role now log s (.openData seq ct) { s with receiveSeq := s.receiveSeq + 1 } (.accepted f.plain)

variable {seq : Nat} {f : Frame} {key plain : Bytes} {r' : Role} {input : Action}

theorem frameAAD_ok {direction : Role} {aad : FrameAAD} (h : frameAAD b direction seq = .ok aad) :
    aad.direction = direction := by
  unfold frameAAD at h
  split at h
  · cases h
  · cases h
    rfl

theorem sealFrame_ok (h : sealFrame b gcm key role seq plain = .ok f) : f.SealedAs key role seq plain := by
  unfold sealFrame at h
  split at h
  · cases h
  next aad is =>
    split at h
    · cases h
    · cases h
      exact ⟨rfl, rfl, frameAAD_ok is, rfl⟩

theorem openFrame_ok {ct : Bytes} (h : openFrame b log key role seq ct = .ok plain) :
    ∃ f ∈ log, f.nonce = seq ∧ f.aad.direction = role ∧ f.plain = plain := by
  unfold openFrame at h
  split at h
  · cases h
  next aad is =>
    split at h
    · cases h
    · split at h
      · cases h
      next f found =>
        cases h
        obtain ⟨-, nonce, same, -⟩ : f.key = key ∧ f.nonce = seq ∧ f.aad = aad ∧ f.ciphertext = ct := by
          simpa using find?_some found
        exact ⟨f, mem_of_find?_eq_some found, nonce, same ▸ frameAAD_ok is, rfl⟩

theorem close_effect (err : String) : Effect b role now log s c s.close (.refused err) :=
  .closes rfl ⟨rfl, rfl, rfl, rfl⟩ ⟨rfl, rfl⟩

theorem sealConfirmation_effect (usable : b.Usable now s) :
    Effect b role now log s .sealConfirmation (s.sealConfirmation b gcm role).1 (s.sealConfirmation b gcm role).2 := by
  unfold Session.sealConfirmation
  split
  · exact .refuses usable rfl nofun
  next order =>
    split
    · exact .refuses usable rfl nofun
    next f is => exact .confirms usable (by simpa using fun sent => order (.inl sent)) (sealFrame_ok is)

theorem openConfirmation_effect (usable : b.Usable now s) (seq : Nat) (ct : Bytes) :
    Effect b role now log s (.openConfirmation seq ct) (s.openConfirmation b role log seq ct).1
      (s.openConfirmation b role log seq ct).2 := by
  unfold Session.openConfirmation
  split
  · exact close_effect _
  next order =>
    simp only [not_or, not_not] at order
    split
    · exact close_effect _
    next plain is =>
      split
      · exact close_effect _
      next equal =>
        obtain ⟨f, mem, nonce, direction, rfl⟩ := openFrame_ok is
        exact .confirmed usable (by simpa using order.2.1) mem (nonce.trans order.1) direction (not_not.1 equal)

theorem sealData_effect (usable : b.Usable now s) (plain : Bytes) :
    Effect b role now log s (.sealData plain) (s.sealData b gcm role plain).1 (s.sealData b gcm role plain).2 := by
  unfold Session.sealData
  split
  · exact .refuses usable rfl nofun
  next order =>
    split
    · exact .refuses usable rfl nofun
    next f is => exact .seals usable (by simpa using order) (sealFrame_ok is)

theorem openData_effect (usable : b.Usable now s) (seq : Nat) (ct : Bytes) :
    Effect b role now log s (.openData seq ct) (s.openData b role log seq ct).1 (s.openData b role log seq ct).2 := by
  unfold Session.openData
  split
  · exact close_effect _
  next order =>
    simp only [not_or, not_not, Bool.not_eq_false] at order
    split
    · exact close_effect _
    next plain is =>
      obtain ⟨f, mem, nonce, direction, rfl⟩ := openFrame_ok is
      exact .accepts usable ⟨order.1, order.2.1⟩ mem (nonce.trans order.2.2) direction

theorem call_effect (gcm : Bytes → Nat → FrameAAD → Bytes → Bytes) (s : Session) (c : Call) :
    Effect b role now log s c (s.call b gcm role log now c).1 (s.call b gcm role log now c).2 := by
  have checked : (s.closed ∧ s.check b now = (s, some "e2ee: console session closed")) ∨
      (∃ err, s.check b now = (s.close, some err)) ∨ b.Usable now s ∧ s.check b now = (s, none) := by
    unfold Session.check
    split
    · exact .inl ⟨‹_›, rfl⟩
    · split
      · exact .inr (.inr ⟨⟨by simpa using ‹¬ s.closed = true›, ‹_›⟩, rfl⟩)
      · exact .inr (.inl ⟨_, rfl⟩)
  cases c with
  | close => exact .closes rfl ⟨rfl, rfl, rfl, rfl⟩ ⟨rfl, rfl⟩
  | _ =>
    unfold Session.call
    rcases checked with ⟨closed, is⟩ | ⟨err, is⟩ | ⟨usable, is⟩
    · rw [is]
      exact .closes closed ⟨rfl, rfl, rfl, rfl⟩ ⟨rfl, rfl⟩
    · rw [is]
      exact close_effect err
    · rw [is]
      first
        | exact sealConfirmation_effect usable
        | exact openConfirmation_effect usable _ _
        | exact sealData_effect usable _
        | exact openData_effect usable _ _

section

variable (effect : Effect b role now log s c s' out)
include effect

/-- A call seals the next frame or none. -/
theorem Effect.sends (unsent : s.sentConfirm = false → s.sendSeq = 0) :
    out.sealed? = none ∧ s'.sendSeq = s.sendSeq ∨ ∃ f plain, out.sealed? = some f ∧ s'.sendSeq = s.sendSeq + 1 ∧
      b.Usable now s ∧ f.SealedAs (s.keys role) role s.sendSeq plain := by
  cases effect with
  | refuses => exact .inl ⟨rfl, rfl⟩
  | closes closed same silent => exact .inl ⟨silent.1, same.sendSeq⟩
  | confirms usable fresh sealed =>
    rw [unsent fresh]
    exact .inr ⟨_, _, rfl, rfl, usable, sealed⟩
  | confirmed => exact .inl ⟨rfl, rfl⟩
  | seals usable both sealed => exact .inr ⟨_, _, rfl, rfl, usable, sealed⟩
  | accepts => exact .inl ⟨rfl, rfl⟩

/-- A call opens the next frame of the other side or none. -/
theorem Effect.opens (unheard : s.receivedConfirm = false → s.receiveSeq = 0) :
    out.opened? = none ∧ s'.receiveSeq = s.receiveSeq ∨ ∃ f ∈ log, out.opened? = some f.plain ∧
      s'.receiveSeq = s.receiveSeq + 1 ∧ f.nonce = s.receiveSeq ∧ f.aad.direction = role.other := by
  cases effect with
  | refuses => exact .inl ⟨rfl, rfl⟩
  | closes closed same silent => exact .inl ⟨silent.2, same.receiveSeq⟩
  | confirms => exact .inl ⟨rfl, rfl⟩
  | confirmed usable fresh mem nonce direction plain =>
    rw [unheard fresh]
    exact .inr ⟨_, mem, rfl, rfl, nonce, direction⟩
  | seals => exact .inl ⟨rfl, rfl⟩
  | accepts usable both mem nonce direction => exact .inr ⟨_, mem, rfl, rfl, nonce, direction⟩

theorem Effect.fresh (unsent : s.sentConfirm = false → s.sendSeq = 0)
    (unheard : s.receivedConfirm = false → s.receiveSeq = 0) :
    (s'.sentConfirm = false → s'.sendSeq = 0) ∧ (s'.receivedConfirm = false → s'.receiveSeq = 0) := by
  cases effect with
  | refuses => exact ⟨unsent, unheard⟩
  | closes closed same silent =>
    rw [same.sentConfirm, same.sendSeq, same.receivedConfirm, same.receiveSeq]
    exact ⟨unsent, unheard⟩
  | confirms => exact ⟨nofun, unheard⟩
  | confirmed => exact ⟨unsent, nofun⟩
  | seals usable both => exact ⟨fun is => absurd (both.1.symm.trans is) nofun, unheard⟩
  | accepts usable both => exact ⟨unsent, fun is => absurd (both.2.symm.trans is) nofun⟩

theorem Effect.keeps_keys (keys : s.closed = false → s.keys = b.keys) : s'.closed = false → s'.keys = b.keys := by
  cases effect with
  | closes closed same silent => exact fun is => absurd (closed.symm.trans is) nofun
  | _ => exact keys

/-- Nothing is sealed or opened by a session that is closed or expired. -/
theorem Effect.silent (unusable : ¬ b.Usable now s) : s'.closed ∧ out.sealed? = none ∧ out.opened? = none := by
  cases effect with
  | closes closed same silent => exact ⟨closed, silent⟩
  | refuses usable | confirms usable | confirmed usable | seals usable | accepts usable =>
    exact absurd usable unusable

/-- A failed receive closes the session. -/
theorem Effect.ends (ends : c = .close ∨ c.receives ∧ out.opened? = none) : s'.closed := by
  cases effect with
  | closes closed same silent => exact closed
  | refuses usable sending goes_on =>
    rcases ends with is | ⟨is, -⟩
    · exact absurd is goes_on
    · cases sending.symm.trans is
  | confirms | seals => rcases ends with is | ⟨is, -⟩ <;> cases is
  | confirmed | accepts => rcases ends with is | ⟨-, is⟩ <;> cases is

/-- Data is sealed and accepted only after both confirmations. -/
theorem Effect.data
    (data : (∃ plain f, c = .sealData plain ∧ out = .sealed f) ∨ ∃ seq ct plain, c = .openData seq ct ∧ out = .accepted plain) :
    s.sentConfirm ∧ s.receivedConfirm := by
  cases effect with
  | seals usable both => exact both
  | accepts usable both => exact both
  | closes closed same silent =>
    rcases data with ⟨plain, f, -, rfl⟩ | ⟨seq, ct, plain, -, rfl⟩
    · cases silent.1
    · cases silent.2
  | refuses => rcases data with ⟨_, _, -, is⟩ | ⟨_, _, _, -, is⟩ <;> cases is
  | confirms | confirmed => rcases data with ⟨_, _, is, -⟩ | ⟨_, _, _, is, -⟩ <;> cases is

end

/-! ## Runs -/

abbrev Trace := List (Event System Action Output)

def Action.isBy (r : Role) : Action → Bool
  | .call r' _ => r' = r
  | .tick _ _ => false

/-- What the calls of one side put out. -/
def shown (f : Output → Option Bytes) (r : Role) (trace : Trace) : List Bytes :=
  (trace.filter (·.input.isBy r)).filterMap fun e => f e.output

/-- The plaintexts that a side sealed. -/
def sealedBy : Role → Trace → List Bytes := shown fun out => out.sealed?.map (·.plain)

/-- The plaintexts that a side accepted. -/
def openedBy : Role → Trace → List Bytes := shown Output.opened?

/-- The event sends a side's confirmation. -/
def Confirms (b : Bootstrap) (r : Role) (e : Event System Action Output) : Prop :=
  e.input = .call r .sealConfirmation ∧ ∃ f, e.output = .sealed f ∧ f.plain = b.confirmation r

/-- The event accepts the other side's confirmation. -/
def Hears (b : Bootstrap) (r : Role) (e : Event System Action Output) : Prop :=
  (∃ seq ct, e.input = .call r (.openConfirmation seq ct)) ∧ e.output = .confirmed (b.confirmation r.other)

def frames (r : Role) (log : List Frame) : List Frame := log.filter (·.aad.direction = r)

/-- How the sessions stand to what was sealed and accepted. -/
structure Ledger (b : Bootstrap) (trace : Trace) (p : System) : Prop where
  log : p.log = trace.filterMap (·.output.sealed?)
  unsent : ∀ r, (p.sessions r).sentConfirm = false → (p.sessions r).sendSeq = 0
  unheard : ∀ r, (p.sessions r).receivedConfirm = false → (p.sessions r).receiveSeq = 0
  keys : ∀ r, (p.sessions r).closed = false → (p.sessions r).keys = b.keys
  keyed : ∀ f ∈ p.log, f.key = b.keys f.aad.direction
  once : (p.log.map fun f => (f.key, f.nonce)).Nodup
  numbered : ∀ r, (frames r p.log).map (·.nonce) = List.range (p.sessions r).sendSeq
  sealed : ∀ r, sealedBy r trace = (frames r p.log).map (·.plain)
  behind : ∀ r, (p.sessions r).receiveSeq ≤ (frames r.other p.log).length
  opened : ∀ r, openedBy r trace = ((frames r.other p.log).take (p.sessions r).receiveSeq).map (·.plain)
  confirmed : ∀ r, (p.sessions r).sentConfirm → ∃ e ∈ trace, Confirms b r e
  heard : ∀ r, (p.sessions r).receivedConfirm → ∃ e ∈ trace, Hears b r e

theorem Role.ne_other (r : Role) : r ≠ r.other := by cases r <;> decide

/-- The frame with a given number stands at that place. -/
theorem getElem?_of_numbered {fs : List Frame} {n : Nat} (numbered : fs.map (·.nonce) = List.range n)
    (mem : f ∈ fs) : fs[f.nonce]? = some f := by
  obtain ⟨i, below, rfl⟩ := getElem_of_mem mem
  have at_i : (fs.map (·.nonce))[i]? = some fs[i].nonce := by simp [below]
  rw [numbered] at at_i
  obtain ⟨inside, is⟩ := List.getElem?_eq_some_iff.1 at_i
  rw [getElem_range] at is
  rw [← is, getElem?_eq_getElem below]

theorem shown_call (f : Output → Option Bytes) (trace : Trace) (p p' : System) (c : Call) (out : Output) :
    shown f r' (trace ++ [⟨p, .call r c, out, p'⟩]) = shown f r' trace ++ if r = r' then (f out).toList else [] := by
  unfold shown
  by_cases own : r = r'
  · cases is : f out <;> simp [Action.isBy, own, is]
  · simp [Action.isBy, own]

theorem frames_append (log : List Frame) {out : Option Frame} (sealed : ∀ f, out = some f → f.aad.direction = role) :
    frames r (log ++ out.toList) = frames r log ++ if role = r then out.toList else [] := by
  unfold frames
  cases out with
  | none => simp
  | some f => by_cases own : role = r <;> simp [sealed f rfl, own]

/-- The frame that a side waits for. -/
theorem Ledger.getElem?_of_next {trace : Trace} {p : System} (h : Ledger b trace p) (mem : f ∈ p.log)
    (nonce : f.nonce = (p.sessions r).receiveSeq) (direction : f.aad.direction = r.other) :
    (frames r.other p.log)[(p.sessions r).receiveSeq]? = some f := by
  rw [← nonce]
  exact getElem?_of_numbered (h.numbered r.other) (List.mem_filter.2 ⟨mem, decide_eq_true direction⟩)

theorem Bootstrap.keys_inj (b : Bootstrap) {r : Role} (same : b.keys r = b.keys r') : r = r' := by
  cases r <;> cases r'
  · rfl
  · exact absurd same b.distinct
  · exact absurd same.symm b.distinct
  · rfl

/-- The nonce of a new frame is new to its key. -/
theorem Ledger.once_sealed {trace : Trace} {p : System} (h : Ledger b trace p)
    (sealed : f.SealedAs (b.keys r) r (p.sessions r).sendSeq plain) :
    ((p.log ++ [f]).map fun f => (f.key, f.nonce)).Nodup := by
  rw [map_append]
  refine h.once.append (nodup_singleton _) fun pair old new => ?_
  obtain ⟨g, mem, is⟩ := mem_map.1 old
  obtain ⟨key, nonce⟩ := Prod.mk.inj (is.trans (mem_singleton.1 new))
  have direction : g.aad.direction = r := b.keys_inj ((h.keyed g mem).symm.trans (key.trans sealed.key))
  have below : g.nonce ∈ List.range (p.sessions r).sendSeq := by
    rw [← h.numbered r]
    exact mem_map_of_mem (List.mem_filter.2 ⟨mem, decide_eq_true direction⟩)
  rw [nonce, sealed.nonce, mem_range] at below
  exact Nat.lt_irrefl _ below

theorem Ledger.effect {trace : Trace} {p : System} (h : Ledger b trace p) {r : Role}
    (effect : Effect b r now p.log (p.sessions r) c s' out) :
    Ledger b (trace ++ [⟨p, .call r c, out, p.after r (s', out)⟩]) (p.after r (s', out)) := by
  have sends := effect.sends (h.unsent r)
  have opens := effect.opens (h.unheard r)
  have direction : ∀ f, out.sealed? = some f → f.aad.direction = r := by
    intro f is
    rcases sends with ⟨none, -⟩ | ⟨f', plain, some, -, -, sealed⟩
    · cases none.symm.trans is
    · cases some.symm.trans is
      exact sealed.direction
  have grown : ∀ r', frames r' (p.log ++ out.sealed?.toList) = _ := fun r' => frames_append (r := r') p.log direction
  -- the side that calls, and the other one
  have sides : ∀ {P : Role → Session → Prop}, P r s' → (∀ r', r ≠ r' → P r' (p.sessions r')) →
      ∀ r', P r' ((p.after r (s', out)).sessions r') := by
    intro P own others r'
    by_cases same : r = r'
    · rw [← same]
      show P r (update p.sessions r s' r)
      rw [update_self]
      exact own
    · show P r' (update p.sessions r s' r')
      rw [update_of_ne (Ne.symm same)]
      exact others r' same
  have known : ∀ {Q : Event System Action Output → Prop}, (∃ e ∈ trace, Q e) →
      ∃ e ∈ trace ++ [⟨p, .call r c, out, p.after r (s', out)⟩], Q e :=
    fun ⟨e, mem, is⟩ => ⟨e, mem_append_left _ mem, is⟩
  have now_is : ∀ {Q : Event System Action Output → Prop}, Q ⟨p, .call r c, out, p.after r (s', out)⟩ →
      ∃ e ∈ trace ++ [⟨p, .call r c, out, p.after r (s', out)⟩], Q e :=
    fun is => ⟨_, mem_append_right _ (mem_singleton_self _), is⟩
  refine
    { log := ?_
      unsent := sides (P := fun _ s => s.sentConfirm = false → s.sendSeq = 0) ?_ fun r' _ => h.unsent r'
      unheard := sides (P := fun _ s => s.receivedConfirm = false → s.receiveSeq = 0) ?_ fun r' _ => h.unheard r'
      keys := sides (P := fun _ s => s.closed = false → s.keys = b.keys) ?_ fun r' _ => h.keys r'
      keyed := ?_
      once := ?_
      numbered := sides (P := fun r' s => (frames r' (p.log ++ out.sealed?.toList)).map (·.nonce) = List.range s.sendSeq)
        ?_ fun r' other => ?_
      sealed := fun r' => ?_
      behind := sides (P := fun r' s => s.receiveSeq ≤ (frames r'.other (p.log ++ out.sealed?.toList)).length)
        ?_ fun r' other => ?_
      opened := sides (P := fun r' s => openedBy r' _ = ((frames r'.other (p.log ++ out.sealed?.toList)).take
        s.receiveSeq).map (·.plain)) ?_ fun r' other => ?_
      confirmed := sides (P := fun r' s => s.sentConfirm → ∃ e ∈ _, Confirms b r' e) ?_
        fun r' _ is => known (h.confirmed r' is)
      heard := sides (P := fun r' s => s.receivedConfirm → ∃ e ∈ _, Hears b r' e) ?_
        fun r' _ is => known (h.heard r' is) }
  · show p.log ++ out.sealed?.toList = _
    rw [filterMap_append, ← h.log]
    cases is : out.sealed? <;> simp [is]
  · exact (effect.fresh (h.unsent r) (h.unheard r)).1
  · exact (effect.fresh (h.unsent r) (h.unheard r)).2
  · exact effect.keeps_keys (h.keys r)
  · intro f mem
    rcases mem_append.1 mem with old | new
    · exact h.keyed f old
    · rw [Option.mem_toList] at new
      rcases sends with ⟨none, -⟩ | ⟨f', plain, some, -, usable, sealed⟩
      · cases none.symm.trans new
      · cases some.symm.trans new
        rw [sealed.key, sealed.direction, h.keys r usable.1]
  · show ((p.log ++ out.sealed?.toList).map _).Nodup
    rcases sends with ⟨none, -⟩ | ⟨f, plain, some, -, usable, sealed⟩
    · rw [none]
      exact (append_nil p.log).symm ▸ h.once
    · rw [some]
      exact h.once_sealed (h.keys r usable.1 ▸ sealed)
  · rw [grown, if_pos rfl, map_append, h.numbered]
    rcases sends with ⟨none, seq⟩ | ⟨f, plain, some, seq, -, sealed⟩
    · rw [none, seq]
      exact append_nil _
    · rw [some, seq, range_succ, ← sealed.nonce]
      rfl
  · rw [grown, if_neg other, append_nil]
    exact h.numbered r'
  · show shown _ r' _ = (frames r' (p.log ++ out.sealed?.toList)).map _
    rw [shown_call, grown, map_append, ← h.sealed r']
    refine congrArg _ ?_
    split
    · cases out.sealed? <;> rfl
    · rfl
  · rw [grown, if_neg r.ne_other, append_nil]
    rcases opens with ⟨-, seq⟩ | ⟨f, mem, -, seq, nonce, direction⟩
    · rw [seq]
      exact h.behind r
    · have at_next := h.getElem?_of_next mem nonce direction
      rw [seq]
      exact (List.getElem?_eq_some_iff.1 at_next).1
  · rw [grown, length_append]
    exact Nat.le_add_right_of_le (h.behind r')
  · rw [grown, if_neg r.ne_other, append_nil]
    show shown _ r _ = _
    rw [shown_call, if_pos rfl]
    refine (congrArg (· ++ _) (h.opened r)).trans ?_
    rcases opens with ⟨none, seq⟩ | ⟨f, mem, some, seq, nonce, direction⟩
    · rw [none, seq]
      exact append_nil _
    · rw [some, seq, take_add_one, h.getElem?_of_next mem nonce direction, map_append]
      rfl
  · show shown _ r' _ = _
    rw [shown_call, if_neg other, append_nil, grown, take_append_of_le_length (h.behind r')]
    exact h.opened r'
  · intro is
    cases effect with
    | confirms usable fresh sealed => exact now_is ⟨rfl, _, rfl, sealed.plain⟩
    | closes closed same silent => exact known (h.confirmed r (same.sentConfirm ▸ is))
    | _ => exact known (h.confirmed r is)
  · intro is
    cases effect with
    | confirmed usable fresh mem nonce direction plain => exact now_is ⟨⟨_, _, rfl⟩, congrArg _ plain⟩
    | closes closed same silent => exact known (h.heard r (same.receivedConfirm ▸ is))
    | _ => exact known (h.heard r is)

theorem ledger_initial (clock : Role → Int) : Ledger b [] (.initial b clock) where
  log := rfl
  unsent _ _ := rfl
  unheard _ _ := rfl
  keys _ _ := rfl
  keyed := nofun
  once := .nil
  numbered _ := rfl
  sealed _ := rfl
  behind _ := Nat.zero_le _
  opened _ := rfl
  confirmed := nofun
  heard := nofun

variable {clock : Role → Int} {trace : Trace} {p : System}

theorem ledger_reached (run : Run (System.step b gcm) (.initial b clock) trace p) : Ledger b trace p := by
  refine run.history (P := Ledger b) (ledger_initial clock) fun trace p action h => ?_
  cases action with
  | call r c => exact h.effect (call_effect gcm (p.sessions r) c)
  | tick r seconds =>
    have same : ∀ f r', shown f r' (trace ++ [Event.of (System.step b gcm) p (.tick r seconds)]) = shown f r' trace := by
      intro f r'
      simp [shown, Action.isBy]
    have known : ∀ {Q : Event System Action Output → Prop}, (∃ e ∈ trace, Q e) →
        ∃ e ∈ trace ++ [Event.of (System.step b gcm) p (.tick r seconds)], Q e :=
      fun ⟨e, mem, is⟩ => ⟨e, mem_append_left _ mem, is⟩
    exact { h with
      log := by rw [filterMap_append, ← h.log]; exact (append_nil _).symm
      sealed := fun r' => (same _ r').trans (h.sealed r')
      opened := fun r' => (same _ r').trans (h.opened r')
      confirmed := fun r' is => known (h.confirmed r' is)
      heard := fun r' is => known (h.heard r' is) }

/-! ## The end of a session -/

/-- The session of a side is closed, or its time is over. -/
def System.Over (b : Bootstrap) (p : System) (r : Role) : Prop :=
  (p.sessions r).closed ∨ (b.expiresAtUnixSeconds : Int) ≤ p.clock r

theorem System.Over.unusable (ended : p.Over b r) : ¬ b.Usable (p.clock r) (p.sessions r) := by
  rintro ⟨is_open, valid⟩
  rcases ended with closed | late
  · cases closed.symm.trans is_open
  · unfold Bootstrap.valid at valid
    simp at valid
    omega

/-- A session that is over stays so, and seals and opens nothing. -/
theorem System.Over.step (ended : p.Over b r) (action : Action) :
    (p.step b gcm action).1.Over b r ∧ (action.isBy r →
      (p.step b gcm action).2.sealed? = none ∧ (p.step b gcm action).2.opened? = none) := by
  cases action with
  | tick r' seconds =>
    refine ⟨ended.imp_right fun late => ?_, nofun⟩
    show _ ≤ update p.clock r' (p.clock r' + seconds) r
    rcases eq_or_ne r r' with rfl | own
    · rw [update_self]
      omega
    · rw [update_of_ne own]
      exact late
  | call r' c =>
    rcases eq_or_ne r' r with rfl | own
    · obtain ⟨closed, silent⟩ := (call_effect gcm (p.sessions r') c).silent ended.unusable
      refine ⟨.inl ?_, fun _ => silent⟩
      show (update p.sessions r' _ r').closed
      rw [update_self]
      exact closed
    · refine ⟨?_, fun is => absurd (of_decide_eq_true is) own⟩
      show (update p.sessions r' _ r).closed ∨ _
      rw [update_of_ne (Ne.symm own)]
      exact ended

/-! ## What is delivered -/

/-- The event seals or accepts data. -/
def CarriesData (r : Role) (e : Event System Action Output) : Prop :=
  (∃ plain f, e.input = .call r (.sealData plain) ∧ e.output = .sealed f) ∨
    ∃ seq ct plain, e.input = .call r (.openData seq ct) ∧ e.output = .accepted plain

/-- The event ends the session of a side: a receive fails, the session is closed, or its time is over. -/
def Ends (b : Bootstrap) (r : Role) (e : Event System Action Output) : Prop :=
  (∃ c, e.input = .call r c ∧ (c = .close ∨ c.receives ∧ e.output.opened? = none)) ∨
    (b.expiresAtUnixSeconds : Int) ≤ e.after.clock r

structure Delivers (b : Bootstrap) (trace : Trace) : Prop where
  in_order : ∀ r, openedBy r trace <+: sealedBy r.other trace
  confirmed : ∀ front e back, trace = front ++ e :: back → ∀ r, CarriesData r e →
    (∃ e' ∈ front, Confirms b r e') ∧ ∃ e' ∈ front, Hears b r e'
  once : ((trace.filterMap (·.output.sealed?)).map fun f => (f.key, f.nonce)).Nodup
  silent : ∀ front e back, trace = front ++ e :: back → ∀ r, Ends b r e → ∀ e' ∈ back, e'.input.isBy r →
    e'.output.sealed? = none ∧ e'.output.opened? = none

theorem confirmed_of_data {r : Role} (data : CarriesData r (Event.of (System.step b gcm) p input)) :
    (p.sessions r).sentConfirm ∧ (p.sessions r).receivedConfirm := by
  rcases data with ⟨plain, f, is, out⟩ | ⟨seq, ct, plain, is, out⟩
  · obtain rfl : input = _ := is
    exact (call_effect gcm (p.sessions r) (.sealData plain)).data (.inl ⟨plain, f, rfl, out⟩)
  · obtain rfl : input = _ := is
    exact (call_effect gcm (p.sessions r) (.openData seq ct)).data (.inr ⟨seq, ct, plain, rfl, out⟩)

theorem over_of_ends {r : Role} (ends : Ends b r (Event.of (System.step b gcm) p input)) :
    (p.step b gcm input).1.Over b r := by
  rcases ends with ⟨c, is, ends⟩ | late
  · obtain rfl : input = _ := is
    left
    show (update p.sessions r _ r).closed
    rw [update_self]
    exact (call_effect gcm (p.sessions r) c).ends ends
  · exact .inr late

/-- The two sessions of a bootstrap, on any network. -/
theorem console_delivers (run : Run (System.step b gcm) (.initial b clock) trace p) : Delivers b trace where
  in_order r := by
    have ledger := ledger_reached run
    rw [ledger.opened r, ledger.sealed r.other]
    exact (List.take_prefix _ _).map _
  confirmed front e back whole r data := by
    obtain ⟨first, is, -⟩ := (whole ▸ run).place
    rw [is] at data
    obtain ⟨sent, received⟩ := confirmed_of_data data
    exact ⟨(ledger_reached first).confirmed r sent, (ledger_reached first).heard r received⟩
  once := by
    rw [← (ledger_reached run).log]
    exact (ledger_reached run).once
  silent front e back whole r ends e' mem own := by
    obtain ⟨-, is, rest⟩ := (whole ▸ run).place
    rw [is] at ends
    have ended : e.after.Over b r := by
      rw [is]
      exact over_of_ends ends
    obtain ⟨⟨earlier, before⟩, is'⟩ := rest.event mem
    have later : e'.before.Over b r := before.invariant (P := (·.Over b r)) ended fun p action ended => (ended.step action).1
    rw [is']
    exact (later.step e'.input).2 own

def sampleBootstrap : Bootstrap where
  descriptorHash := []
  issuedAtUnixSeconds := 0
  expiresAtUnixSeconds := 100
  transcriptHash := "t"
  keys
    | .client => List.replicate 32 0
    | .host => List.replicate 32 1
  distinct := by decide

def sampleGcm : Bytes → Nat → FrameAAD → Bytes → Bytes := fun _ _ _ plain => plain ++ List.replicate 16 0

/-- Both confirmations, and one frame of data from the client. -/
def sampleActions : List Action :=
  let ct role := sampleBootstrap.confirmation role ++ List.replicate 16 0
  [.call .client .sealConfirmation, .call .host (.openConfirmation 0 (ct .client)), .call .host .sealConfirmation,
    .call .client (.openConfirmation 0 (ct .host)), .call .client (.sealData [7]),
    .call .host (.openData 1 (7 :: List.replicate 16 0)), .tick .client 100]

theorem console_delivers_sample :
    Delivers sampleBootstrap (traceOf (System.step sampleBootstrap sampleGcm) (.initial sampleBootstrap fun _ => 1)
      sampleActions) ∧
    openedBy .host (traceOf (System.step sampleBootstrap sampleGcm) (.initial sampleBootstrap fun _ => 1) sampleActions) =
      [sampleBootstrap.confirmation .client, [7]] :=
  ⟨console_delivers (Run.start.inputs sampleActions), by decide +kernel⟩

end Pagnet.Console
