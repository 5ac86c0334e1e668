import Pagnet.SessionWorker.Forward

/-!
# Executed admissions

What it means that an admission answered `execute`: it took the sequence at the
cursor, and with a dispatch the ordinal behind the last one, and both are in the
tables from then on.
-/

namespace Pagnet.SessionWorker
open Json

abbrev JournalEvent := Event Journal Op (Except Error Reply)

/-- The call and the outcome of an event that told the caller to execute. -/
def executed : JournalEvent → Option (AdmitCall × Outcome)
  | ⟨_, .admission call, .ok (.admission out true), _⟩ => some (call, out)
  | _ => none

/-- The intent sequence an event executed. -/
def executedSequence (e : JournalEvent) : Option Int := (executed e).map (·.2.sequence)

/-- The server's dispatch sequence an event executed. -/
def executedOrdinal (e : JournalEvent) : Option Int :=
  (executed e).bind fun (call, _) => call.dispatch.map (·.dispatchSequence)

variable {c : Context} {j j' : Journal}

/-- The digest a call is recorded under. -/
def AdmitCall.digest (c : Context) (call : AdmitCall) : Option String :=
  (parse call.payload).map (intentDigest c call.kind)

variable {call : AdmitCall} {out : Outcome}

theorem executed_step {op : Op} (h : executed (Event.of (step c) j op) = some (call, out)) :
    op = .admission call ∧ admitDispatch c j call = .ok ((step c j op).1, out, true) := by
  unfold executed at h
  split at h
  case h_1 before call' out' after same =>
    cases h
    obtain ⟨rfl, rfl, output, rfl⟩ := Event.mk.inj same
    obtain ⟨⟨j₁, out₁, execute⟩, admitted, rest⟩ := of_bind (step_eq_ok output)
    refine ⟨rfl, ?_⟩
    cases hstep : step c j (.admission call) with
    | mk after answer =>
      rw [hstep] at rest
      cases rest
      exact admitted
  case h_2 => cases h

/-- The dispatch of an executed call. -/
structure ExecutedDispatch (j j' : Journal) (out : Outcome) (p : NativeDispatchProof) (m m' : DispatchMeta) : Prop where
  before : j.dispatchMeta = some m
  after : j'.dispatchMeta = some m'
  ownership : m'.ownership = m.ownership
  floor : m'.retired = m.retired
  above : m.retired < p.dispatchSequence
  next_eq : p.dispatchSequence = m.lastSequence + 1
  last : p.dispatchSequence ≤ m'.lastSequence
  unfenced : fenced j p = false
  row : ∃ d ∈ j'.dispatches, d.dispatchSequence = p.dispatchSequence ∧ d.operationSequence = out.sequence ∧ d.proof = p

/-- An executed call, from the journal before to the journal after it. -/
structure Executed (c : Context) (j j' : Journal) (call : AdmitCall) (out : Outcome) : Prop where
  sequence : out.sequence = j.nextSequence
  cursor : j'.nextSequence = j.nextSequence + 1
  floor : j'.retired = j.retired
  cancellations : j'.cancellations = j.cancellations
  identity : out.commandID = call.commandID ∧ out.kind = call.kind
  row : ∃ row ∈ j'.intents, row.sequence = out.sequence ∧ row.commandID = call.commandID ∧ row.kind = call.kind ∧
    call.digest c = some row.digest
  admission : (j'.admissions.find? out.sequence).map (·.admission) = out.sourceAdmission
  dispatch : ∀ p, call.dispatch = some p → ∃ m m', ExecutedDispatch j j' out p m m'

theorem admitDispatch_executed (inv : Inv c j)
    (h : admitDispatch c j call = .ok (j', out, true)) : Executed c j j' call out := by
  obtain ⟨-, -, payload, j₁, sequence, fresh, parsed, allocated, -, outcome⟩ := admitDispatch_ok h
  rcases outcome with ⟨absurd_, -⟩ | ⟨-, new⟩
  · cases absurd_
  obtain ⟨at_cursor, -, -, -, admission, -, recorded, rfl⟩ := admitNew_ok new
  have frame := admitSequence_frame allocated
  obtain ⟨-, reservations, intents, viewCommits, admissions, -, inserted, stored, rfl⟩ := recordIntent_ok recorded
  obtain ⟨dispatches, dispatchMeta, rfl⟩ := frame
  obtain ⟨-, members, -⟩ := Table.insert_eq_some inserted
  change sequence = j.nextSequence at at_cursor
  subst at_cursor
  refine ⟨rfl, rfl, rfl, rfl, ⟨rfl, rfl⟩, ⟨_, (members _).2 (.inl rfl), rfl, rfl, rfl, ?_⟩, ?_, fun p given => ?_⟩
  · simp [AdmitCall.digest, parsed, newIntentRow]
  · -- no older admission stands at the cursor
    have none_there : j.admissions.find? j.nextSequence = none :=
      Table.find?_eq_none.2 fun row mem => ne_of_lt (inv.intents.admissions row mem)
    rcases stored with ⟨rfl, rfl⟩ | ⟨a, rfl, stored⟩
    · simp [none_there]
    · have found : admissions.find? j.nextSequence = some ⟨j.nextSequence, a⟩ := Table.find?_insert_self stored
      simp [found]
  · rcases admitSequence_ok allocated with ⟨absent, -⟩ | ⟨p', given', prepared⟩
    · rw [absent] at given
      cases given
    cases given.symm.trans given'
    obtain ⟨-, unfenced, m, bound, -, above, found⟩ := prepareDispatchTx_ok prepared
    rcases found with ⟨d, found, -, -, -, at_cursor, -⟩ | ⟨next_eq, -, -, -, -, rows, dispatched, same⟩
    · have operation := ((inv.ordinals.bound m bound).rows d (Table.find?_eq_some.1 found).1).operation.2
      omega
    · have tables := congrArg Journal.dispatches same
      have pinned := congrArg Journal.dispatchMeta same
      refine ⟨m, _, bound, pinned, rfl, rfl, above, next_eq, le_climb _ _ _, unfenced, Ordinals.admittedRow call j.nextSequence p, ?_,
        rfl, rfl, rfl⟩
      change dispatches = rows at tables
      simp only [kindedDispatches, given, Option.isSome_some, if_true, tables]
      exact ((inv.ordinals.bound m bound).mem_kinded dispatched).2 (.inl rfl)

end Pagnet.SessionWorker
