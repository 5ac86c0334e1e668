import Pagnet.Data.Run
import Pagnet.SessionWorker.Settlement

/-!
# Runs of the worker journal

The operations a controller or the worker's own loop may call, in any order and
with any arguments. The journal's mutex makes each of them one step. A refused
operation rolls its transaction back, so it leaves the tables as they were; a
crash loses nothing that was committed, and the next `Open` is the step `reopen`.
-/

namespace Pagnet.SessionWorker
open Json

inductive Op where
  | advanceLease
  | bindOwnership (lease : Int) (o : NativeWorkerOwnership) (runtime profileFingerprint : String)
  | admission (call : AdmitCall)
  | settle (sequence : Int) (state : String) (result : Text)
  | acknowledge (lease sequence : Int)
  /-- The identities are the ones `domain.NewID` draws in this call. -/
  | prepareCancellation (lease : Int) (requestID preparationID : String) (proposal : CancellationProposal)
  | finalizeCancellation (lease : Int) (response : CancelledPayload)
  | retireDispatches (lease floor : Int)
  | reopen

/-- What an accepted operation returns. -/
inductive Reply where
  | done
  | leased (lease : Int)
  | admission (outcome : Outcome) (execute : Bool)
  | prepared (record : CancellationPreparation)

/-- The lease an operation is called with, if it takes one. -/
def Op.lease? : Op → Option Int
  | .bindOwnership lease _ _ _ => some lease
  | .admission call => some call.lease
  | .acknowledge lease _ => some lease
  | .prepareCancellation lease _ _ _ => some lease
  | .finalizeCancellation lease _ => some lease
  | .retireDispatches lease _ => some lease
  | _ => none

/-- The tables an operation commits and its reply, or its error. -/
def apply (c : Context) (j : Journal) : Op → Except Error (Journal × Reply)
  | .advanceLease => do
    let (j, lease) ← SessionWorker.advanceLease j
    return (j, .leased lease)
  | .bindOwnership lease o runtime profileFingerprint => do
    return (← bindDispatchOwnership c j lease o runtime profileFingerprint, .done)
  | .admission call => do
    let (j, outcome, execute) ← admitDispatch c j call
    return (j, .admission outcome execute)
  | .settle sequence state result => return (← SessionWorker.settle j sequence state result, .done)
  | .acknowledge lease sequence => return (← SessionWorker.acknowledge j lease sequence, .done)
  | .prepareCancellation lease requestID preparationID proposal => do
    let (j, record) ← prepareDispatchCancellation c j lease requestID preparationID proposal
    return (j, .prepared record)
  | .finalizeCancellation lease response => return (← finalizeDispatchCancellation c j lease response, .done)
  | .retireDispatches lease floor => return (← SessionWorker.retireDispatches j lease floor, .done)
  | .reopen => return (← SessionWorker.reopen c j, .done)

/-- The accepted operations, by the function that made each. -/
inductive Applied (c : Context) (j : Journal) : Op → Journal → Reply → Prop where
  | advanceLease {j' : Journal} {lease : Int} (advanced : SessionWorker.advanceLease j = .ok (j', lease)) :
      Applied c j .advanceLease j' (.leased lease)
  | bindOwnership {j' : Journal} {lease : Int} {o : NativeWorkerOwnership} {runtime profileFingerprint : String}
      (bound : bindDispatchOwnership c j lease o runtime profileFingerprint = .ok j') :
      Applied c j (.bindOwnership lease o runtime profileFingerprint) j' .done
  | admission {j' : Journal} {call : AdmitCall} {outcome : Outcome} {execute : Bool}
      (admitted : admitDispatch c j call = .ok (j', outcome, execute)) :
      Applied c j (.admission call) j' (.admission outcome execute)
  | settle {j' : Journal} {sequence : Int} {state : String} {result : Text}
      (settled : SessionWorker.settle j sequence state result = .ok j') :
      Applied c j (.settle sequence state result) j' .done
  | acknowledge {j' : Journal} {lease sequence : Int}
      (acknowledged : SessionWorker.acknowledge j lease sequence = .ok j') :
      Applied c j (.acknowledge lease sequence) j' .done
  | prepareCancellation {j' : Journal} {lease : Int} {requestID preparationID : String} {proposal : CancellationProposal}
      {record : CancellationPreparation}
      (prepared : prepareDispatchCancellation c j lease requestID preparationID proposal = .ok (j', record)) :
      Applied c j (.prepareCancellation lease requestID preparationID proposal) j' (.prepared record)
  | finalizeCancellation {j' : Journal} {lease : Int} {response : CancelledPayload}
      (finalized : finalizeDispatchCancellation c j lease response = .ok j') :
      Applied c j (.finalizeCancellation lease response) j' .done
  | retireDispatches {j' : Journal} {lease floor : Int}
      (retired : SessionWorker.retireDispatches j lease floor = .ok j') :
      Applied c j (.retireDispatches lease floor) j' .done
  | reopen {j' : Journal} (opened : SessionWorker.reopen c j = .ok j') : Applied c j .reopen j' .done

variable {c : Context} {j j' : Journal} {op : Op} {reply : Reply}

theorem apply_applied (h : apply c j op = .ok (j', reply)) : Applied c j op j' reply := by
  cases op <;> obtain ⟨_, accepted, h⟩ := of_bind h <;> cases h
  case advanceLease => exact .advanceLease accepted
  case bindOwnership => exact .bindOwnership accepted
  case admission => exact .admission accepted
  case settle => exact .settle accepted
  case acknowledge => exact .acknowledge accepted
  case prepareCancellation => exact .prepareCancellation accepted
  case finalizeCancellation => exact .finalizeCancellation accepted
  case retireDispatches => exact .retireDispatches accepted
  case reopen => exact .reopen accepted

/-- Only the current lease may call an operation that takes one. -/
theorem Applied.lease (h : Applied c j op j' reply) {l : Int} (given : op.lease? = some l) : j.lease = l := by
  cases h with
  | advanceLease => cases given
  | bindOwnership bound => cases given; exact (bindDispatchOwnership_ok bound).1.2
  | admission admitted => cases given; exact (admitDispatch_ok admitted).2.1.2
  | settle => cases given
  | acknowledge acknowledged => cases given; exact (acknowledge_ok acknowledged).1.2
  | prepareCancellation prepared => cases given; exact (prepareDispatchCancellation_ok prepared).2.1.2
  | finalizeCancellation finalized => cases given; exact (finalizeDispatchCancellation_ok finalized).1.2
  | retireDispatches retired => cases given; exact (retireDispatches_ok retired).1.2
  | reopen => cases given

/-- A step of the journal. -/
def step (c : Context) (j : Journal) (op : Op) : Journal × Except Error Reply :=
  match apply c j op with
  | .ok (j', reply) => (j', .ok reply)
  | .error e => (j, .error e)

/-- The runs of a worker from an empty cloud journal. -/
abbrev Reached (c : Context) (trace : List (Event Journal Op (Except Error Reply))) (j : Journal) : Prop :=
  Run (step c) Journal.initial trace j

theorem step_of_error {e : Error} (h : apply c j op = .error e) : step c j op = (j, .error e) := by
  simp [step, h]

/-- A step that answers was an accepted operation. -/
theorem step_eq_ok (h : (step c j op).2 = .ok reply) : apply c j op = .ok ((step c j op).1, reply) := by
  unfold step at h ⊢
  split at h
  case h_1 j' reply' accepted => cases h; simp [accepted]
  case h_2 => cases h

/-- To keep a property in every step, keep it in every accepted operation. -/
theorem step_keeps {inv : Journal → Prop} (before : inv j)
    (keeps : ∀ j' reply, apply c j op = .ok (j', reply) → inv j') : inv (step c j op).1 := by
  unfold step
  split
  case h_1 j' reply accepted => exact keeps j' reply accepted
  case h_2 => exact before

end Pagnet.SessionWorker
