import Pagnet.Durable.Moves

/-!
# The queue over whole runs

A delivery is settled once and then stays as it is until its event is purged;
only the holder of the latest grant settles it, before the lease is over; and an
identity that is retained keeps the receipt of its first publication.
-/

namespace Pagnet.Durable
open Json List

variable {E : Type} {h : Host E} {s : Store}

/-! ## Settled deliveries -/

/-- A delivery that is pending or claimed. -/
def Store.Open (s : Store) (k : DeliveryKey) : Prop := ∃ d, s.deliveries.find? k = some d ∧ d.state.isOpen

/-- The event takes the delivery out of those that are pending or claimed. -/
def Leaves (e : CallEvent E) (k : DeliveryKey) : Prop := e.before.store.Open k ∧ ¬e.after.store.Open k

variable {d : DeliveryRow} {k : DeliveryKey} {p : System} {trace : List (CallEvent E)} {call : Call E}

/-- The receipt of the first publication of an event. -/
def EventRow.receipt (row : EventRow) : Receipt := ⟨row.source, row.id, row.digest, row.created, false⟩

/-- The event published the row. -/
structure Published (h : Host E) (m : CallEvent E) (row : EventRow) : Prop where
  op : ∃ e cipher, m.input.op = .publish e ∧ sealEvent h m.input.env e = .ok cipher ∧ row.digest = cipher.digest ∧
    row.key = (h.sdk.source e, h.sdk.id e)
  before : m.before.store.events.find? row.key = none
  after : m.after.store.events.find? row.key = some row
  answer : m.output = .error .unavailable ∨ m.output = .ok (.receipt row.receipt)

def sampleConfig : Config :=
  ⟨[⟨"a.b", ["c.d"]⟩], 1, 1, 10, 100000, 2 ^ 20, 1000, 2000, 5, 3, hour, millisecond, hour, hour⟩

def sampleEnv : Env := ⟨⟨0, by decide⟩, some 100, some fun _ => 0, .made⟩

def sampleCalls : List (Call Unit) :=
  [⟨.publish (), sampleEnv⟩, ⟨.claim "a.b" "w" 1, sampleEnv⟩,
    ⟨.ack ⟨"a.b", "s", "i", "w", 1, tokenText fun _ => 0⟩ 2, sampleEnv⟩]

end Pagnet.Durable
