import SchemaHistory.Log.Basic
import SchemaHistory.Collections

/-!
# Waiting for an acknowledgment

An append leaves a slot in which the log will put its answer. One party holds the right to
fill the slot and uses it at most once: by completing it, or by giving it up, which leaves
the answer that the client is closed. Whoever waits looks at the slot again and again.
An answer that is there wins; without one a raised shutdown signal ends the wait.
-/

namespace SchemaHistory

/-- Why a wait ended without an acknowledgment. -/
inductive DeliveryError
  | interrupted
  /-- The log refused. -/
  | failed (error : BrokerError)
  deriving DecidableEq

/-- The wording of a failed wait. -/
def DeliveryError.message : DeliveryError → String
  | interrupted => "interrupted while waiting for acknowledgment"
  | failed e => "delivery failed: " ++ e.message

namespace Delivery

/-- One look at the slot; without an answer and without a signal the wait goes on. -/
def check (slot : Option Ack) (raised : Bool) : Option (Except DeliveryError Placement) :=
  match slot with
  | some (.ok p) => some (.ok p)
  | some (.error e) => some (.error (.failed e))
  | none => if raised then some (.error .interrupted) else none

/-- One acknowledgment on its way: its slot, and what can still happen to it. -/
structure State where
  /-- The answer, once it has come and until the waiter has taken it. -/
  slot : Option Ack
  /-- Somebody still holds the right to fill the slot. -/
  held : Bool
  raised : Bool
  /-- What the wait returned, once it has. -/
  returned : Option (Except DeliveryError Placement)

/-- What the parties do, in the order in which it happens. -/
inductive Step
  /-- The slot is filled with an answer. -/
  | complete (ack : Ack)
  /-- The right to fill the slot is given up. -/
  | abandon
  | raise
  /-- The waiter looks at the slot and at the signal. -/
  | look

/-- An acknowledgment that has just been asked for. -/
def State.pending (raised : Bool) : State := ⟨none, true, raised, none⟩

/-- An acknowledgment that was there from the start. -/
def State.resolved (ack : Ack) (raised : Bool) : State := ⟨some ack, false, raised, none⟩

/-- Fills the slot with the one right there is. -/
def State.fill (s : State) (ack : Ack) : State :=
  if s.held then { s with slot := some ack, held := false } else s

/-- The state after one step. A wait that has returned looks no more. -/
def State.step (s : State) : Step → State
  | .complete ack => s.fill ack
  | .abandon => s.fill (.error .closed)
  | .raise => { s with raised := true }
  | .look =>
    if s.returned.isSome then s
    else
      match check s.slot s.raised with
      | some r => { s with slot := none, returned := some r }
      | none => s

/-- The state after some steps. -/
def State.run (s : State) (steps : List Step) : State := steps.foldl State.step s

end Delivery

/-- The number under which a log keeps the slot of an append. -/
abbrev Ticket := Nat

/-- The slots of all appends to a log. -/
abbrev Deliveries := Registry (Option Ack)

namespace Deliveries

/-- The ticket that the next append gets. -/
def next (d : Deliveries) : Ticket := d.size

/-- Adds a slot without an answer. -/
def expect (d : Deliveries) : Deliveries := d.add none

/-- Adds a slot with its answer. -/
def resolve (d : Deliveries) (ack : Ack) : Deliveries := d.add (some ack)

/-- Puts an answer into a slot. -/
def fill (d : Deliveries) (t : Ticket) (ack : Ack) : Deliveries := d.set t (some ack)

/-- Puts an answer into each of some slots. -/
def fillAll (d : Deliveries) (acks : List (Ticket × Ack)) : Deliveries :=
  acks.foldl (fun d a => d.fill a.1 a.2) d

/-- The answer in a slot. -/
def answer? (d : Deliveries) (t : Ticket) : Option Ack := (d.get? t).join

end Deliveries

end SchemaHistory
