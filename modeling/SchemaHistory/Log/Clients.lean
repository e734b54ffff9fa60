import SchemaHistory.Log.Delivery
import SchemaHistory.Settings.Client

/-!
# What a history needs of a log

A history reaches a log through producers and consumers only. Their operations are
functions on the state of the log, so any state with such functions can stand for a log:
one in memory, one in files, or one whose answers were written down beforehand. Around
the log there are shutdown signals, and other parties that may act while a call waits.
-/

namespace SchemaHistory

/-- The number of a producer of a log. -/
abbrev ProducerId := Nat

/-- The number of a consumer of a log. -/
abbrev ConsumerId := Nat

/-- The number of a shutdown signal. -/
abbrev SignalId := Nat

/-- The operations on producers and consumers, on states `σ` of a log. -/
structure LogClients (σ : Type) where
  createProducer : ClientSettings → σ → Except BrokerError ProducerId × σ
  /-- Hands over an append; the ticket names the slot of its answer. -/
  send : ProducerId → AppendRequest → σ → Except BrokerError Ticket × σ
  /-- Pushes out what a producer holds back. -/
  flush : ProducerId → σ → Except BrokerError Unit × σ
  closeProducer : ProducerId → σ → Except BrokerError Unit × σ
  /-- Lets go of a producer, closed or not. -/
  dropProducer : ProducerId → σ → σ
  /-- The answer to an append, if it has come. -/
  answer? : Ticket → σ → Option Ack
  createConsumer : ClientSettings → σ → Except BrokerError ConsumerId × σ
  /-- Sets the topics that a consumer reads. -/
  subscribe : ConsumerId → List String → σ → Except BrokerError Unit × σ
  /-- Asks for entries behind those a consumer has had, and waits for some milliseconds. -/
  poll : ConsumerId → Nat → σ → Except BrokerError (List Entry) × σ
  closeConsumer : ConsumerId → σ → Except BrokerError Unit × σ
  /-- Lets go of a consumer, closed or not. -/
  dropConsumer : ConsumerId → σ → σ

/-- A log with what is around it. -/
structure Host (τ : Type) extends LogClients τ where
  raised : SignalId → τ → Bool
  /-- What others do while a call waits. -/
  idle : τ → τ

/-- A log and the shutdown signals. -/
structure World (σ : Type) where
  log : σ
  /-- The signals, each raised or not. -/
  signals : Registry Bool

namespace World

variable {σ : Type}

/-- A log before any signal was made. -/
def ofLog (log : σ) : World σ := ⟨log, .empty⟩

/-- An operation on the log. -/
def onLog {α : Type} (f : σ → α × σ) (w : World σ) : α × World σ :=
  let (a, log) := f w.log
  (a, { w with log })

/-- A change of the log. -/
def mapLog (f : σ → σ) (w : World σ) : World σ := { w with log := f w.log }

/-- Makes a signal that is not raised; its number is the number of signals before. -/
def addSignal (w : World σ) : SignalId × World σ :=
  (w.signals.size, { w with signals := w.signals.add false })

/-- Raises a signal, for good. -/
def raise (i : SignalId) (w : World σ) : World σ :=
  { w with signals := w.signals.set i true }

/-- A signal was raised. -/
def isRaised (i : SignalId) (w : World σ) : Bool := (w.signals.get? i).getD false

end World

/-- A log in a world where nobody else acts. -/
def LogClients.host {σ : Type} (c : LogClients σ) : Host (World σ) where
  createProducer settings := World.onLog (c.createProducer settings)
  send p request := World.onLog (c.send p request)
  flush p := World.onLog (c.flush p)
  closeProducer p := World.onLog (c.closeProducer p)
  dropProducer p := World.mapLog (c.dropProducer p)
  answer? t w := c.answer? t w.log
  createConsumer settings := World.onLog (c.createConsumer settings)
  subscribe k topics := World.onLog (c.subscribe k topics)
  poll k timeout := World.onLog (c.poll k timeout)
  closeConsumer k := World.onLog (c.closeConsumer k)
  dropConsumer k := World.mapLog (c.dropConsumer k)
  raised i w := w.isRaised i
  idle w := w

/-- A state in which somebody else is about to act once. -/
structure Busy (τ : Type) where
  state : τ
  /-- What the other is about to do. -/
  pending : Option (τ → τ)

namespace Busy

variable {τ : Type}

/-- An operation during which the other does not act. -/
def onState {α : Type} (f : τ → α × τ) (b : Busy τ) : α × Busy τ :=
  let (a, state) := f b.state
  (a, { b with state })

/-- A change during which the other does not act. -/
def mapState (f : τ → τ) (b : Busy τ) : Busy τ := { b with state := f b.state }

/-- The other acts, if that is still to come. -/
def settle (b : Busy τ) : Busy τ :=
  match b.pending with
  | some act => ⟨act b.state, none⟩
  | none => b

/-- A poll that finds nothing and has time to wait is made again after the other has acted. -/
def poll (f : Nat → τ → Except BrokerError (List Entry) × τ) (timeout : Nat) (b : Busy τ) :
    Except BrokerError (List Entry) × Busy τ :=
  match onState (f timeout) b with
  | (.ok [], b) =>
    if timeout = 0 ∨ b.pending.isNone then (.ok [], b) else onState (f timeout) b.settle
  | other => other

end Busy

/-- A host in which somebody else acts once, as soon as a call waits. -/
def Host.busy {τ : Type} (h : Host τ) : Host (Busy τ) where
  createProducer settings := Busy.onState (h.createProducer settings)
  send p request := Busy.onState (h.send p request)
  flush p := Busy.onState (h.flush p)
  closeProducer p := Busy.onState (h.closeProducer p)
  dropProducer p := Busy.mapState (h.dropProducer p)
  answer? t b := h.answer? t b.state
  createConsumer settings := Busy.onState (h.createConsumer settings)
  subscribe k topics := Busy.onState (h.subscribe k topics)
  poll k := Busy.poll (h.poll k)
  closeConsumer k := Busy.onState (h.closeConsumer k)
  dropConsumer k := Busy.mapState (h.dropConsumer k)
  raised i b := h.raised i b.state
  idle b := b.settle

/-- Waits for the answer to an append. A wait that neither an answer nor the signal ends goes on
while others act; if they leave it as it was, it has no end. -/
def Host.await {τ : Type} (h : Host τ) (signal : SignalId) (t : Ticket) (s : τ) :
    Option (Except DeliveryError Placement) × τ :=
  match Delivery.check (h.answer? t s) (h.raised signal s) with
  | some r => (some r, s)
  | none =>
    let s := h.idle s
    (Delivery.check (h.answer? t s) (h.raised signal s), s)

end SchemaHistory
