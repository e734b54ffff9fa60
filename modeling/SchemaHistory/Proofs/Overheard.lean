import SchemaHistory.History

/-!
# What a history asks of a log

A history sees of a log nothing but answers. So its calls can be overheard: each one is made as
before, and is kept with its answer behind those that came earlier. No operation of a history can
tell the difference, since neither an answer nor the log depends on what was heard. What a
history asks of any log whatever, and in which order, is then a list.
-/

namespace SchemaHistory

/-- A call to a log, with the answer of the log. -/
inductive Exchange
  | createProducer (settings : ClientSettings) (answer : Except BrokerError ProducerId)
  | send (p : ProducerId) (request : AppendRequest) (answer : Except BrokerError Ticket)
  | flush (p : ProducerId) (answer : Except BrokerError Unit)
  | closeProducer (p : ProducerId) (answer : Except BrokerError Unit)
  /-- A producer is let go; this has no answer. -/
  | dropProducer (p : ProducerId)
  | createConsumer (settings : ClientSettings) (answer : Except BrokerError ConsumerId)
  | subscribe (k : ConsumerId) (topics : List String) (answer : Except BrokerError Unit)
  | poll (k : ConsumerId) (timeout : Nat) (answer : PollResult)
  | closeConsumer (k : ConsumerId) (answer : Except BrokerError Unit)
  /-- A consumer is let go; this has no answer. -/
  | dropConsumer (k : ConsumerId)

/-- A log whose calls are overheard. -/
structure Overheard (τ : Type) where
  state : τ
  /-- The calls so far, in their order. -/
  heard : List Exchange

namespace Overheard

variable {τ : Type}

/-- A call that is heard with its answer. -/
def call {α : Type} (f : τ → α × τ) (exchange : α → Exchange) (n : Overheard τ) : α × Overheard τ :=
  ((f n.state).1, ⟨(f n.state).2, n.heard ++ [exchange (f n.state).1]⟩)

/-- A change that is heard. -/
def change (f : τ → τ) (exchange : Exchange) (n : Overheard τ) : Overheard τ :=
  ⟨f n.state, n.heard ++ [exchange]⟩

theorem call_eq {α : Type} {f : τ → α × τ} {s s' : τ} {a : α} (h : f s = (a, s'))
    (exchange : α → Exchange) (heard : List Exchange) :
    call f exchange ⟨s, heard⟩ = (a, ⟨s', heard ++ [exchange a]⟩) := by
  rw [call, h]

end Overheard

/-- A host whose calls are overheard. -/
def Host.overheard {τ : Type} (h : Host τ) : Host (Overheard τ) where
  createProducer settings := Overheard.call (h.createProducer settings) (.createProducer settings)
  send p request := Overheard.call (h.send p request) (.send p request)
  flush p := Overheard.call (h.flush p) (.flush p)
  closeProducer p := Overheard.call (h.closeProducer p) (.closeProducer p)
  dropProducer p := Overheard.change (h.dropProducer p) (.dropProducer p)
  answer? t n := h.answer? t n.state
  createConsumer settings := Overheard.call (h.createConsumer settings) (.createConsumer settings)
  subscribe k topics := Overheard.call (h.subscribe k topics) (.subscribe k topics)
  poll k timeout := Overheard.call (h.poll k timeout) (.poll k timeout)
  closeConsumer k := Overheard.call (h.closeConsumer k) (.closeConsumer k)
  dropConsumer k := Overheard.change (h.dropConsumer k) (.dropConsumer k)
  raised i n := h.raised i n.state
  idle n := { n with state := h.idle n.state }

/-- A wait asks nothing of the log. -/
theorem Host.await_overheard {τ : Type} (h : Host τ) (signal : SignalId) (t : Ticket) (s : τ)
    (heard : List Exchange) :
    h.overheard.await signal t ⟨s, heard⟩ =
      ((h.await signal t s).1, ⟨(h.await signal t s).2, heard⟩) := by
  unfold Host.await
  dsimp only [Host.overheard]
  cases Delivery.check (h.answer? t s) (h.raised signal s) with
  | some r => rfl
  | none => rfl

end SchemaHistory
