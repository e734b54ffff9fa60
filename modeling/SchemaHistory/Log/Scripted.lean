import SchemaHistory.Log.Clients
import SchemaHistory.Text.Quoted

/-!
# A log whose answers are written down

Each call to this log takes the next answer of a list for calls of its kind; when the list
is used up, calls succeed. The calls are noted in the order in which they are made. Such a
log can do whatever a real one can, and shows what its clients ask of it.
-/

namespace SchemaHistory

/-- How an append is answered. -/
inductive SendPlan
  /-- It is acknowledged at the next offset. -/
  | accept
  | refuse (error : BrokerError)
  /-- The call succeeds and the answer is a refusal. -/
  | answerError (error : BrokerError)
  /-- The answer never comes. -/
  | never
  /-- The right to answer is given up. -/
  | abandon

/-- The answers that are written down, for each kind of call. -/
structure Script where
  /-- Answers to making a producer; nothing stands for success. -/
  createProducer : List (Option BrokerError)
  send : List SendPlan
  flush : List (Option BrokerError)
  closeProducer : List (Option BrokerError)
  createConsumer : List (Option BrokerError)
  subscribe : List (Option BrokerError)
  /-- Answers to polls: the texts of the entries. -/
  poll : List (Except BrokerError (List String))
  closeConsumer : List (Option BrokerError)

/-- A script in which every call succeeds. -/
def Script.empty : Script := ⟨[], [], [], [], [], [], [], []⟩

/-- A call to a log. -/
inductive Call
  | createProducer (settings : ClientSettings)
  | send (request : AppendRequest)
  | flush
  | closeProducer
  | createConsumer (settings : ClientSettings)
  | subscribe (topics : List String)
  /-- A consumer is polled, with a time to wait. -/
  | poll (timeout : Nat)
  | closeConsumer

/-- How a note shows a key that may be absent. -/
def Call.keyText : Option String → String
  | none => "None"
  | some key => "Some(" ++ Text.quoted key ++ ")"

/-- How a call is noted. -/
def Call.text : Call → String
  | createProducer settings => "create_producer " ++ settings.masked
  | send r =>
    "send " ++ r.topic ++ " " ++ toString r.partition ++ " " ++ keyText r.key ++ " " ++ r.payload
  | flush => "flush"
  | closeProducer => "close_producer"
  | createConsumer settings => "create_consumer " ++ settings.masked
  | subscribe topics => "subscribe " ++ ",".intercalate topics
  | poll timeout => "poll " ++ toString timeout ++ "ms"
  | closeConsumer => "close_consumer"

/-- A log that answers by a script. -/
structure ScriptedLog where
  /-- The answers that are left. -/
  script : Script
  /-- The offset that the next acknowledged append gets. -/
  nextOffset : Nat
  deliveries : Deliveries
  producers : Nat
  /-- The offset that each consumer's next entry has. -/
  consumers : Registry Nat
  calls : List Call

namespace ScriptedLog

/-- A log before its first call. -/
def ofScript (script : Script) : ScriptedLog := ⟨script, 0, .empty, 0, .empty, []⟩

/-- Notes a call. -/
def note (s : ScriptedLog) (c : Call) : ScriptedLog := { s with calls := s.calls ++ [c] }

/-- What a planned answer says of a call that gives `a` when it succeeds. -/
def planned {α : Type} (a : α) : Option (Option BrokerError) → Except BrokerError α
  | some (some e) => .error e
  | _ => .ok a

/-- Makes a producer. -/
def createProducer (settings : ClientSettings) (s : ScriptedLog) :
    Except BrokerError ProducerId × ScriptedLog :=
  let result := planned s.producers s.script.createProducer.head?
  let s := s.note (.createProducer settings)
  (result,
    { s with
      script := { s.script with createProducer := s.script.createProducer.tail }
      producers := s.producers + 1 })

/-- Takes an append and answers it as planned. -/
def send (request : AppendRequest) (s : ScriptedLog) : Except BrokerError Ticket × ScriptedLog :=
  let plan := s.script.send.head?.getD .accept
  let s := s.note (.send request)
  let s := { s with script := { s.script with send := s.script.send.tail } }
  let ticket := s.deliveries.next
  match plan with
  | .refuse e => (.error e, s)
  | .accept =>
    (.ok ticket,
      { s with
        nextOffset := s.nextOffset + 1
        deliveries := s.deliveries.resolve (.ok ⟨request.topic, request.partition, s.nextOffset⟩) })
  | .answerError e => (.ok ticket, { s with deliveries := s.deliveries.resolve (.error e) })
  | .never => (.ok ticket, { s with deliveries := s.deliveries.expect })
  | .abandon => (.ok ticket, { s with deliveries := s.deliveries.resolve (.error .closed) })

/-- Flushes a producer. -/
def flush (s : ScriptedLog) : Except BrokerError Unit × ScriptedLog :=
  let result := planned () s.script.flush.head?
  let s := s.note .flush
  (result, { s with script := { s.script with flush := s.script.flush.tail } })

/-- Closes a producer. -/
def closeProducer (s : ScriptedLog) : Except BrokerError Unit × ScriptedLog :=
  let result := planned () s.script.closeProducer.head?
  let s := s.note .closeProducer
  (result, { s with script := { s.script with closeProducer := s.script.closeProducer.tail } })

/-- Makes a consumer. -/
def createConsumer (settings : ClientSettings) (s : ScriptedLog) :
    Except BrokerError ConsumerId × ScriptedLog :=
  let result := planned s.consumers.size s.script.createConsumer.head?
  let s := s.note (.createConsumer settings)
  (result,
    { s with
      script := { s.script with createConsumer := s.script.createConsumer.tail }
      consumers := s.consumers.add 0 })

/-- Tells a consumer its topics. -/
def subscribe (topics : List String) (s : ScriptedLog) : Except BrokerError Unit × ScriptedLog :=
  let result := planned () s.script.subscribe.head?
  let s := s.note (.subscribe topics)
  (result, { s with script := { s.script with subscribe := s.script.subscribe.tail } })

/-- The topic that planned entries belong to. -/
def entryTopic : String := "t"

/-- Planned texts as the entries of a partition from an offset on. -/
def entriesFrom (offset : Nat) (payloads : List String) : List Entry :=
  payloads.mapIdx fun i payload => ⟨entryTopic, 0, offset + i, none, payload⟩

/-- Polls a consumer. -/
def poll (k : ConsumerId) (timeout : Nat) (s : ScriptedLog) :
    Except BrokerError (List Entry) × ScriptedLog :=
  let plan := s.script.poll.head?.getD (.ok [])
  let s := s.note (.poll timeout)
  let s := { s with script := { s.script with poll := s.script.poll.tail } }
  match plan with
  | .error e => (.error e, s)
  | .ok payloads =>
    let offset := (s.consumers.get? k).getD 0
    (.ok (entriesFrom offset payloads),
      { s with consumers := s.consumers.set k (offset + payloads.length) })

/-- Closes a consumer. -/
def closeConsumer (s : ScriptedLog) : Except BrokerError Unit × ScriptedLog :=
  let result := planned () s.script.closeConsumer.head?
  let s := s.note .closeConsumer
  (result, { s with script := { s.script with closeConsumer := s.script.closeConsumer.tail } })

/-- The clients of a scripted log. Letting go of a client is no call. -/
def clients : LogClients ScriptedLog where
  createProducer := createProducer
  send _ := send
  flush _ := flush
  closeProducer _ := closeProducer
  dropProducer _ s := s
  answer? t s := s.deliveries.answer? t
  createConsumer := createConsumer
  subscribe _ := subscribe
  poll := poll
  closeConsumer _ := closeConsumer
  dropConsumer _ s := s

end ScriptedLog

end SchemaHistory
