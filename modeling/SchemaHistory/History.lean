import SchemaHistory.Log.Clients
import SchemaHistory.Replay
import SchemaHistory.Settings.History

/-!
# The history of a database's schema

A history stores each schema change as one entry on a topic and gives them back by
replaying that topic. It holds a producer from its start to its stop. A store waits for
the acknowledgment without a time limit; only the shutdown signal ends the wait early,
and then, or when the log refuses, the record may or may not be on the log.
-/

namespace SchemaHistory

/-- Why a history could not do something. -/
inductive HistoryError
  /-- A record was stored before the start. -/
  | notStarted
  /-- The log refused. -/
  | broker (error : BrokerError)
  deriving DecidableEq

/-- The wording of a history error. -/
def HistoryError.message : HistoryError → String
  | notStarted =>
    "no producer is available; call start() before storing database history records"
  | broker e => "broker error: " ++ e.message

/-- How a store ended that did not fail outright. -/
inductive StoreOutcome
  | acknowledged (placement : Placement)
  /-- The wait ended without an acknowledgment. -/
  | unconfirmed
  /-- No answer has come and no signal was raised: the call is still waiting. -/
  | waiting
  deriving DecidableEq

/-- A history on a topic. -/
structure History where
  settings : HistorySettings
  /-- The signal that ends its waits. -/
  shutdown : SignalId
  /-- The producer it holds between start and stop. -/
  producer : Option ProducerId

/-- What a recovery gives. -/
structure Recovery where
  /-- The records, in the order of the log. -/
  records : List Record
  summary : Summary

namespace History

/-- A history that was not started. -/
def make (settings : HistorySettings) (shutdown : SignalId) : History :=
  ⟨settings, shutdown, none⟩

/-- What is reported when a history is made: both clients' settings, with secrets masked. -/
def makeEvents (settings : HistorySettings) : List Event :=
  [⟨.info, "database history consumer config: " ++ settings.consumer.masked, []⟩,
   ⟨.info, "database history producer config: " ++ settings.producer.masked, []⟩]

/-- The history holds a producer. -/
def isStarted (h : History) : Bool := h.producer.isSome

/-- Where the history is stored. -/
def describe (h : History) : String :=
  "topic " ++ h.settings.topic ++ ":" ++ toString historyPartition ++ " using brokers at "
    ++ h.settings.servers

variable {τ : Type} (host : Host τ)

/-- Makes the producer, unless there is one. -/
def start (h : History) (s : τ) : Except HistoryError Unit × History × τ :=
  match h.producer with
  | some _ => (.ok (), h, s)
  | none =>
    match host.createProducer h.settings.producer s with
    | (.ok p, s) => (.ok (), { h with producer := some p }, s)
    | (.error e, s) => (.error (.broker e), h, s)

/-- What a record is appended as. -/
def request (h : History) (r : Record) : AppendRequest :=
  ⟨h.settings.topic, historyPartition, none, r.payload⟩

/-- What is reported of the end of a wait for an acknowledgment. -/
def outcomeEvents (r : Record) : Option (Except DeliveryError Placement) → List Event
  | some (.ok p) =>
    [⟨.debug, "Stored record in topic '" ++ p.topic ++ "' partition " ++ toString p.partition
      ++ " at offset " ++ toString p.offset, []⟩]
  | some (.error .interrupted) =>
    [⟨.error, "Interrupted while waiting for response to storing record into database history",
      [("record", r.payload)]⟩]
  | some (.error (.failed e)) =>
    [⟨.error, "Error while storing database history record",
      [("record", r.payload), ("error", e.message)]⟩]
  | none => []

/-- How a store ended, from the end of the wait. -/
def outcomeOf : Option (Except DeliveryError Placement) → StoreOutcome
  | some (.ok p) => .acknowledged p
  | some (.error _) => .unconfirmed
  | none => .waiting

/-- What is reported of a flush. -/
def flushEvents : Except BrokerError Unit → List Event
  | .ok _ => []
  | .error e => [⟨.warn, "flush of database history producer failed", [("error", e.message)]⟩]

/-- Appends a record and waits for the answer. A failed flush is reported only. -/
def store (h : History) (r : Record) (s : τ) :
    Except HistoryError StoreOutcome × List Event × τ :=
  match h.producer with
  | none => (.error .notStarted, [], s)
  | some p =>
    let storing : List Event :=
      [⟨.trace, "Storing record into database history", [("record", r.payload)]⟩]
    match host.send p (h.request r) s with
    | (.error e, s) => (.error (.broker e), storing, s)
    | (.ok ticket, s) =>
      let (flushed, s) := host.flush p s
      let (answer, s) := host.await h.shutdown ticket s
      (.ok (outcomeOf answer), storing ++ flushEvents flushed ++ outcomeEvents r answer, s)

/-- Makes a record of a change and stores it. -/
def record (h : History) (source position : Members) (database : Option String) (ddl : String)
    (s : τ) : Except HistoryError Unit × List Event × τ :=
  let (result, events, s) := store host h (.ofChange source position database (some ddl)) s
  (result.map fun _ => (), events, s)

/-- Flushes and closes the producer and lets go of it. The error of the flush comes before that
of the close. -/
def stop (h : History) (s : τ) : Except HistoryError Unit × History × τ :=
  match h.producer with
  | none => (.ok (), h, s)
  | some p =>
    let (flushed, s) := host.flush p s
    let (closed, s) := host.closeProducer p s
    let s := host.dropProducer p s
    let result : Except HistoryError Unit := match flushed, closed with
      | .error e, _ => .error (.broker e)
      | .ok _, .error e => .error (.broker e)
      | .ok _, .ok _ => .ok ()
    (result, { h with producer := none }, s)

/-- Lets go of a history, started or not. -/
def release (h : History) (s : τ) : τ :=
  match h.producer with
  | some p => host.dropProducer p s
  | none => s

/-- What is reported when a consumer closes by going out of scope. -/
def closeEvents : Except BrokerError Unit → List Event
  | .ok _ => []
  | .error e => [⟨.warn, "failed to close history consumer", [("error", e.message)]⟩]

/-- Closes a consumer that goes out of scope and lets go of it. -/
def closeScoped (k : ConsumerId) (s : τ) : List Event × τ :=
  let (closed, s) := host.closeConsumer k s
  (closeEvents closed, host.dropConsumer k s)

/-- What is reported before a recovery subscribes. -/
def subscribeEvent (h : History) : Event :=
  ⟨.debug, "Subscribing to database history topic '" ++ h.settings.topic ++ "' partition "
    ++ toString historyPartition ++ " at offset 0", []⟩

/-- What is reported at the end of a recovery. -/
def recoveredEvent (h : History) (summary : Summary) : Event :=
  ⟨.info, "database history recovered from topic '" ++ h.settings.topic ++ "'",
    [("recovered", toString summary.recovered), ("skipped", toString summary.skipped),
     ("polls", toString summary.polls)]⟩

/-- Replays the topic with a consumer of its own, which is closed in every case. There is no
result when the log has not gone quiet after `limit` polls. -/
def recover (limit : Nat) (h : History) (s : τ) :
    Option (Except HistoryError Recovery × List Event × τ) :=
  match host.createConsumer h.settings.consumer s with
  | (.error e, s) => some (.error (.broker e), [], s)
  | (.ok k, s) =>
    match host.subscribe k [h.settings.topic] s with
    | (.error e, s) =>
      let (closing, s) := closeScoped host k s
      some (.error (.broker e), h.subscribeEvent :: closing, s)
    | (.ok _, s) =>
      match Replay.drain (host.poll k h.settings.pollInterval) limit
          (.begin h.settings.attempts) s with
      | none => none
      | some (r, s) =>
        let (closing, s) := closeScoped host k s
        some (.ok ⟨r.records, r.summary⟩,
          h.subscribeEvent :: (r.events ++ h.recoveredEvent r.summary :: closing), s)

end History

end SchemaHistory
