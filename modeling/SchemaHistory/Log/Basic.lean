/-!
# Topics, partitions and what they hold

A log has topics, a topic has numbered partitions, and a partition holds entries at the
offsets 0, 1, 2, …. Producers append and consumers read; this module has what passes
between them and the log, and the ways in which the log refuses. What is done with a log
is reported as events with a level, a message and named values.
-/

namespace SchemaHistory

/-- The partition that a history is stored on. -/
def historyPartition : Int := 0

/-- Why a log refused. -/
inductive BrokerError
  | unknownPartition (topic : String) (partition : Int)
  | invalidTopic (topic : String)
  | closed
  | notSubscribed
  /-- A client setting has a value that it cannot have. -/
  | invalidSetting (key reason : String)
  /-- The record was not taken. -/
  | rejected (reason : String)
  /-- The system below the log failed. -/
  | io (reason : String)
  deriving DecidableEq

/-- The wording of a refusal. -/
def BrokerError.message : BrokerError → String
  | unknownPartition topic partition =>
    "unknown partition " ++ toString partition ++ " for topic '" ++ topic ++ "'"
  | invalidTopic topic => "invalid topic name '" ++ topic ++ "'"
  | closed => "client is closed"
  | notSubscribed => "consumer is not subscribed to any topic"
  | invalidSetting key reason => "invalid client setting `" ++ key ++ "`: " ++ reason
  | rejected reason => "record rejected: " ++ reason
  | io reason => "io: " ++ reason

/-- What a producer asks to append. -/
structure AppendRequest where
  topic : String
  partition : Int
  /-- The key of the entry, if it has one. -/
  key : Option String
  payload : String
  deriving DecidableEq

/-- Where an acknowledged entry stands. -/
structure Placement where
  topic : String
  partition : Int
  offset : Nat
  deriving DecidableEq

/-- What a poll hands over. -/
structure Entry where
  topic : String
  partition : Int
  offset : Nat
  /-- The key of the entry, if it has one. -/
  key : Option String
  payload : String
  deriving DecidableEq

/-- The log's answer to one append. -/
abbrev Ack := Except BrokerError Placement

/-! ## What is reported -/

/-- How much an event matters. -/
inductive Level
  /-- Of use only to follow every step. -/
  | trace
  /-- Of use when looking for a fault. -/
  | debug
  /-- Part of normal work. -/
  | info
  /-- Something failed and work goes on. -/
  | warn
  /-- Something failed for good. -/
  | error
  deriving DecidableEq

/-- One reported event. -/
structure Event where
  level : Level
  message : String
  /-- Values that belong to it, by name. -/
  fields : List (String × String)
  deriving DecidableEq

end SchemaHistory
