import SchemaHistory.Log.Basic
import SchemaHistory.Settings.Client

/-!
# What a consumer is told by its settings

Two settings matter to a consumer: how many entries a poll hands over at most, and where
reading starts in a partition that the consumer has not read yet.
-/

namespace SchemaHistory

/-- Where reading starts in a partition that was not read yet. -/
inductive StartAt
  /-- At its first entry. -/
  | earliest
  /-- Behind the entries it has. -/
  | latest
  deriving DecidableEq

/-- What a consumer goes by. -/
structure ConsumerOptions where
  /-- The most entries that a poll hands over. -/
  limit : Nat
  start : StartAt
  deriving DecidableEq

namespace ConsumerOptions

/-- The setting for the most entries of a poll. -/
def limitKey : String := "max.poll.records"

/-- The setting for where reading starts. -/
def startKey : String := "auto.offset.reset"

/-- The most entries of a poll that is not configured. -/
def defaultLimit : Nat := 500

/-- The largest number a setting may hold. -/
def maxLimit : Nat := 0xFFFFFFFFFFFFFFFF

/-- Where reading starts, by the value of its setting. -/
def startOf : String → Except BrokerError StartAt
  | "earliest" => .ok .earliest
  | "latest" => .ok .latest
  | other => .error (.invalidSetting startKey ("unsupported value '" ++ other ++ "'"))

/-- The options of some settings. A poll hands over one entry at least. -/
def ofSettings (c : ClientSettings) : Except BrokerError ConsumerOptions :=
  match c.getOr (Text.natural? maxLimit) limitKey defaultLimit with
  | .error e => .error (.invalidSetting limitKey e.message)
  | .ok limit =>
    match startOf ((c.get? startKey).getD "latest") with
    | .error e => .error e
    | .ok start => .ok ⟨max limit 1, start⟩

end ConsumerOptions

end SchemaHistory
