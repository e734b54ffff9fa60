import SchemaHistory.Log.Basic
import SchemaHistory.Settings.Client
import SchemaHistory.Text.Quoted

/-!
# Settings of a history

A history is configured by a flat map of properties. Four of them are checked, and every
problem is reported, in a fixed order. What stands under the prefixes for the consumer and
for the producer goes through to these clients as it is; defaults fill in what is absent.

A history that is not named gets a random name: sixteen bytes in lower-case hexadecimal,
in groups that dashes divide. Six bits of the name are fixed and say that it is random.
-/

namespace SchemaHistory

/-- The properties of a history, by key. -/
abbrev Properties := KeyMap String

/-- What is wrong with a property. -/
inductive PropertyProblem
  /-- A required property is absent or blank. -/
  | missing (key : String)
  /-- A count is no number, or too large a one. -/
  | notACount (key raw : String)
  deriving DecidableEq

namespace PropertyProblem

/-- The wording of a problem. -/
def text : PropertyProblem → String
  | missing key => "`" ++ key ++ "` is required"
  | notACount key raw => "`" ++ key ++ "` must be a non-negative integer, got '" ++ raw ++ "'"

/-- What is reported of a problem. -/
def event (p : PropertyProblem) : Event := ⟨.error, p.text, []⟩

/-- The wording of all problems of a map of properties. -/
def message (problems : List PropertyProblem) : String :=
  "invalid history configuration: " ++ "; ".intercalate (problems.map text)

end PropertyProblem

/-- The settings of a history. -/
structure HistorySettings where
  /-- The topic the history is stored on. -/
  topic : String
  /-- The servers the clients connect to. -/
  servers : String
  /-- What the clients call themselves. -/
  name : String
  /-- How long a poll waits during recovery, in milliseconds. -/
  pollInterval : Nat
  /-- After how many empty polls in a row recovery ends. -/
  attempts : Nat
  consumer : ClientSettings
  producer : ClientSettings

namespace HistorySettings

/-- The property that names the topic. -/
def topicKey : String := "database.history.kafka.topic"

/-- The property that lists the servers. -/
def serversKey : String := "database.history.kafka.bootstrap.servers"

/-- The property that sets the wait of a poll. -/
def pollIntervalKey : String := "database.history.kafka.recovery.poll.interval.ms"

/-- The property that sets the number of empty polls. -/
def attemptsKey : String := "database.history.kafka.recovery.attempts"

/-- The property that names the clients. -/
def nameKey : String := "database.history.name"

/-- What the keys of consumer settings start with. -/
def consumerPrefix : String := "database.history.consumer."

/-- What the keys of producer settings start with. -/
def producerPrefix : String := "database.history.producer."

/-- The wait of a poll that is not configured. -/
def defaultPollInterval : Nat := 100

/-- The number of empty polls that is not configured. -/
def defaultAttempts : Nat := 4

/-- The largest count a property may hold. -/
def maxCount : Nat := 0x7FFFFFFF

/-- A property that must be there, without the blank around it. -/
def required (props : Properties) (key : String) : Except PropertyProblem String :=
  match (props.get? key).map fun raw => Text.trimChars raw.toList with
  | none => .error (.missing key)
  | some [] => .error (.missing key)
  | some (c :: cs) => .ok (.ofList (c :: cs))

/-- A property that counts something. -/
def count (props : Properties) (key : String) (default : Nat) : Except PropertyProblem Nat :=
  match props.get? key with
  | none => .ok default
  | some raw =>
    match Text.natural? maxCount (Text.trimChars raw.toList) with
    | some n => .ok n
    | none => .error (.notACount key raw)

/-- The given name as it is, unless it is blank; else `fresh`. -/
def effectiveName (given : Option String) (fresh : String) : String :=
  match given with
  | none => fresh
  | some name => if (Text.trimChars name.toList).isEmpty then fresh else name

/-- What a consumer is told when the properties do not tell it. -/
def consumerDefaults (servers name : String) : List (String × String) :=
  [("bootstrap.servers", servers), ("client.id", name), ("group.id", name),
   ("fetch.min.bytes", "1"), ("enable.auto.commit", "false"),
   ("session.timeout.ms", "30000"), ("auto.offset.reset", "earliest")]

/-- What a producer is told when the properties do not tell it. A retry may store a record twice,
which recovery tolerates. -/
def producerDefaults (servers name : String) : List (String × String) :=
  [("bootstrap.servers", servers), ("client.id", name), ("acks", "1"), ("retries", "1"),
   ("batch.size", "32768"), ("linger.ms", "0"), ("buffer.memory", "1048576")]

/-- Settings from checked properties and the map they came from. -/
def assemble (topic servers name : String) (pollInterval attempts : Nat) (props : Properties) :
    HistorySettings where
  topic
  servers
  name
  pollInterval
  attempts
  consumer := (ClientSettings.ofPrefix consumerPrefix props).setDefaults
    (consumerDefaults servers name)
  producer := (ClientSettings.ofPrefix producerPrefix props).setDefaults
    (producerDefaults servers name)

/-- Settings with defaults for all but the topic and the servers, which are taken as they are. -/
def ofTopic (topic servers fresh : String) : HistorySettings :=
  assemble topic servers fresh defaultPollInterval defaultAttempts .empty

/-- The problem of a check that failed. -/
def problemOf {α : Type} : Except PropertyProblem α → List PropertyProblem
  | .ok _ => []
  | .error p => [p]

/-- Settings from properties, or all that is wrong with these. -/
def ofProperties (props : Properties) (fresh : String) :
    Except (List PropertyProblem) HistorySettings :=
  let topic := required props topicKey
  let servers := required props serversKey
  let pollInterval := count props pollIntervalKey defaultPollInterval
  let attempts := count props attemptsKey defaultAttempts
  match topic, servers, pollInterval, attempts with
  | .ok topic, .ok servers, .ok pollInterval, .ok attempts =>
    .ok (assemble topic servers (effectiveName (props.get? nameKey) fresh) pollInterval attempts
      props)
  | _, _, _, _ =>
    .error (problemOf topic ++ problemOf servers ++ problemOf pollInterval ++ problemOf attempts)

/-- The same, with what is reported of it: every problem, in the order in which they are found. -/
def check (props : Properties) (fresh : String) :
    Except (List PropertyProblem) HistorySettings × List Event :=
  match ofProperties props fresh with
  | .ok settings => (.ok settings, [])
  | .error problems => (.error problems, problems.map PropertyProblem.event)

end HistorySettings

/-! ## Names nobody gave -/

namespace FreshName

/-- The number of random bytes in a name. -/
def size : Nat := 16

/-- A random byte with the bits that are fixed at its place. -/
def marked (place : Nat) (b : UInt8) : UInt8 :=
  if place = 6 then b &&& 0x0F ||| 0x40
  else if place = 8 then b &&& 0x3F ||| 0x80
  else b

/-- A dash stands before the bytes at these places. -/
def dashed (place : Nat) : Bool := place = 4 || place = 6 || place = 8 || place = 10

/-- A byte at its place, with its two digits. -/
def part (place : Nat) (b : UInt8) : List Char :=
  (if dashed place then ['-'] else []) ++ (Text.hex (marked place b).toNat).leftpad 2 '0'

/-- The name of some random bytes. -/
def ofBytes (bytes : List UInt8) : String :=
  .ofList (((bytes.take size).mapIdx part).flatten)

end FreshName

end SchemaHistory
