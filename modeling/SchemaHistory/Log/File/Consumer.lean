import SchemaHistory.Log.File.Partition
import SchemaHistory.Log.Options

/-!
# Reading partitions

A consumer looks for the partitions of its topics anew at every poll and reads each from
where it stopped. Partitions are taken by their numbers, topics as they were given. A poll
ends before the next partition once it has as many entries as it may hand over. When one
partition fails the poll fails, and what it had read of others counts as read.
-/

namespace SchemaHistory.FileLog

/-- How far a consumer has read each partition. -/
abbrev Cursors := Assoc (String × Int) Cursor

/-- A consumer of a log in files. -/
structure Consumer where
  /-- What it goes by. -/
  options : ConsumerOptions
  topics : List String
  cursors : Cursors
  closed : Bool

/-- The partitions that the names in a directory give, by number. -/
def partitionsIn (directory : Path) (names : List String) : List (Int × Path) :=
  (names.filterMap fun name => (partitionOf? name).map fun n => (n, directory ++ [name])).mergeSort
    fun a b => a.1 ≤ b.1

/-- The partitions of a topic. A topic without a directory has none. -/
def partitions (root : Path) (topic : String) (t : FileTree) :
    Except BrokerError (List (Int × Path)) :=
  match topicPath root topic with
  | .error e => .error e
  | .ok directory =>
    match t.list directory with
    | .error .noEntry => .ok []
    | .error e => .error (.io e.message)
    | .ok names => .ok (partitionsIn directory names)

/-- Whether a poll goes on to the next partition. -/
inductive Verdict
  | goOn
  /-- It has as many entries as it may hand over. -/
  | full
  /-- It failed. -/
  | failed (error : BrokerError)
  deriving DecidableEq

/-- What a poll has done so far. -/
structure Fetch where
  entries : List Entry
  cursors : Cursors
  verdict : Verdict

namespace Fetch

/-- Reads the file of one partition. -/
def readPartition (o : ConsumerOptions) (t : FileTree) (topic : String) (f : Fetch)
    (partition : Int × Path) : Fetch :=
  match f.verdict with
  | .full => f
  | .failed _ => f
  | .goOn =>
    if o.limit ≤ f.entries.length then { f with verdict := .full }
    else
      match t.read partition.2 with
      | .error e => { f with verdict := .failed (.io e.message) }
      | .ok bs =>
        let start := (Assoc.get? f.cursors (topic, partition.1)).getD
          (match o.start with
            | .earliest => .zero
            | .latest => endOf bs)
        let (lines, cursor) := readFrom (o.limit - f.entries.length) start bs
        { f with
          entries := f.entries ++ entriesOf topic partition.1 start.offset lines
          cursors := Assoc.put (topic, partition.1) cursor f.cursors }

/-- Reads the partitions of one topic. -/
def readTopic (o : ConsumerOptions) (root : Path) (t : FileTree) (f : Fetch) (topic : String) :
    Fetch :=
  match f.verdict with
  | .full => f
  | .failed _ => f
  | .goOn =>
    match partitions root topic t with
    | .error e => { f with verdict := .failed e }
    | .ok ps => ps.foldl (readPartition o t topic) f

/-- What the poll hands over. -/
def result (f : Fetch) : Except BrokerError (List Entry) :=
  match f.verdict with
  | .failed e => .error e
  | _ => .ok f.entries

end Fetch

namespace Consumer

/-- Goes through the topics of the consumer. -/
def fetch (root : Path) (c : Consumer) (t : FileTree) : Fetch :=
  c.topics.foldl (Fetch.readTopic c.options root t) ⟨[], c.cursors, .goOn⟩

/-- Reads other topics from now on, if all can be named so. -/
def subscribe (root : Path) (topics : List String) (c : Consumer) :
    Except BrokerError Unit × Consumer :=
  if c.closed then (.error .closed, c)
  else
    match topics.mapM (topicPath root) with
    | .error e => (.error e, c)
    | .ok _ => (.ok (), { c with topics, cursors := [] })

/-- Hands over entries that the consumer has not had. -/
def poll (root : Path) (t : FileTree) (c : Consumer) : Except BrokerError (List Entry) × Consumer :=
  if c.closed then (.error .closed, c)
  else if c.topics.isEmpty then (.error .notSubscribed, c)
  else
    let f := c.fetch root t
    (f.result, { c with cursors := f.cursors })

/-- Closes the consumer. -/
def close (c : Consumer) : Consumer := { c with closed := true, cursors := [] }

end Consumer

end SchemaHistory.FileLog
