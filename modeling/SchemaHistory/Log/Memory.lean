import SchemaHistory.Collections
import SchemaHistory.Log.Clients
import SchemaHistory.Log.Options

/-!
# A log in memory

The topics of this log are lists that every client shares. How it answers appends can be
set: at once, not until they are released, or with a refusal that stores nothing. A topic
that is appended to without having been made gets a single partition.
-/

namespace SchemaHistory

/-- How a log in memory answers appends. -/
inductive AckMode
  /-- Store and acknowledge at once. -/
  | immediate
  /-- Refuse without storing. -/
  | fail (reason : String)
  /-- Store and keep the acknowledgment back. -/
  | withhold
  deriving DecidableEq

/-- What a partition stores of an entry. -/
structure Stored where
  /-- The key, if there is one. -/
  key : Option String
  payload : String
  deriving DecidableEq

/-- The partitions of each topic, with their entries in the order of their offsets. -/
abbrev Topics := Assoc String (List (List Stored))

namespace Topics

/-- Adds a topic with some partitions, one at least. A topic that is there stays as it is. -/
def create (t : Topics) (topic : String) (partitions : Nat) : Topics :=
  match Assoc.get? t topic with
  | some _ => t
  | none => Assoc.put topic (List.replicate (max partitions 1) []) t

/-- The entries of a partition. -/
def entries? (t : Topics) (topic : String) (partition : Int) : Option (List Stored) :=
  (Assoc.get? t topic).bind fun ps => if 0 ≤ partition then ps[partition.toNat]? else none

/-- Adds an entry to a partition and gives its offset. The topic is made first, even when it then
has no such partition. -/
def append (t : Topics) (topic : String) (partition : Int) (e : Stored) :
    Except BrokerError Nat × Topics :=
  let t := create t topic 1
  match entries? t topic partition with
  | none => (.error (.unknownPartition topic partition), t)
  | some es =>
    let ps := ((Assoc.get? t topic).getD []).set partition.toNat (es ++ [e])
    (.ok es.length, Assoc.put topic ps t)

end Topics

/-- The next offset of each partition that a consumer has looked at. -/
abbrev Positions := Assoc (String × Nat) Nat

/-- A consumer of a log in memory. -/
structure MemoryConsumer where
  /-- What it goes by. -/
  options : ConsumerOptions
  topics : List String
  positions : Positions
  closed : Bool

namespace MemoryConsumer

/-- What a poll has gathered: the entries so far, and how far the consumer has read. -/
structure Batch where
  entries : List Entry
  positions : Positions

/-- The entries of a partition from an offset on, as a poll hands them over. -/
def handOver (topic : String) (partition offset : Nat) (es : List Stored) : List Entry :=
  es.mapIdx fun i e => ⟨topic, partition, offset + i, e.key, e.payload⟩

/-- Takes as many entries of a partition as the batch has room for. -/
def fetchPartition (o : ConsumerOptions) (topic : String) (partition : Nat)
    (es : List Stored) (b : Batch) : Batch :=
  let position := (Assoc.get? b.positions (topic, partition)).getD
    (match o.start with
      | .earliest => 0
      | .latest => es.length)
  let taken := (es.drop position).take (o.limit - b.entries.length)
  ⟨b.entries ++ handOver topic partition position taken,
    Assoc.put (topic, partition) (position + taken.length) b.positions⟩

/-- Goes through the partitions of a topic from the number `partition` on. -/
def fetchPartitions (o : ConsumerOptions) (topic : String) (partition : Nat) :
    List (List Stored) → Batch → Batch
  | [], b => b
  | es :: rest, b =>
    fetchPartitions o topic (partition + 1) rest (fetchPartition o topic partition es b)

/-- Goes through a topic, if there is one. -/
def fetchTopic (o : ConsumerOptions) (t : Topics) (b : Batch) (topic : String) : Batch :=
  match Assoc.get? t topic with
  | none => b
  | some ps => fetchPartitions o topic 0 ps b

/-- Goes through the topics of the consumer. -/
def fetch (c : MemoryConsumer) (t : Topics) : Batch :=
  c.topics.foldl (fetchTopic c.options t) ⟨[], c.positions⟩

/-- The positions behind all entries of the partitions of some topics. -/
def endPositions (t : Topics) (topics : List String) : Positions :=
  topics.foldl
    (fun acc topic => acc.putAll
      (((Assoc.get? t topic).getD []).mapIdx fun i es => ((topic, i), es.length)))
    []

/-- Reads other topics from now on. A consumer that starts behind the entries of a partition
notes where these end. -/
def subscribe (c : MemoryConsumer) (t : Topics) (topics : List String) : MemoryConsumer :=
  { c with
    topics
    positions := match c.options.start with
      | .earliest => []
      | .latest => endPositions t topics }

end MemoryConsumer

/-- A log in memory. -/
structure MemoryLog where
  topics : Topics
  mode : AckMode
  /-- The acknowledgments that are kept back. -/
  withheld : List (Ticket × Placement)
  deliveries : Deliveries
  /-- The producers, each closed or not. -/
  producers : Registry Bool
  consumers : Registry MemoryConsumer
  /-- How many consumers were made and not closed. -/
  openConsumers : Nat

namespace MemoryLog

/-- A log without topics and clients. -/
def empty : MemoryLog := ⟨[], .immediate, [], .empty, .empty, .empty, 0⟩

/-- Makes a topic with some partitions, unless there is one. -/
def createTopic (topic : String) (partitions : Nat) (s : MemoryLog) : MemoryLog :=
  { s with topics := s.topics.create topic partitions }

/-- Sets how appends are answered from now on. -/
def setMode (mode : AckMode) (s : MemoryLog) : MemoryLog := { s with mode }

/-- Acknowledges every append whose acknowledgment is kept back, and tells how many. -/
def release (s : MemoryLog) : Nat × MemoryLog :=
  (s.withheld.length,
    { s with
      withheld := []
      deliveries := s.deliveries.fillAll (s.withheld.map fun w => (w.1, .ok w.2)) })

/-- Appends without a producer, past the answer mode, and gives the offset. -/
def appendRaw (topic : String) (partition : Int) (payload : String) (s : MemoryLog) :
    Except BrokerError Nat × MemoryLog :=
  let (r, topics) := s.topics.append topic partition ⟨none, payload⟩
  (r, { s with topics })

/-- The texts of a partition, in the order of their offsets. -/
def payloads (topic : String) (partition : Int) (s : MemoryLog) : List String :=
  ((s.topics.entries? topic partition).getD []).map Stored.payload

/-- How many producers were made. -/
def producersCreated (s : MemoryLog) : Nat := s.producers.size

/-- Makes a producer. -/
def createProducer (s : MemoryLog) : Except BrokerError ProducerId × MemoryLog :=
  (.ok s.producers.size, { s with producers := s.producers.add false })

/-- A producer was closed, or never made. -/
def isClosed (p : ProducerId) (s : MemoryLog) : Bool := (s.producers.get? p).getD true

/-- Answers an append at once. -/
def respond (ack : Ack) (s : MemoryLog) : Except BrokerError Ticket × MemoryLog :=
  (.ok s.deliveries.next, { s with deliveries := s.deliveries.resolve ack })

/-- Keeps the acknowledgment of an append back. -/
def keepBack (placement : Placement) (s : MemoryLog) : Except BrokerError Ticket × MemoryLog :=
  (.ok s.deliveries.next,
    { s with
      withheld := s.withheld ++ [(s.deliveries.next, placement)]
      deliveries := s.deliveries.expect })

/-- Stores what a producer appends and answers as the mode says. -/
def send (p : ProducerId) (request : AppendRequest) (s : MemoryLog) :
    Except BrokerError Ticket × MemoryLog :=
  if s.isClosed p then (.error .closed, s)
  else
    match s.mode with
    | .fail reason => s.respond (.error (.rejected reason))
    | mode =>
      match s.topics.append request.topic request.partition ⟨request.key, request.payload⟩ with
      | (.error e, topics) => (.error e, { s with topics })
      | (.ok offset, topics) =>
        let placement : Placement := ⟨request.topic, request.partition, offset⟩
        let s := { s with topics }
        if mode = .withhold then s.keepBack placement else s.respond (.ok placement)

/-- Nothing is held back by a producer, so a flush only asks whether it is open. -/
def flush (p : ProducerId) (s : MemoryLog) : Except BrokerError Unit × MemoryLog :=
  if s.isClosed p then (.error .closed, s) else (.ok (), s)

/-- Closes a producer. -/
def closeProducer (p : ProducerId) (s : MemoryLog) : Except BrokerError Unit × MemoryLog :=
  (.ok (), { s with producers := s.producers.set p true })

/-- Makes a consumer. -/
def createConsumer (settings : ClientSettings) (s : MemoryLog) :
    Except BrokerError ConsumerId × MemoryLog :=
  match ConsumerOptions.ofSettings settings with
  | .error e => (.error e, s)
  | .ok options =>
    (.ok s.consumers.size,
      { s with
        consumers := s.consumers.add ⟨options, [], [], false⟩
        openConsumers := s.openConsumers + 1 })

/-- Sets the topics that a consumer reads. -/
def subscribe (k : ConsumerId) (topics : List String) (s : MemoryLog) :
    Except BrokerError Unit × MemoryLog :=
  match s.consumers.get? k with
  | none => (.error .closed, s)
  | some c =>
    if c.closed then (.error .closed, s)
    else (.ok (), { s with consumers := s.consumers.set k (c.subscribe s.topics topics) })

/-- Hands over entries that a consumer has not had. -/
def poll (k : ConsumerId) (s : MemoryLog) : Except BrokerError (List Entry) × MemoryLog :=
  match s.consumers.get? k with
  | none => (.error .closed, s)
  | some c =>
    if c.closed then (.error .closed, s)
    else if c.topics.isEmpty then (.error .notSubscribed, s)
    else
      let batch := c.fetch s.topics
      (.ok batch.entries,
        { s with consumers := s.consumers.set k { c with positions := batch.positions } })

/-- Closes a consumer. Only the first time counts. -/
def closeConsumer (k : ConsumerId) (s : MemoryLog) : Except BrokerError Unit × MemoryLog :=
  match s.consumers.get? k with
  | none => (.ok (), s)
  | some c =>
    if c.closed then (.ok (), s)
    else
      (.ok (),
        { s with
          consumers := s.consumers.set k { c with closed := true }
          openConsumers := s.openConsumers - 1 })

/-- The clients of a log in memory. A consumer that is let go is closed. -/
def clients : LogClients MemoryLog where
  createProducer _ := createProducer
  send := send
  flush := flush
  closeProducer := closeProducer
  dropProducer _ s := s
  answer? t s := s.deliveries.answer? t
  createConsumer := createConsumer
  subscribe := subscribe
  poll k _ := poll k
  closeConsumer := closeConsumer
  dropConsumer k s := (closeConsumer k s).2

end MemoryLog

end SchemaHistory
