import SchemaHistory.Log.Clients
import SchemaHistory.Log.File.Consumer
import SchemaHistory.Log.File.Producer

/-!
# A log in files

The log has a root directory in a tree of files that others may change as well. Producers
and consumers share nothing but that tree.
-/

namespace SchemaHistory

/-- A log in files. -/
structure FileLog where
  files : FileTree
  root : Path
  producers : Registry FileLog.Producer
  consumers : Registry FileLog.Consumer
  deliveries : Deliveries

namespace FileLog

/-- A log without clients. -/
def ofTree (root : Path) (files : FileTree) : FileLog := ⟨files, root, .empty, .empty, .empty⟩

/-- A producer; one that was never made counts as closed. -/
def producer (p : ProducerId) (s : FileLog) : Producer :=
  (s.producers.get? p).getD ⟨[], [], true⟩

/-- A consumer; one that was never made counts as closed. -/
def consumer (k : ConsumerId) (s : FileLog) : Consumer :=
  (s.consumers.get? k).getD ⟨⟨1, .latest⟩, [], [], true⟩

/-- Makes a producer, and the root directory if it is missing. -/
def createProducer (s : FileLog) : Except BrokerError ProducerId × FileLog :=
  match s.files.makeDirectories s.root with
  | (.error e, files) => (.error (.io e.message), { s with files })
  | (.ok _, files) =>
    (.ok s.producers.size, { s with files, producers := s.producers.add .fresh })

/-- Writes what a producer appends. -/
def send (p : ProducerId) (request : AppendRequest) (s : FileLog) :
    Except BrokerError Ticket × FileLog :=
  match (s.producer p).send s.root s.deliveries.next request s.files with
  | (.error e, producer, files) =>
    (.error e, { s with files, producers := s.producers.set p producer })
  | (.ok _, producer, files) =>
    (.ok s.deliveries.next,
      { s with
        files
        producers := s.producers.set p producer
        deliveries := s.deliveries.expect })

/-- Takes over what a producer has done: its answers, itself and the files. -/
def settled (p : ProducerId) (acks : List (Ticket × Ack)) (producer : Producer)
    (files : FileTree) (s : FileLog) : FileLog :=
  { s with
    files
    producers := s.producers.set p producer
    deliveries := s.deliveries.fillAll acks }

/-- Stores and acknowledges what a producer has written. -/
def flush (p : ProducerId) (s : FileLog) : Except BrokerError Unit × FileLog :=
  let (result, acks, producer, files) := (s.producer p).flush s.files
  (result, s.settled p acks producer files)

/-- Closes a producer. -/
def closeProducer (p : ProducerId) (s : FileLog) : Except BrokerError Unit × FileLog :=
  let (result, acks, producer, files) := (s.producer p).close s.files
  (result, s.settled p acks producer files)

/-- Lets go of a producer. -/
def dropProducer (p : ProducerId) (s : FileLog) : FileLog :=
  let (acks, producer, files) := (s.producer p).drop s.files
  s.settled p acks producer files

/-- Makes a consumer. -/
def createConsumer (settings : ClientSettings) (s : FileLog) :
    Except BrokerError ConsumerId × FileLog :=
  match ConsumerOptions.ofSettings settings with
  | .error e => (.error e, s)
  | .ok options =>
    (.ok s.consumers.size, { s with consumers := s.consumers.add ⟨options, [], [], false⟩ })

/-- Sets the topics that a consumer reads. -/
def subscribe (k : ConsumerId) (topics : List String) (s : FileLog) :
    Except BrokerError Unit × FileLog :=
  let (result, consumer) := (s.consumer k).subscribe s.root topics
  (result, { s with consumers := s.consumers.set k consumer })

/-- Hands over entries that a consumer has not had. -/
def poll (k : ConsumerId) (s : FileLog) : Except BrokerError (List Entry) × FileLog :=
  let (result, consumer) := (s.consumer k).poll s.root s.files
  (result, { s with consumers := s.consumers.set k consumer })

/-- Closes a consumer. -/
def closeConsumer (k : ConsumerId) (s : FileLog) : Except BrokerError Unit × FileLog :=
  (.ok (), { s with consumers := s.consumers.set k (s.consumer k).close })

/-- The clients of a log in files. -/
def clients : LogClients FileLog where
  createProducer _ := createProducer
  send := send
  flush := flush
  closeProducer := closeProducer
  dropProducer := dropProducer
  answer? t s := s.deliveries.answer? t
  createConsumer := createConsumer
  subscribe := subscribe
  poll k _ := poll k
  closeConsumer := closeConsumer
  dropConsumer _ s := s

end FileLog

end SchemaHistory
