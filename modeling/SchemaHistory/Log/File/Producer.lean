import SchemaHistory.Log.Delivery
import SchemaHistory.Log.File.Partition

/-!
# Writing partitions

A producer opens the file of a partition with its first append there and counts on from the
lines the file has. What it writes goes through a buffer. A line is acknowledged when the
buffer was written out and the file stored, which a flush does for all partitions of the
producer at once. A file that ends in the middle of a line first gets a line feed, so that
new lines stand by themselves.
-/

namespace SchemaHistory.FileLog

open Text

/-- How many bytes a buffer holds. -/
def bufferSize : Nat := 8192

/-- An open file of a partition. -/
structure PartitionWriter where
  /-- What is open. -/
  handle : Handle
  /-- What was written and is not in the file yet. -/
  buffer : Bytes
  nextOffset : Nat

namespace PartitionWriter

/-- Moves what the buffer holds to the file. -/
def spill (w : PartitionWriter) (t : FileTree) : PartitionWriter × FileTree :=
  ({ w with buffer := [] }, t.append w.handle w.buffer)

/-- Writes through the buffer. What does not fit first sends the buffer to the file, and what is as
large as a buffer goes to the file itself. -/
def write (w : PartitionWriter) (bs : Bytes) (t : FileTree) : PartitionWriter × FileTree :=
  let (w, t) := if bufferSize < w.buffer.length + bs.length then w.spill t else (w, t)
  if bs.length < bufferSize then ({ w with buffer := w.buffer ++ bs }, t)
  else (w, t.append w.handle bs)

/-- What the file of a partition holds when it is opened; a missing one holds nothing. -/
def present (path : Path) (t : FileTree) : Except SystemError Bytes :=
  match t.read path with
  | .error .noEntry => .ok []
  | other => other

/-- A writer for an open file that holds some bytes: it counts their lines and ends the last one if
that is torn. -/
def continuing (handle : Handle) (bs : Bytes) (t : FileTree) : PartitionWriter × FileTree :=
  let w : PartitionWriter := ⟨handle, [], lineCount bs⟩
  if isTorn bs then
    let (w, t) := w.write [lineFeed] t
    ({ w with nextOffset := w.nextOffset + 1 }, t)
  else (w, t)

/-- Opens the file of a partition, with the directories above it. -/
def openAt (path : Path) (t : FileTree) : Except SystemError PartitionWriter × FileTree :=
  match t.makeDirectories path.dropLast with
  | (.error e, t) => (.error e, t)
  | (.ok _, t) =>
    match present path t with
    | .error e => (.error e, t)
    | .ok bs =>
      match t.openAppend path with
      | (.error e, t) => (.error e, t)
      | (.ok handle, t) =>
        let (w, t) := continuing handle bs t
        (.ok w, t)

/-- Writes a line and gives its offset. -/
def writeLine (w : PartitionWriter) (line : Bytes) (t : FileTree) :
    Nat × PartitionWriter × FileTree :=
  let (w, t) := w.write line t
  let (w, t) := w.write [lineFeed] t
  (w.nextOffset, { w with nextOffset := w.nextOffset + 1 }, t)

end PartitionWriter

/-- The open files of a producer. -/
abbrev Writers := Assoc (String × Int) PartitionWriter

namespace Writers

/-- Writes every buffer to its file. -/
def spillAll : Writers → FileTree → Writers × FileTree
  | [], t => ([], t)
  | (k, w) :: rest, t =>
    let (w, t) := w.spill t
    let (rest, t) := spillAll rest t
    ((k, w) :: rest, t)

/-- Writes the buffers to their files and stores these, one after another up to the first
failure. -/
def syncAll : Writers → FileTree → Except SystemError Unit × Writers × FileTree
  | [], t => (.ok (), [], t)
  | (k, w) :: rest, t =>
    let (w, t) := w.spill t
    match FileTree.sync w.handle with
    | .error e => (.error e, (k, w) :: rest, t)
    | .ok _ =>
      let (r, rest, t) := syncAll rest t
      (r, (k, w) :: rest, t)

end Writers

/-- A producer of a log in files. -/
structure Producer where
  writers : Writers
  /-- The lines without an acknowledgment, in the order in which they were written. -/
  pending : List (Ticket × Placement)
  closed : Bool

namespace Producer

/-- A producer before its first append. -/
def fresh : Producer := ⟨[], [], false⟩

/-- Why a line is refused that would not be one line. -/
def lineBreakReason : String := "payload must not contain a line break"

/-- The open file of a partition, opened if it is not. -/
def writerFor (root : Path) (topic : String) (partition : Int) (p : Producer) (t : FileTree) :
    Except BrokerError PartitionWriter × FileTree :=
  match Assoc.get? p.writers (topic, partition) with
  | some w => (.ok w, t)
  | none =>
    match partitionPath root topic partition with
    | .error e => (.error e, t)
    | .ok path =>
      match PartitionWriter.openAt path t with
      | (.error e, t) => (.error (.io e.message), t)
      | (.ok w, t) => (.ok w, t)

/-- Writes an append as a line; `ticket` is kept until the line is acknowledged. -/
def send (root : Path) (ticket : Ticket) (request : AppendRequest) (p : Producer)
    (t : FileTree) : Except BrokerError Unit × Producer × FileTree :=
  if p.closed then (.error .closed, p, t)
  else if request.payload.toList.contains '\n' then (.error (.rejected lineBreakReason), p, t)
  else
    match p.writerFor root request.topic request.partition t with
    | (.error e, t) => (.error e, p, t)
    | (.ok w, t) =>
      let (offset, w, t) := w.writeLine (utf8 request.payload) t
      (.ok (),
        { p with
          writers := Assoc.put (request.topic, request.partition) w p.writers
          pending := p.pending ++ [(ticket, ⟨request.topic, request.partition, offset⟩)] },
        t)

/-- The answers to lines after storing them: their places, or the failure that kept them from being
stored. -/
def answers (synced : Except SystemError Unit) (pending : List (Ticket × Placement)) :
    List (Ticket × Ack) :=
  match synced with
  | .ok _ => pending.map fun w => (w.1, .ok w.2)
  | .error e => pending.map fun w => (w.1, .error (.rejected e.message))

/-- Stores all lines and answers them. -/
def settle (p : Producer) (t : FileTree) :
    Except BrokerError Unit × List (Ticket × Ack) × Producer × FileTree :=
  let (synced, writers, t) := p.writers.syncAll t
  let result : Except BrokerError Unit := match synced with
    | .ok _ => .ok ()
    | .error e => .error (.io e.message)
  (result, answers synced p.pending, { p with writers, pending := [] }, t)

/-- Stores all lines, if the producer is open. -/
def flush (p : Producer) (t : FileTree) :
    Except BrokerError Unit × List (Ticket × Ack) × Producer × FileTree :=
  if p.closed then (.error .closed, [], p, t) else p.settle t

/-- Stores all lines and lets go of the files. Only the first time counts. -/
def close (p : Producer) (t : FileTree) :
    Except BrokerError Unit × List (Ticket × Ack) × Producer × FileTree :=
  if p.closed then (.ok (), [], p, t)
  else
    let (result, acks, p, t) := p.settle t
    let (_, t) := p.writers.spillAll t
    (result, acks, { p with writers := [], closed := true }, t)

/-- Lets go of the files without storing them. The buffers still go to their files, and lines without
an acknowledgment are answered by the closing. -/
def drop (p : Producer) (t : FileTree) : List (Ticket × Ack) × Producer × FileTree :=
  let (_, t) := p.writers.spillAll t
  (p.pending.map fun w => (w.1, .error .closed), ⟨[], [], true⟩, t)

end Producer

end SchemaHistory.FileLog
