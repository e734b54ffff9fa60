import SchemaHistory.Files.Tree
import SchemaHistory.Log.Basic
import SchemaHistory.Text.Value
import SchemaHistory.Text.Utf8

/-!
# Partitions as files

A topic is a directory below the root of the log and a partition is a file in it. A topic is
named by ASCII letters, digits, points, underscores and hyphens, so that its name is one
name of a path. The file of a partition has the decimal number of the partition and an
ending; reading the number back accepts every spelling of an integer of 32 bits.

The file holds one entry on each line; the offset of an entry is the number of its line. A
line counts once its line feed is there, so what follows the last line feed is a line still
being written. Three things are counted here: the lines of a whole file, where the next line
starts, and how far a reader with a limit has come.
-/

namespace SchemaHistory.FileLog

/-! ## Names of topics and partitions -/

/-- What a topic may be named with. -/
def isTopicChar (c : Char) : Bool :=
  ('a' ≤ c && c ≤ 'z') || ('A' ≤ c && c ≤ 'Z') || ('0' ≤ c && c ≤ '9') ||
    c = '.' || c = '_' || c = '-'

/-- A text that can name a topic: no empty one and none that stands for a directory itself. -/
def isTopicName (topic : String) : Bool :=
  topic ≠ "" && topic ≠ "." && topic ≠ ".." && topic.toList.all isTopicChar

/-- The ending of the file of a partition. -/
def ending : List Char := ['.', 'l', 'o', 'g']

/-- The name of the file of a partition. -/
def partitionName (partition : Int) : String := .ofList (Text.ofInt partition ++ ending)

/-- The part of a text before an ending that it has. -/
def beforeEnding? (e cs : List Char) : Option (List Char) :=
  (e.reverse.isPrefixOf? cs.reverse).map List.reverse

/-- The number that the name of a file gives, if the file is one of a partition. -/
def partitionOf? (name : String) : Option Int :=
  (beforeEnding? ending name.toList).bind (Text.integer? (-0x80000000) 0x7FFFFFFF)

/-- The directory of a topic. -/
def topicPath (root : Path) (topic : String) : Except BrokerError Path :=
  if isTopicName topic then .ok (root ++ [topic]) else .error (.invalidTopic topic)

/-- The file of a partition. -/
def partitionPath (root : Path) (topic : String) (partition : Int) : Except BrokerError Path :=
  if partition < 0 then .error (.unknownPartition topic partition)
  else (topicPath root topic).map (· ++ [partitionName partition])

/-! ## Lines of a partition -/

open Text

/-- The byte that ends a line. -/
def lineFeed : UInt8 := 10

/-- How many line feeds there are. -/
def lineCount (bs : Bytes) : Nat := bs.count lineFeed

/-- Something follows the last line feed. -/
def isTorn (bs : Bytes) : Bool :=
  match bs.getLast? with
  | some b => b ≠ lineFeed
  | none => false

/-- The bytes before the first line feed, if there is one, and those behind it. -/
def splitLine? : Bytes → Option (Bytes × Bytes)
  | [] => none
  | b :: rest =>
    if b = lineFeed then some ([], rest)
    else (splitLine? rest).map fun p => (b :: p.1, p.2)

/-- How far a reader has come in a file. -/
structure Cursor where
  /-- The bytes that were read. -/
  byte : Nat
  /-- The lines that were read. -/
  offset : Nat
  deriving DecidableEq

/-- The cursor at the start of a file. -/
def Cursor.zero : Cursor := ⟨0, 0⟩

/-- The number of bytes up to the last line feed, and with it. -/
def completeBytes (bs : Bytes) : Nat := (bs.reverse.dropWhile (· ≠ lineFeed)).length

/-- The cursor behind all lines of a file. -/
def endOf (bs : Bytes) : Cursor :=
  let complete := completeBytes bs
  ⟨complete, lineCount (bs.take complete)⟩

/-- Reads lines, `limit` at most, from bytes that start at the cursor. -/
def readLines (limit : Nat) (c : Cursor) (bs : Bytes) : List Bytes × Cursor :=
  match limit with
  | 0 => ([], c)
  | limit + 1 =>
    match splitLine? bs with
    | none => ([], c)
    | some (line, rest) =>
      let (lines, c) := readLines limit ⟨c.byte + (line.length + 1), c.offset + 1⟩ rest
      (line :: lines, c)

/-- Reads lines of a file from a cursor on. -/
def readFrom (limit : Nat) (c : Cursor) (file : Bytes) : List Bytes × Cursor :=
  readLines limit c (file.drop c.byte)

/-- Lines from an offset on, as a poll hands them over. -/
def entriesOf (topic : String) (partition : Int) (offset : Nat) (lines : List Bytes) :
    List Entry :=
  lines.mapIdx fun i line =>
    ⟨topic, partition, offset + i, none, .ofList (decodeLossy line)⟩

end SchemaHistory.FileLog
