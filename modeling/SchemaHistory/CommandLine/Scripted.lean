import SchemaHistory.CommandLine.Change

/-!
# A recorder whose answers are written down

Each call takes the next answer of a list for calls of its kind; when the list is used up,
calls succeed. The calls are noted in the order in which they are made.
-/

namespace SchemaHistory

/-- A call to a recorder. -/
inductive RecorderCall
  | start
  | record (change : Record)
  | stop

/-- How a call is noted. -/
def RecorderCall.text : RecorderCall → String
  | start => "start"
  | record change => "record " ++ change.payload
  | stop => "stop"

/-- A recorder that answers by a script; nothing stands for success. -/
structure ScriptedRecorder where
  /-- The answers to starts that are left. -/
  starts : List (Option HistoryError)
  /-- The answers to changes that are left. -/
  records : List (Option HistoryError)
  /-- The answers to stops that are left. -/
  stops : List (Option HistoryError)
  calls : List RecorderCall

namespace ScriptedRecorder

/-- A recorder before its first call. -/
def ofAnswers (starts records stops : List (Option HistoryError)) : ScriptedRecorder :=
  ⟨starts, records, stops, []⟩

/-- The first of some answers. -/
def next : List (Option HistoryError) → Except HistoryError Unit
  | some e :: _ => .error e
  | _ => .ok ()

/-- The operations of a scripted recorder. -/
def recorder : Recorder ScriptedRecorder where
  start s := (next s.starts, { s with starts := s.starts.tail, calls := s.calls ++ [.start] })
  record source position database ddl s :=
    (next s.records,
      { s with
        records := s.records.tail
        calls := s.calls ++ [.record (.ofChange source position database (some ddl))] })
  stop s := (next s.stops, { s with stops := s.stops.tail, calls := s.calls ++ [.stop] })

end ScriptedRecorder

end SchemaHistory
