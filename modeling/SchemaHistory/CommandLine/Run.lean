import SchemaHistory.CommandLine.Arguments
import SchemaHistory.CommandLine.Change
import SchemaHistory.CommandLine.PropertyFile
import SchemaHistory.Log.File.Broker

/-!
# Running a command

A command reads its properties from a file and works on the log in a directory; both are
paths in one tree of files, as seen from a working directory. It ends with an exit code
and with what it shows; what it stored is in the tree afterwards.
-/

namespace SchemaHistory

/-- How a command ended. -/
inductive Outcome
  /-- The arguments could not be understood. -/
  | usage (error : UsageError)
  | failed (failure : Failure)
  /-- All was done, and this was shown. -/
  | done (shown : String)

namespace Outcome

/-- The code that tells the caller how a command ended. -/
def exitCode : Outcome → Nat
  | done _ => 0
  | failed _ => 1
  | usage _ => 2

/-- What goes to the standard output. -/
def output : Outcome → String
  | done shown => shown
  | _ => ""

/-- What goes to the standard error stream. -/
def errors : Outcome → String
  | done _ => ""
  | failed f => f.report
  | usage e => "error: " ++ e.message ++ "\n"

end Outcome

namespace Command

/-- The names of a path that is seen from a working directory. -/
def resolve (working : Path) (path : String) : Path :=
  if path.startsWith "/" then FileTree.namesOf path else working ++ FileTree.namesOf path

/-- The settings in a file of a tree. -/
def settings (working : Path) (config fresh : String) (files : FileTree) :
    Except Failure HistorySettings :=
  match PropertyFile.read (files.read (resolve working config)) with
  | .error e => .error (e.failure config)
  | .ok props =>
    match HistorySettings.ofProperties props fresh with
    | .error problems => .error (.plain (PropertyProblem.message problems))
    | .ok settings => .ok settings

/-- What is shown of a recovery: each record on a line. -/
def shown (r : Recovery) : String := String.join (r.records.map fun record => record.line ++ "\n")

/-- How the recording of a change ended. -/
def changeOutcome : Except ChangeError Unit → Outcome
  | .ok _ => .done ""
  | .error e => .failed e.failure

/-- How a recovery ended. -/
def recoverOutcome : Except HistoryError Recovery → Outcome
  | .ok r => .done (shown r)
  | .error e => .failed e.failure

/-- How many polls a recovery from files takes at most. A poll that finds entries takes bytes that no
later one takes, and behind each such poll and at the start there are fewer polls than `attempts`
that find nothing, or the recovery ends. -/
def pollBound (attempts : Nat) (files : FileTree) : Nat := (files.volume + 1) * (attempts + 1)

/-- Does what a command asks for, with a history on a log in files. -/
def execute (settings : HistorySettings) (root : Path) (command : Command) (files : FileTree) :
    Option (Outcome × FileTree) :=
  let host := FileLog.clients.host
  let (signal, world) := (World.ofLog (FileLog.ofTree root files)).addSignal
  let history := History.make settings signal
  match command with
  | .record c =>
    let (result, _, world) := (Recorder.ofHistory host).change (Attribute.document c.source)
      (Attribute.document c.position) c.database c.ddl (history, world)
    some (changeOutcome result, world.log.files)
  | .recover =>
    (history.recover host (pollBound settings.attempts files) world).map fun r =>
      (recoverOutcome r.1, r.2.2.log.files)

end Command

/-- Runs the command line. `fresh` names the clients where the properties do not. There would be no
result for a recovery that takes more polls than `pollBound`. -/
def runCommand (working : Path) (fresh : String) (arguments : List String) (files : FileTree) :
    Option (Outcome × FileTree) :=
  match Arguments.read arguments with
  | .error e => some (.usage e, files)
  | .ok a =>
    match Command.settings working a.config fresh files with
    | .error f => some (.failed f, files)
    | .ok settings =>
      Command.execute settings (Command.resolve working a.directory) a.command files

end SchemaHistory
