import SchemaHistory.CommandLine.Run
import SchemaHistory.Settings.History

/-!
# The program

All that the program does is in `runCommand`, a function on a tree of files. What stands
here takes the files a command names from the system into a tree, and takes what the
command changed back: directories it made, and what it added at the end of files.
-/

namespace SchemaHistory

namespace Program

/-- A path of the tree as the system knows it. -/
def systemPath (place : Path) : String := "/" ++ FileTree.pathText place

/-- What the system has under a path. -/
def kindAt (place : Path) : IO (Option IO.FS.FileType) := do
  let path := (← IO.currentDir) / systemPath place
  try
    let found ← path.metadata
    return some found.type
  catch _ =>
    return none

/-- Takes what the system has under a path into a tree; of a directory its place only. -/
def loadPlace (files : FileTree) (place : Path) : IO FileTree := do
  match ← kindAt place with
  | none => return files
  | some .dir => return (files.makeDirectories place).2
  | some .file =>
    let bytes ← IO.FS.readBinFile (systemPath place)
    return (files.write place bytes.toList).2
  | some _ => return (files.linkNull place).2

/-- Takes all that stands on the way along a path into a tree. -/
def loadPath (files : FileTree) (path : Path) : IO FileTree := do
  let mut files := files
  let mut here : Path := []
  for name in path do
    if name = ".." then
      here := here.dropLast
    else if name ≠ "" ∧ name ≠ "." then
      here := here ++ [name]
      files ← loadPlace files here
  return files

/-- Takes all that stands below a directory into a tree. -/
partial def loadBelow (files : FileTree) (place : Path) : IO FileTree := do
  let directory := (← IO.currentDir) / systemPath place
  let mut files := files
  for entry in ← directory.readDir do
    let below := place ++ [entry.fileName]
    files ← loadPlace files below
    if files.isDirectory below then
      files ← loadBelow files below
  return files

/-- Takes the files that some arguments name into a tree. -/
def load (working : Path) (arguments : List String) : IO FileTree := do
  match Arguments.read arguments with
  | .error _ => return .empty
  | .ok a =>
    let files ← loadPath .empty (Command.resolve working a.config)
    let files ← loadPath files (Command.resolve working a.directory)
    match files.find (Command.resolve working a.directory) with
    | .ok (place, .directory) => loadBelow files place
    | _ => return files

/-- Gives the system what a command added to a tree. -/
def save (before after : FileTree) : IO Unit := do
  for (place, node) in after.nodes do
    match node with
    | .nullDevice => pure ()
    | .directory =>
      if !before.isDirectory place then IO.FS.createDirAll (systemPath place)
    | .file number =>
      let old := (before.read place).toOption
      let added := (after.bytes number).drop (old.getD []).length
      if old.isNone || !added.isEmpty then
        IO.FS.withFile (systemPath place) .append fun handle => do
          handle.write (ByteArray.mk added.toArray)
          handle.flush

/-- Runs a command on the files of the system. -/
def run (arguments : List String) : IO UInt32 := do
  let working := FileTree.namesOf (← IO.currentDir).toString
  let fresh := FreshName.ofBytes (← IO.getRandomBytes (USize.ofNat FreshName.size)).toList
  let before ← load working arguments
  match runCommand working fresh arguments before with
  | none =>
    IO.eprintln "the recovery does not end"
    return 1
  | some (outcome, after) =>
    save before after
    IO.print outcome.output
    IO.eprint outcome.errors
    return UInt32.ofNat outcome.exitCode

end Program

end SchemaHistory

/-- The entry of the program. -/
def main (arguments : List String) : IO UInt32 := SchemaHistory.Program.run arguments
