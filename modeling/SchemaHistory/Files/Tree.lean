import SchemaHistory.Collections
import SchemaHistory.Text.Utf8

/-!
# A tree of files

Directories are listed with their paths. A file is a number under a path; the contents stand
under the number, so that whoever has a file open keeps it when the path goes away. There
may also be links to the device that takes everything and gives nothing. Each operation
fails as the system does, and the failures have the system's wording.
-/

namespace SchemaHistory

open Text

/-- Why the system refused. -/
inductive SystemError
  /-- There is nothing under the path. -/
  | noEntry
  /-- There is something under the path already. -/
  | alreadyExists
  /-- Something on the way, or at its end, is no directory. -/
  | notDirectory
  /-- A directory cannot be read as a file. -/
  | isDirectory
  /-- The device cannot do this. -/
  | invalidArgument
  | nameTooLong
  deriving DecidableEq

/-- The wording of the system's refusals. -/
def SystemError.message : SystemError → String
  | noEntry => "No such file or directory (os error 2)"
  | alreadyExists => "File exists (os error 17)"
  | notDirectory => "Not a directory (os error 20)"
  | isDirectory => "Is a directory (os error 21)"
  | invalidArgument => "Invalid argument (os error 22)"
  | nameTooLong => "File name too long (os error 36)"

/-- Names from the top of the tree down. -/
abbrev Path := List String

/-- What stands under a path. -/
inductive Node
  | directory
  | file (number : Nat)
  /-- A link to the device that takes everything and gives nothing. -/
  | nullDevice
  deriving DecidableEq

/-- What is open for writing. -/
inductive Handle
  | file (number : Nat)
  /-- The device that takes everything. -/
  | nullDevice
  deriving DecidableEq

/-- A tree of files. The top is a directory that is not listed. -/
structure FileTree where
  /-- What stands under each path. -/
  nodes : Assoc Path Node
  /-- The contents of each file by its number. -/
  contents : Registry Bytes

namespace FileTree

/-- The tree with nothing below its top. -/
def empty : FileTree := ⟨[], .empty⟩

/-! ## Finding the way -/

/-- The longest name, in bytes. -/
def maxName : Nat := 255

/-- Goes on from a path, where `node` stands, along some names. Empty names and `.` stay where they
are and `..` goes up; the top is above itself. -/
def walk (t : FileTree) (path : Path) (node : Node) : List String → Except SystemError (Path × Node)
  | [] => .ok (path, node)
  | name :: rest =>
    if node ≠ .directory then .error .notDirectory
    else if name = "" ∨ name = "." then walk t path .directory rest
    else if name = ".." then walk t path.dropLast .directory rest
    else if maxName < name.utf8ByteSize then .error .nameTooLong
    else
      match Assoc.get? t.nodes (path ++ [name]) with
      | none => .error .noEntry
      | some n => walk t (path ++ [name]) n rest

/-- What stands under a path, and the path without detours. -/
def find (t : FileTree) (path : Path) : Except SystemError (Path × Node) :=
  t.walk [] .directory path

/-- A directory stands under the path. -/
def isDirectory (t : FileTree) (path : Path) : Bool :=
  match t.find path with
  | .ok (_, .directory) => true
  | _ => false

/-- Where a name in a directory stands, whether there is something or not. -/
def place (t : FileTree) (parent : Path) (name : String) : Except SystemError Path :=
  match t.find parent with
  | .error e => .error e
  | .ok (path, node) =>
    if node ≠ .directory then .error .notDirectory
    else if maxName < name.utf8ByteSize then .error .nameTooLong
    else .ok (path ++ [name])

/-! ## Directories -/

/-- A path without the names at its end for which `drop` holds. -/
def dropEnd (drop : String → Bool) (path : Path) : Path := (path.reverse.dropWhile drop).reverse

/-- Makes a directory in one that is there. Empty names at the end of its path do not count. -/
def makeDirectory (t : FileTree) (path : Path) : Except SystemError Unit × FileTree :=
  let path := dropEnd (· = "") path
  match path.getLast? with
  | none => (.error .alreadyExists, t)
  | some name =>
    if name = "" ∨ name = "." ∨ name = ".." then
      match t.find path with
      | .error e => (.error e, t)
      | .ok _ => (.error .alreadyExists, t)
    else
      match t.place path.dropLast name with
      | .error e => (.error e, t)
      | .ok new =>
        match Assoc.get? t.nodes new with
        | some _ => (.error .alreadyExists, t)
        | none => (.ok (), { t with nodes := Assoc.put new .directory t.nodes })

/-- A directory that could not be made because it is there is as good as one that was made. -/
def settleDirectory (path : Path) :
    Except SystemError Unit × FileTree → Except SystemError Unit × FileTree
  | (.ok _, t) => (.ok (), t)
  | (.error e, t) => if t.isDirectory path then (.ok (), t) else (.error e, t)

/-- A path without the names at its end that stay where they are. -/
def settled (path : Path) : Path := dropEnd (fun name => name = "" ∨ name = ".") path

/-- The path of the directory above, where a name at the end that stays where it is does not count:
above `a/.` is what is above `a`. -/
def parent (path : Path) : Path := settled (settled path).dropLast

/-- Makes a directory and at most `above` missing ones above it. -/
def makeDirectoriesUpTo (t : FileTree) (path : Path) : Nat → Except SystemError Unit × FileTree
  | 0 => settleDirectory path (t.makeDirectory path)
  | above + 1 =>
    match t.makeDirectory path with
    | (.error .noEntry, t) =>
      match makeDirectoriesUpTo t (parent path) above with
      | (.error e, t) => (.error e, t)
      | (.ok _, t) => settleDirectory path (t.makeDirectory path)
    | other => settleDirectory path other

/-- Makes a directory and those above it that are missing. -/
def makeDirectories (t : FileTree) (path : Path) : Except SystemError Unit × FileTree :=
  t.makeDirectoriesUpTo path path.length

/-- The names in a directory, in the order in which they came. -/
def list (t : FileTree) (path : Path) : Except SystemError (List String) :=
  match t.find path with
  | .error e => .error e
  | .ok (path, .directory) =>
    .ok (t.nodes.filterMap fun n => if n.1.dropLast = path then n.1.getLast? else none)
  | .ok _ => .error .notDirectory

/-! ## Files -/

/-- The bytes of a file. -/
def bytes (t : FileTree) (number : Nat) : Bytes := (t.contents.get? number).getD []

/-- What reading finds at a node. -/
def readNode (t : FileTree) : Node → Except SystemError Bytes
  | .directory => .error .isDirectory
  | .file number => .ok (t.bytes number)
  | .nullDevice => .ok []

/-- The contents under a path. -/
def read (t : FileTree) (path : Path) : Except SystemError Bytes :=
  match t.find path with
  | .error e => .error e
  | .ok (_, node) => t.readNode node

/-- Makes an empty file in a directory that is there, where nothing stands. -/
def makeFile (t : FileTree) (path : Path) : Except SystemError Handle × FileTree :=
  match t.place path.dropLast (path.getLast?.getD "") with
  | .error e => (.error e, t)
  | .ok new =>
    (.ok (.file t.contents.size),
      ⟨Assoc.put new (.file t.contents.size) t.nodes, t.contents.add []⟩)

/-- Why a path that ends in an empty name, as directories may, cannot be opened for writing. -/
def directoryError (t : FileTree) (path : Path) : SystemError :=
  match t.place (dropEnd (· = "") path).dropLast "" with
  | .error e => e
  | .ok _ => .isDirectory

/-- Opens a path for writing at the end. A missing file is made. -/
def openAppend (t : FileTree) (path : Path) : Except SystemError Handle × FileTree :=
  if path.getLast? = some "" then (.error (t.directoryError path), t)
  else
    match t.find path with
    | .ok (_, .directory) => (.error .isDirectory, t)
    | .ok (_, .file number) => (.ok (.file number), t)
    | .ok (_, .nullDevice) => (.ok .nullDevice, t)
    | .error .noEntry => t.makeFile path
    | .error e => (.error e, t)

/-- Adds bytes at the end of what is open. -/
def append (t : FileTree) (h : Handle) (bs : Bytes) : FileTree :=
  match h with
  | .nullDevice => t
  | .file number => { t with contents := t.contents.modify number (· ++ bs) }

/-- Replaces the contents of what is open. -/
def overwrite (t : FileTree) (h : Handle) (bs : Bytes) : FileTree :=
  match h with
  | .nullDevice => t
  | .file number => { t with contents := t.contents.set number bs }

/-- Makes sure that what is open is stored. The device cannot do this. -/
def sync : Handle → Except SystemError Unit
  | .file _ => .ok ()
  | .nullDevice => .error .invalidArgument

/-- Opens a path for writing, with the directories above it, and does something with it. -/
def withFile (t : FileTree) (path : Path) (f : FileTree → Handle → FileTree) :
    Except SystemError Unit × FileTree :=
  match t.makeDirectories path.dropLast with
  | (.error e, t) => (.error e, t)
  | (.ok _, t) =>
    match t.openAppend path with
    | (.error e, t) => (.error e, t)
    | (.ok h, t) => (.ok (), f t h)

/-- Writes a whole file, with the directories above it. -/
def write (t : FileTree) (path : Path) (bs : Bytes) : Except SystemError Unit × FileTree :=
  t.withFile path fun t h => t.overwrite h bs

/-- Adds bytes at the end of a file. -/
def appendTo (t : FileTree) (path : Path) (bs : Bytes) : Except SystemError Unit × FileTree :=
  t.withFile path fun t h => t.append h bs

/-- Removes what stands under a path, with all below it. Files that are open stay. -/
def remove (t : FileTree) (path : Path) : Except SystemError Unit × FileTree :=
  match t.find path with
  | .error e => (.error e, t)
  | .ok (path, _) => (.ok (), { t with nodes := t.nodes.filter fun n => !path.isPrefixOf n.1 })

/-- Puts a link to the device that takes everything under a path. -/
def linkNull (t : FileTree) (path : Path) : Except SystemError Unit × FileTree :=
  match t.makeDirectories path.dropLast with
  | (.error e, t) => (.error e, t)
  | (.ok _, t) =>
    match t.place path.dropLast (path.getLast?.getD "") with
    | .error e => (.error e, t)
    | .ok new =>
      match Assoc.get? t.nodes new with
      | some _ => (.error .alreadyExists, t)
      | none => (.ok (), { t with nodes := Assoc.put new .nullDevice t.nodes })

/-! ## Paths and trees as texts -/

/-- A path as one text. -/
def pathText (p : Path) : String := "/".intercalate p

/-- The names of a path that is given as one text. -/
def namesOf (s : String) : Path := s.splitOn "/"

/-- What a listing shows of a node: the contents of what is no directory. -/
def shown (t : FileTree) : Node → Option Bytes
  | .directory => none
  | .file number => some (t.bytes number)
  | .nullDevice => some []

/-- How many bytes the files below the top hold. -/
def volume (t : FileTree) : Nat :=
  t.nodes.foldl (fun total n => total + ((t.shown n.2).getD []).length) 0

/-- Everything below the top, in the order of the texts of the paths. -/
def listing (t : FileTree) : List (String × Option Bytes) :=
  (t.nodes.map fun n => (pathText n.1, t.shown n.2)).mergeSort fun a b => a.1 ≤ b.1

end FileTree

end SchemaHistory
