import SchemaHistory.Json.Expected

/-!
# Schema change records

A record is one schema change: a JSON object with what the change came from, where it stood
there, the database it applies to and the statements themselves. It is kept as the object
it was built or read as, so that writing a record that was read gives its members in the
order they had, and members nobody knows are kept.
-/

namespace SchemaHistory

/-- One recorded schema change. -/
structure Record where
  document : Members

/-- Why a payload is no record. -/
inductive RecordError
  /-- It is no JSON. -/
  | malformed (error : Json.Error)
  /-- It is a JSON value of another kind than an object. -/
  | notAnObject (kind : String)

/-- The wording of a record error. -/
def RecordError.message : RecordError → String
  | malformed e => "malformed history record: " ++ e.message
  | notAnObject kind => "history record must be a JSON object, found " ++ kind

namespace Record

/-- The member that tells where the change came from. -/
def sourceKey : String := "source"

/-- The member that tells where the change stood there. -/
def positionKey : String := "position"

/-- The member that names the database. -/
def databaseKey : String := "databaseName"

/-- The member that holds the statements. -/
def ddlKey : String := "ddl"

/-- The members of a new record; what is not given is left out. -/
def membersOf (source position : Members) (database ddl : Option String) : Members :=
  [(sourceKey, .object source), (positionKey, .object position)]
    ++ (database.map fun s => (databaseKey, Json.string s)).toList
    ++ (ddl.map fun s => (ddlKey, Json.string s)).toList

/-- A new record. -/
def ofChange (source position : Members) (database ddl : Option String) : Record :=
  ⟨membersOf source position database ddl⟩

/-- Reads a payload: any JSON value, which then has to be an object. -/
def parse (payload : List Char) : Except RecordError Record :=
  match Json.read payload with
  | .error e => .error (.malformed e)
  | .ok (.object document) => .ok ⟨document⟩
  | .ok other => .error (.notAnObject other.kind)

/-- Reads a text straight as an object. -/
def ofJson (text : List Char) : Except Json.Error Record :=
  (Json.readObject text).map Record.mk

/-- The characters of the payload. -/
def write (r : Record) : List Char := (Json.object r.document).write

/-- The single line that is stored on the log. -/
def payload (r : Record) : String := .ofList r.write

/-- The line that a listing of records shows. -/
def line (r : Record) : String := .ofList ('{' :: Json.writeMembers r.document ++ ['}'])

/-- What the change came from. -/
def source (r : Record) : Option Members := (r.document.get? sourceKey).bind Json.members?

/-- Where the change stood there. -/
def position (r : Record) : Option Members := (r.document.get? positionKey).bind Json.members?

/-- The database the change applies to. -/
def database (r : Record) : Option String := (r.document.get? databaseKey).bind Json.text?

/-- The statements of the change. -/
def ddl (r : Record) : Option String := (r.document.get? ddlKey).bind Json.text?

/-- Equality of contents. -/
def same (a b : Record) : Bool := (Json.object a.document).same (.object b.document)

end Record

end SchemaHistory
