import SchemaHistory.KeyMap
import SchemaHistory.Text.Value

/-!
# Client settings

The settings handed to a producer or consumer are texts under keys. A client reads a
setting as a number, a truth value or a text after cutting off the blank around it, and
has a default for a setting that is absent. Shown in a log, the values of keys that speak
of passwords or secrets are masked.
-/

namespace SchemaHistory

/-- Settings of a log client. -/
structure ClientSettings where
  props : KeyMap String
  deriving BEq

/-- A setting that does not read as what it should be. -/
structure SettingError where
  key : String
  /-- Its value, as it was given. -/
  raw : String
  deriving DecidableEq

/-- The wording of a setting error. -/
def SettingError.message (e : SettingError) : String :=
  "`" ++ e.key ++ "` has unparseable value '" ++ e.raw ++ "'"

namespace ClientSettings

/-- No settings. -/
def empty : ClientSettings := ⟨.empty⟩

/-- The value of a setting. -/
def get? (c : ClientSettings) (key : String) : Option String := c.props.get? key

/-- Sets a setting. -/
def set (c : ClientSettings) (key value : String) : ClientSettings := ⟨c.props.insert key value⟩

/-- Sets a setting that is absent. -/
def setDefault (c : ClientSettings) (key value : String) : ClientSettings :=
  ⟨c.props.insertIfNew key value⟩

/-- Sets each of some settings that is absent. -/
def setDefaults (c : ClientSettings) (defaults : List (String × String)) : ClientSettings :=
  defaults.foldl (fun acc d => acc.setDefault d.1 d.2) c

/-- A setting as `read` understands it without the blank around it, or the default when it is
absent. -/
def getOr {α : Type} (c : ClientSettings) (read : List Char → Option α) (key : String)
    (default : α) : Except SettingError α :=
  match c.get? key with
  | none => .ok default
  | some raw =>
    match read (Text.trimChars raw.toList) with
    | some v => .ok v
    | none => .error ⟨key, raw⟩

/-- The two truth values, spelled exactly. -/
def readBool (cs : List Char) : Option Bool :=
  if cs = ['t', 'r', 'u', 'e'] then some true
  else if cs = ['f', 'a', 'l', 's', 'e'] then some false
  else none

/-- The rest of a key behind a prefix that it has. -/
def behindPrefix? (pre key : String) : Option String :=
  (pre.toList.isPrefixOf? key.toList).map String.ofList

/-- The settings under the keys that start with `pre`, without it. -/
def ofPrefix (pre : String) (props : KeyMap String) : ClientSettings :=
  ⟨.ofPairs (props.entries.filterMap fun e => (behindPrefix? pre e.1).map (·, e.2))⟩

/-- `part` occurs in a text. -/
def hasPart (part : List Char) : List Char → Bool
  | [] => part.isEmpty
  | c :: cs => part.isPrefixOf (c :: cs) || hasPart part cs

/-- A key whose value must not be shown. Upper and lower case of ASCII letters count alike. -/
def isSecret (key : String) : Bool :=
  let lower := key.toList.map Char.toLower
  hasPart "password".toList lower || hasPart "secret".toList lower

/-- What stands for the value of a secret. -/
def mask : String := "********"

/-- A setting as it is shown. -/
def maskedEntry (e : String × String) : String :=
  e.1 ++ "=" ++ (if isSecret e.1 then mask else e.2)

/-- The settings as they are shown: all keys in order, with secrets masked. -/
def masked (c : ClientSettings) : String :=
  "\x7b" ++ ", ".intercalate (c.props.entries.map maskedEntry) ++ "\x7d"

end ClientSettings

end SchemaHistory
