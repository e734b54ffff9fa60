import SchemaHistory.Settings.Client
import SchemaHistory.Json.Skip
import SchemaHistory.Json.Expected

/-!
# Client settings as JSON

Settings are written as an object with the one field `props`, an object of texts in the
order of the keys. They are read from such an object, in which other fields are passed
over, or from a list whose one item is the object of texts.
-/

namespace SchemaHistory.ClientSettings

open Json

/-- The field that holds the settings. -/
def propsField : String := "props"

/-- The settings as a JSON value. -/
def toJson (c : ClientSettings) : Json :=
  .object [(propsField, .object (c.props.entries.map fun e => (e.1, .string e.2)))]

/-- How a message calls the kind of value that settings are read from. -/
def wanted : String := "struct ClientConfig"

/-- Where a repeated field is reported: behind the blanks that follow its key, and behind a
closing bracket that follows these. -/
def repeatedPropsFault (s : List Char) : Fault :=
  match skipSpace s with
  | [] => .behind (.repeatedField propsField) []
  | c :: rest =>
    if c = '}' then .behind (.repeatedField propsField) rest
    else .behind (.repeatedField propsField) (c :: rest)

/-- Reads the value of a field whose key was `key`. The first component tells the settings found
so far. -/
def readField (found : Option (KeyMap String)) (key : String) (s : List Char) :
    Except Fault (Option (KeyMap String) × List Char) :=
  if key = propsField then
    if found.isSome then .error (repeatedPropsFault s)
    else
      match scanColon s with
      | .error f => .error f
      | .ok next => mapScan (some ∘ KeyMap.ofPairs) (readMap textReader next)
  else
    match scanColon s with
    | .error f => .error f
    | .ok next =>
      match skipValue [] next with
      | .error f => .error f
      | .ok rest => .ok (found, rest)

theorem readField_length_le {found found' : Option (KeyMap String)} {key : String}
    {s r : List Char} (h : readField found key s = .ok (found', r)) : r.length ≤ s.length := by
  unfold readField at h
  split at h
  · split at h
    · cases h
    split at h
    · cases h
    · rename_i next hn
      obtain ⟨_, hm, _⟩ := mapScan_eq_ok.1 h
      have h1 := scanColon_length_le hn
      have h2 := readMap_length_lt hm
      omega
  · split at h
    · cases h
    rename_i next hn
    split at h
    · cases h
    · rename_i rest hr
      cases h
      have h1 := scanColon_length_le hn
      have h2 := skipValue_length_lt hr
      omega

/-- The settings of an object that has ended, which must have been there. -/
def requireProps (found : Option (KeyMap String)) (rest : List Char) :
    Except Fault (ClientSettings × List Char) :=
  match found with
  | some props => .ok (⟨props⟩, rest)
  | none => .error (.behind (.missingField propsField) rest)

/-- Reads the fields of an object up to its closing bracket. There is at least one. -/
def readFields (found : Option (KeyMap String)) (s : List Char) :
    Except Fault (ClientSettings × List Char) :=
  match _hk : scanKey s with
  | .error f => .error f
  | .ok (key, behind) =>
    match _hf : readField found key behind with
    | .error f => .error f
    | .ok (found, behind) =>
      match _hs : skipSpace behind with
      | [] => .error (.next .unfinishedObject [])
      | c :: rest =>
        if c = '}' then requireProps found rest
        else if c = ',' then
          match _ha : scanAfterComma objectBracket rest with
          | .error f => .error f
          | .ok next => readFields found next
        else .error (.next .noCommaInObject (c :: rest))
termination_by s.length
decreasing_by
  have h1 := scanKey_length_lt _hk
  have h2 := readField_length_le _hf
  have h3 := skipSpace_length_le behind
  have h4 := scanAfterComma_length_le _ha
  rw [_hs, List.length_cons] at h3
  omega

/-- Reads what follows the bracket of an object. -/
def readFromObject (s : List Char) : Except Fault (ClientSettings × List Char) :=
  match skipSpace s with
  | [] => .error (.next .unfinishedObject [])
  | c :: rest => if c = '}' then requireProps none rest else readFields none (c :: rest)

/-- Reads the end of a list that has had its one item. -/
def finishList (props : KeyMap String) (s : List Char) :
    Except Fault (ClientSettings × List Char) :=
  match skipSpace s with
  | [] => .error (.next .unfinishedList [])
  | c :: rest =>
    if c = ']' then .ok (⟨props⟩, rest)
    else if c = ',' then
      let behind := skipSpace rest
      .error (.next (if behind.head? == some ']' then .trailingComma else .trailingText) behind)
    else .error (.next .trailingText (c :: rest))

/-- Reads what follows the bracket of a list. -/
def readFromList (s : List Char) : Except Fault (ClientSettings × List Char) :=
  match skipSpace s with
  | [] => .error (.next .unfinishedList [])
  | c :: rest =>
    if c = ']' then .error (.behind (.wrongLength 0 (wanted ++ " with 1 element")) rest)
    else
      match readMap textReader (c :: rest) with
      | .error f => .error f
      | .ok (pairs, behind) => finishList (.ofPairs pairs) behind

/-- Reads settings from unread text. -/
def readSettings (s : List Char) : Except Fault (ClientSettings × List Char) :=
  match skipSpace s with
  | [] => .error (.next .unfinishedValue [])
  | c :: rest =>
    if c = '{' then readFromObject rest
    else if c = '[' then readFromList rest
    else .error (mismatch wanted (c :: rest))

/-- Reads a whole text as settings. -/
def ofJson (text : List Char) : Except Json.Error ClientSettings :=
  finish text (readSettings text)

end SchemaHistory.ClientSettings
