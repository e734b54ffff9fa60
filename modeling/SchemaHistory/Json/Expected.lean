import SchemaHistory.Json.Reader

/-!
# Reading a value of a wanted kind

Where an object or a text is wanted, a value of another kind is a fault of its own. A
scalar is read first and the fault stands behind it, so that a scalar which is faulty
itself says so; a list or an object is not entered and the fault stands before it.
-/

namespace SchemaHistory.Json

/-- The fault of a value that was read where another kind was wanted. -/
def mismatchOf (wanted : String) : Except Fault (Found × List Char) → Fault
  | .error f => f
  | .ok (found, rest) => .behind (.mismatch found wanted) rest

/-- The fault of a value of another kind than the wanted one. -/
def mismatch (wanted : String) (s : List Char) : Fault :=
  match s with
  | [] => .next .unfinishedValue []
  | c :: rest =>
    if c = 'n' then mismatchOf wanted ((scanWord ['u', 'l', 'l'] rest).map (Found.null, ·))
    else if c = 't' then
      mismatchOf wanted ((scanWord ['r', 'u', 'e'] rest).map (Found.boolean true, ·))
    else if c = 'f' then
      mismatchOf wanted ((scanWord ['a', 'l', 's', 'e'] rest).map (Found.boolean false, ·))
    else if c = '-' then mismatchOf wanted (mapScan .number (scanNumber true rest))
    else if isDigit c then mismatchOf wanted (mapScan .number (scanNumber false s))
    else if c = '"' then mismatchOf wanted (mapScan .string (scanString [] rest))
    else if c = '[' then .behind (.mismatch .sequence wanted) s
    else if c = '{' then .behind (.mismatch .map wanted) s
    else .next .noValue s

/-- Reads an object with values read by `value` and gives its pairs as they stand. -/
def readMap {α : Type} (value : Reader α) (s : List Char) :
    Except Fault (List (String × α) × List Char) :=
  match skipSpace s with
  | [] => .error (.next .unfinishedValue [])
  | c :: rest =>
    if c = '{' then readBracket objectBracket (member value) rest
    else .error (mismatch "a map" (c :: rest))

theorem readMap_length_lt {α : Type} {value : Reader α} {s r : List Char}
    {ps : List (String × α)} (h : readMap value s = .ok (ps, r)) : r.length < s.length := by
  have hs := skipSpace_length_le s
  unfold readMap at h
  split at h
  · cases h
  rename_i c rest hc
  rw [hc, List.length_cons] at hs
  split at h
  · have := readBracket_length_lt h; omega
  · cases h

/-- Reads a text. -/
def readText (s : List Char) : Except Fault (String × List Char) :=
  match skipSpace s with
  | [] => .error (.next .unfinishedValue [])
  | c :: rest =>
    if c = '"' then scanString [] rest else .error (mismatch "a string" (c :: rest))

theorem readText_length_lt {s r : List Char} {v : String} (h : readText s = .ok (v, r)) :
    r.length < s.length := by
  have hs := skipSpace_length_le s
  unfold readText at h
  split at h
  · cases h
  rename_i c rest hc
  rw [hc, List.length_cons] at hs
  split at h
  · have := scanString_length_lt h; omega
  · cases h

/-- The reader of texts. -/
def textReader : Reader String where
  run := readText
  shorter := readText_length_lt

/-- Reads a whole text as one object and gives its pairs as they stand. The object itself is the
first level of nesting. -/
def readPairs (text : List Char) : Except Error (List (String × Json)) :=
  finish text (readMap (value (maxDepth - 1)) text)

/-- Reads a whole text as one object. -/
def readObject (text : List Char) : Except Error Members :=
  (readPairs text).map Assoc.ofPairs

end SchemaHistory.Json
