import SchemaHistory.Json.Scan

/-!
# Reading JSON values

A reader takes unread text and gives a value with the text behind it. Every reader that
answers has taken at least one character, and this is part of its type: lists and objects
of any length are read by recursion on the length of what is left. How deep brackets may
nest is a number that goes down by one inside each bracket.
-/

namespace SchemaHistory.Json

/-- A scanner that takes something whenever it answers. -/
structure Reader (α : Type) where
  /-- Reads one value from the unread text. -/
  run : List Char → Except Fault (α × List Char)
  /-- An answer leaves less text than there was. -/
  shorter : ∀ {s r : List Char} {v : α}, run s = .ok (v, r) → r.length < s.length

/-- What tells a list from an object: the closing bracket and the faults of each. -/
structure Bracket where
  close : Char
  unfinished : Cause
  noComma : Cause

/-- The brackets of a list. -/
def listBracket : Bracket := ⟨']', .unfinishedList, .noCommaInList⟩

/-- The brackets of an object. -/
def objectBracket : Bracket := ⟨'}', .unfinishedObject, .noCommaInObject⟩

/-- What stands behind a comma: something other than the closing bracket. -/
def scanAfterComma (b : Bracket) (s : List Char) : Except Fault (List Char) :=
  match skipSpace s with
  | [] => .error (.next .unfinishedValue [])
  | c :: rest =>
    if c = b.close then .error (.next .trailingComma (c :: rest)) else .ok (c :: rest)

theorem scanAfterComma_length_le {b : Bracket} {s r : List Char}
    (h : scanAfterComma b s = .ok r) : r.length ≤ s.length := by
  have hs := skipSpace_length_le s
  unfold scanAfterComma at h
  split at h
  · cases h
  · rename_i c rest hc
    rw [hc] at hs
    split at h <;> cases h
    exact hs

/-- Reads items with commas between them up to the closing bracket. There is at least one; those
read so far are in `acc`, the last one first. -/
def readItems {α : Type} (b : Bracket) (item : Reader α) (acc : List α) (s : List Char) :
    Except Fault (List α × List Char) :=
  match _hi : item.run s with
  | .error f => .error f
  | .ok (v, behind) =>
    match _hs : skipSpace behind with
    | [] => .error (.next b.unfinished [])
    | c :: rest =>
      if c = b.close then .ok ((v :: acc).reverse, rest)
      else if c = ',' then
        match _ha : scanAfterComma b rest with
        | .error f => .error f
        | .ok next => readItems b item (v :: acc) next
      else .error (.next b.noComma (c :: rest))
termination_by s.length
decreasing_by
  have h1 := item.shorter _hi
  have h2 := skipSpace_length_le behind
  have h3 := scanAfterComma_length_le _ha
  rw [_hs, List.length_cons] at h2
  omega

theorem readItems_length_lt {α : Type} {b : Bracket} {item : Reader α} {acc vs : List α}
    {s r : List Char} (h : readItems b item acc s = .ok (vs, r)) : r.length < s.length := by
  fun_induction readItems b item acc s with
  | case1 => cases h
  | case2 => cases h
  | case3 =>
    rename_i v behind hi rest hs
    cases h
    have h1 := item.shorter hi
    have h2 := skipSpace_length_le behind
    rw [hs, List.length_cons] at h2
    omega
  | case4 => cases h
  | case5 =>
    rename_i v behind hi rest next ha hs _ ih
    have h1 := item.shorter hi
    have h2 := skipSpace_length_le behind
    have h3 := scanAfterComma_length_le ha
    have h4 := ih h
    rw [hs, List.length_cons] at h2
    omega
  | case6 => cases h

/-- Reads what follows an opening bracket: nothing or items, and the closing bracket. -/
def readBracket {α : Type} (b : Bracket) (item : Reader α) (s : List Char) :
    Except Fault (List α × List Char) :=
  match skipSpace s with
  | [] => .error (.next b.unfinished [])
  | c :: rest => if c = b.close then .ok ([], rest) else readItems b item [] (c :: rest)

theorem readBracket_length_lt {α : Type} {b : Bracket} {item : Reader α} {vs : List α}
    {s r : List Char} (h : readBracket b item s = .ok (vs, r)) : r.length < s.length := by
  have hs := skipSpace_length_le s
  unfold readBracket at h
  split at h
  · cases h
  · rename_i c rest hc
    rw [hc] at hs
    split at h
    · cases h
      exact hs
    · exact Nat.lt_of_lt_of_le (readItems_length_lt h) hs

/-- Reads the colon between a key and its value. -/
def scanColon (s : List Char) : Except Fault (List Char) :=
  match skipSpace s with
  | [] => .error (.next .unfinishedObject [])
  | c :: rest => if c = ':' then .ok rest else .error (.next .noColon (c :: rest))

theorem scanColon_length_le {s r : List Char} (h : scanColon s = .ok r) :
    r.length ≤ s.length := by
  have hs := skipSpace_length_le s
  unfold scanColon at h
  split at h
  · cases h
  · rename_i c rest hc
    rw [hc, List.length_cons] at hs
    split at h <;> cases h
    omega

/-- Reads the key of a member, which starts at once, without the colon. -/
def scanKey : List Char → Except Fault (String × List Char)
  | [] => .error (.next .unfinishedValue [])
  | c :: rest => if c = '"' then scanString [] rest else .error (.next .keyNotText (c :: rest))

theorem scanKey_length_lt {s r : List Char} {k : String} (h : scanKey s = .ok (k, r)) :
    r.length < s.length := by
  cases s with
  | nil => simp [scanKey] at h
  | cons c rest =>
    simp only [scanKey] at h
    split at h
    · have := scanString_length_lt h
      simp; omega
    · cases h

/-- Reads a member: key, colon, value. -/
def readMember {α : Type} (value : Reader α) (s : List Char) :
    Except Fault ((String × α) × List Char) :=
  match scanKey s with
  | .error f => .error f
  | .ok (k, behind) =>
    match scanColon behind with
    | .error f => .error f
    | .ok next =>
      match value.run next with
      | .error f => .error f
      | .ok (v, rest) => .ok ((k, v), rest)

/-- The reader of members whose values `value` reads. -/
def member {α : Type} (value : Reader α) : Reader (String × α) where
  run := readMember value
  shorter := by
    intro s r v h
    unfold readMember at h
    split at h
    · cases h
    rename_i k behind hk
    split at h
    · cases h
    rename_i next hn
    split at h
    · cases h
    rename_i v rest hv
    cases h
    have h1 := scanKey_length_lt hk
    have h2 := scanColon_length_le hn
    have h3 := value.shorter hv
    omega

/-- Gives the value of a scan without the text behind it a new shape. -/
def mapScan {α β : Type} (f : α → β) :
    Except Fault (α × List Char) → Except Fault (β × List Char)
  | .error e => .error e
  | .ok (v, rest) => .ok (f v, rest)

theorem mapScan_eq_ok {α β : Type} {f : α → β} {x : Except Fault (α × List Char)} {w : β}
    {r : List Char} : mapScan f x = .ok (w, r) ↔ ∃ v, x = .ok (v, r) ∧ f v = w := by
  cases x with
  | error e => simp [mapScan]
  | ok p =>
    simp only [mapScan, Except.ok.injEq, Prod.ext_iff]
    constructor
    · rintro ⟨h1, h2⟩; exact ⟨p.1, ⟨rfl, h2⟩, h1⟩
    · rintro ⟨v, ⟨h1, h2⟩, h3⟩; exact ⟨by rw [h1]; exact h3, h2⟩

/-- A word that stands for one value. -/
def readWord (word : List Char) (v : Json) (s : List Char) : Except Fault (Json × List Char) :=
  match scanWord word s with
  | .error f => .error f
  | .ok rest => .ok (v, rest)

theorem readWord_length_le {word s r : List Char} {v w : Json}
    (h : readWord word v s = .ok (w, r)) : r.length ≤ s.length := by
  unfold readWord at h
  split at h
  · cases h
  · rename_i rest hw
    cases h
    exact scanWord_length_le hw

/-- Reads a value with blanks before it. What is inside brackets is read by `inner`; without it
no bracket may open. -/
def readValue (inner : Option (Reader Json)) (s : List Char) : Except Fault (Json × List Char) :=
  match skipSpace s with
  | [] => .error (.next .unfinishedValue [])
  | c :: rest =>
    if c = 'n' then readWord ['u', 'l', 'l'] .null rest
    else if c = 't' then readWord ['r', 'u', 'e'] (.boolean true) rest
    else if c = 'f' then readWord ['a', 'l', 's', 'e'] (.boolean false) rest
    else if c = '-' then mapScan .number (scanNumber true rest)
    else if isDigit c then mapScan .number (scanNumber false (c :: rest))
    else if c = '"' then mapScan .string (scanString [] rest)
    else if c = '[' then
      match inner with
      | none => .error (.next .tooDeep (c :: rest))
      | some item => mapScan .array (readBracket listBracket item rest)
    else if c = '{' then
      match inner with
      | none => .error (.next .tooDeep (c :: rest))
      | some item => mapScan (.object ∘ Assoc.ofPairs) (readBracket objectBracket (member item) rest)
    else .error (.next .noValue (c :: rest))

theorem readValue_length_lt {inner : Option (Reader Json)} {s r : List Char} {v : Json}
    (h : readValue inner s = .ok (v, r)) : r.length < s.length := by
  have hs := skipSpace_length_le s
  unfold readValue at h
  split at h
  · cases h
  rename_i c rest hc
  rw [hc, List.length_cons] at hs
  split at h
  · have := readWord_length_le h; omega
  split at h
  · have := readWord_length_le h; omega
  split at h
  · have := readWord_length_le h; omega
  split at h
  · obtain ⟨n, hn, _⟩ := mapScan_eq_ok.1 h
    have := scanNumber_length_lt hn; omega
  split at h
  · obtain ⟨n, hn, _⟩ := mapScan_eq_ok.1 h
    have := scanNumber_length_lt hn
    rw [List.length_cons] at this; omega
  split at h
  · obtain ⟨n, hn, _⟩ := mapScan_eq_ok.1 h
    have := scanString_length_lt hn; omega
  split at h
  · split at h
    · cases h
    · obtain ⟨n, hn, _⟩ := mapScan_eq_ok.1 h
      have := readBracket_length_lt hn; omega
  split at h
  · split at h
    · cases h
    · obtain ⟨n, hn, _⟩ := mapScan_eq_ok.1 h
      have := readBracket_length_lt hn; omega
  · cases h

/-- The reader of values whose brackets nest at most `depth` deep. -/
def value : Nat → Reader Json
  | 0 => ⟨readValue none, readValue_length_lt⟩
  | depth + 1 => ⟨readValue (some (value depth)), readValue_length_lt⟩

/-- How deep brackets may nest in a text that is read. -/
def maxDepth : Nat := 127

/-- Nothing but blanks may follow the value of a text. -/
def finish {α : Type} (text : List Char) :
    Except Fault (α × List Char) → Except Error α
  | .error f => .error (f.locate text)
  | .ok (v, rest) =>
    match skipSpace rest with
    | [] => .ok v
    | c :: behind => .error ((Fault.next .trailingText (c :: behind)).locate text)

/-- Reads a whole text as one value. -/
def read (text : List Char) : Except Error Json := finish text ((value maxDepth).run text)

end SchemaHistory.Json
