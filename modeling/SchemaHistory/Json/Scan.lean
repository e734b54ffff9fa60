import SchemaHistory.Json.Fault
import SchemaHistory.Text.Value

/-!
# Words, texts and numbers of JSON

Each scanner takes the unread text and gives what it read together with the text that is
left, which is shorter. The lemmas at the end of each part say so; they are what the
readers of nested values end by.
-/

namespace SchemaHistory.Json

open Decimal

/-- The blanks between tokens: space, tab, line feed and carriage return. -/
def isSpace (c : Char) : Bool := c = ' ' || c = '\t' || c = '\n' || c = '\r'

/-- The text from its first character that is no blank. -/
def skipSpace (s : List Char) : List Char := s.dropWhile isSpace

theorem skipSpace_length_le (s : List Char) : (skipSpace s).length ≤ s.length :=
  (List.dropWhile_suffix _).length_le

/-! ## Words -/

/-- Reads the rest of a word letter by letter. -/
def scanWord : List Char → List Char → Except Fault (List Char)
  | [], s => .ok s
  | _ :: _, [] => .error (.behind .unfinishedValue [])
  | e :: es, c :: rest =>
    if c = e then scanWord es rest else .error (.next .noWord (c :: rest))

theorem scanWord_length_le {w s r : List Char} (h : scanWord w s = .ok r) :
    r.length ≤ s.length := by
  induction w generalizing s with
  | nil => simp [scanWord] at h; simp [h]
  | cons e es ih =>
    cases s with
    | nil => simp [scanWord] at h
    | cons c rest =>
      simp only [scanWord] at h
      split at h
      · have := ih h
        simp; omega
      · cases h

/-! ## Texts -/

/-- The value of a hexadecimal digit of either case. -/
def hexDigit? (c : Char) : Option Nat :=
  if '0' ≤ c ∧ c ≤ '9' then some (c.toNat - '0'.toNat)
  else if 'a' ≤ c ∧ c ≤ 'f' then some (c.toNat - 'a'.toNat + 10)
  else if 'A' ≤ c ∧ c ≤ 'F' then some (c.toNat - 'A'.toNat + 10)
  else none

/-- Reads four hexadecimal digits as one number. Four bytes are taken before they are looked
at, so a text with fewer bytes is unfinished whatever they are. -/
def scanUnit (s : List Char) : Except Fault (Nat × List Char) :=
  if Text.byteCount (s.take 4) < 4 then .error (.behind .unfinishedString [])
  else
    match (s.take 4).mapM hexDigit? with
    | some [a, b, c, d] => .ok (((a * 16 + b) * 16 + c) * 16 + d, s.drop 4)
    | _ => .error ⟨.badEscape, s, 4⟩

theorem scanUnit_length_le {s r : List Char} {n : Nat} (h : scanUnit s = .ok (n, r)) :
    r.length ≤ s.length := by
  unfold scanUnit at h
  split at h
  · cases h
  · split at h
    · cases h; simp
    · cases h

/-- The first number of a surrogate pair. -/
def isHighSurrogate (n : Nat) : Bool := 0xD800 ≤ n && n ≤ 0xDBFF

/-- The second number of a surrogate pair. -/
def isLowSurrogate (n : Nat) : Bool := 0xDC00 ≤ n && n ≤ 0xDFFF

/-- The character of a surrogate pair. -/
def pairedChar (high low : Nat) : Char :=
  Char.ofNat (0x10000 + (high - 0xD800) * 0x400 + (low - 0xDC00))

/-- Reads the second half of a surrogate pair, an escape of its own. -/
def scanSecondHalf (high : Nat) (s : List Char) : Except Fault (Char × List Char) :=
  match s with
  | [] => .error (.behind .unfinishedString [])
  | b :: s =>
    if b ≠ '\\' then .error (.next .missingSurrogate (b :: s))
    else
      match s with
      | [] => .error (.behind .unfinishedString [])
      | u :: s =>
        if u ≠ 'u' then .error (.next .missingSurrogate (u :: s))
        else
          match scanUnit s with
          | .error f => .error f
          | .ok (low, rest) =>
            if isLowSurrogate low then .ok (pairedChar high low, rest)
            else .error (.behind .loneSurrogate rest)

theorem scanSecondHalf_length_le {high : Nat} {s r : List Char} {c : Char}
    (h : scanSecondHalf high s = .ok (c, r)) : r.length ≤ s.length := by
  unfold scanSecondHalf at h
  split at h
  · cases h
  split at h
  · cases h
  split at h
  · cases h
  split at h
  · cases h
  split at h
  · cases h
  · rename_i hu
    have := scanUnit_length_le hu
    split at h
    · simp only [Except.ok.injEq, Prod.mk.injEq] at h
      rw [← h.2]
      simp only [List.length_cons]; omega
    · cases h

/-- Reads the number of a character behind `\u`, or a surrogate pair of two such escapes. -/
def scanCodePoint (s : List Char) : Except Fault (Char × List Char) :=
  match scanUnit s with
  | .error f => .error f
  | .ok (high, rest) =>
    if isLowSurrogate high then .error (.behind .loneSurrogate rest)
    else if isHighSurrogate high then scanSecondHalf high rest
    else .ok (Char.ofNat high, rest)

theorem scanCodePoint_length_le {s r : List Char} {c : Char}
    (h : scanCodePoint s = .ok (c, r)) : r.length ≤ s.length := by
  unfold scanCodePoint at h
  split at h
  · cases h
  · rename_i high rest hu
    have hlen := scanUnit_length_le hu
    split at h
    · cases h
    split at h
    · exact Nat.le_trans (scanSecondHalf_length_le h) hlen
    · cases h; exact hlen

/-- The character that a one-letter escape stands for. -/
def escape? (c : Char) : Option Char :=
  match c with
  | '"' => some '"'
  | '\\' => some '\\'
  | '/' => some '/'
  | 'b' => some '\x08'
  | 'f' => some '\x0c'
  | 'n' => some '\n'
  | 'r' => some '\r'
  | 't' => some '\t'
  | _ => none

/-- Reads what follows a backslash. -/
def scanEscape : List Char → Except Fault (Char × List Char)
  | [] => .error (.behind .unfinishedString [])
  | c :: rest =>
    match escape? c with
    | some e => .ok (e, rest)
    | none => if c = 'u' then scanCodePoint rest else .error (.next .badEscape (c :: rest))

theorem scanEscape_length_lt {s r : List Char} {c : Char} (h : scanEscape s = .ok (c, r)) :
    r.length < s.length := by
  cases s with
  | nil => simp [scanEscape] at h
  | cons d rest =>
    simp only [scanEscape] at h
    split at h
    · cases h; simp
    · split at h
      · have := scanCodePoint_length_le h
        simp; omega
      · cases h

/-- Reads a text up to its closing quote. The characters read so far are in `acc`, the last one
first. -/
def scanString (acc : List Char) (s : List Char) : Except Fault (String × List Char) :=
  match s with
  | [] => .error (.behind .unfinishedString [])
  | c :: rest =>
    if c = '"' then .ok (String.ofList acc.reverse, rest)
    else if c = '\\' then
      match _h : scanEscape rest with
      | .error f => .error f
      | .ok (e, rest') => scanString (e :: acc) rest'
    else if c.toNat < 0x20 then .error (.next .controlCharacter (c :: rest))
    else scanString (c :: acc) rest
termination_by s.length
decreasing_by
  · have := scanEscape_length_lt _h
    simp; omega
  · simp

theorem scanString_length_lt {acc s r : List Char} {t : String}
    (h : scanString acc s = .ok (t, r)) : r.length < s.length := by
  fun_induction scanString acc s with
  | case1 => cases h
  | case2 acc rest => cases h; simp
  | case3 => cases h
  | case4 =>
    rename_i e rest' hesc _ ih
    have := ih h
    have := scanEscape_length_lt hesc
    simp; omega
  | case5 => cases h
  | case6 =>
    rename_i ih
    have := ih h
    simp; omega

/-! ## Numbers -/

/-- An ASCII digit. -/
def isDigit (c : Char) : Bool := (Text.digit? c).isSome

/-- The value of a digit. -/
def digitValue (c : Char) : Nat := (Text.digit? c).getD 0

/-- The significand of a number has 64 bits. -/
def fitsSignificand (n : Nat) : Bool := n ≤ 0xFFFFFFFFFFFFFFFF

/-- Takes the digits before the point into the significand. From the first digit that does not
fit on, digits are only counted. -/
def gatherWhole (significand dropped : Nat) : List Char → Nat × Nat
  | [] => (significand, dropped)
  | c :: cs =>
    let next := 10 * significand + digitValue c
    if dropped = 0 && fitsSignificand next then gatherWhole next 0 cs
    else gatherWhole significand (dropped + 1) cs

/-- Takes the digits behind the point into the significand and counts them. From the first digit
that does not fit on, digits are passed over. -/
def gatherFraction (significand taken : Nat) : List Char → Nat × Nat
  | [] => (significand, taken)
  | c :: cs =>
    let next := 10 * significand + digitValue c
    if fitsSignificand next then gatherFraction next (taken + 1) cs else (significand, taken)

/-- The number that digits without point and exponent spell: an integer, if it has 64 bits and is
not the negative zero, and else a double. -/
def wholeNumber (negative : Bool) (n : Nat) : Option Number :=
  let i : Int := if negative then -n else n
  if h : FitsInteger i ∧ !(negative && n == 0) then some (.integer i h.1)
  else (Double.nearest negative n 1).map .double

/-- A double with its sign. -/
def signed (negative : Bool) (d : Double) : Number := .double (if negative then d.neg else d)

/-- The double of a significand and a power of ten, or a fault behind the number. -/
def scaledNumber (negative : Bool) (significand : Nat) (x : Int) (rest : List Char) :
    Except Fault (Number × List Char) :=
  match Double.ofDecimal significand x with
  | some d => .ok (signed negative d, rest)
  | none => .error (.behind .numberTooLarge rest)

/-- The largest power of ten that is read digit by digit. -/
def maxPower : Nat := 0x7FFFFFFF

/-- Reads the digits of a power of ten. The failure is a power past the largest one, with the
text behind the digit that went past it. -/
def scanPower (power : Nat) : List Char → Except (List Char) (Nat × List Char)
  | [] => .ok (power, [])
  | c :: rest =>
    if isDigit c then
      let next := 10 * power + digitValue c
      if next ≤ maxPower then scanPower next rest else .error rest
    else .ok (power, c :: rest)

/-- Reads the power of ten behind its letter, for a significand that counts `10 ^ x`. -/
def scanExponent (negative : Bool) (significand : Nat) (x : Int) (s : List Char) :
    Except Fault (Number × List Char) :=
  let down := s.head? == some '-'
  let digits := if down || s.head? == some '+' then s.tail else s
  match digits with
  | [] => .error (.behind .unfinishedValue [])
  | c :: _ =>
    if !isDigit c then .error (.next .badNumber digits)
    else
      match scanPower 0 digits with
      | .ok (power, rest) =>
        scaledNumber negative significand (if down then x - power else x + power) rest
      | .error rest =>
        if significand ≠ 0 ∧ !down then .error (.behind .numberTooLarge rest)
        else .ok (signed negative .zero, rest.dropWhile isDigit)

/-- Reads the fraction behind its point, for a whole part of which `dropped` digits did not
fit. -/
def scanFraction (negative : Bool) (significand dropped : Nat) (s : List Char) :
    Except Fault (Number × List Char) :=
  let digits := s.takeWhile isDigit
  let rest := s.dropWhile isDigit
  if digits.isEmpty then
    .error (.next (if rest.isEmpty then .unfinishedValue else .badNumber) rest)
  else
    let (significand, taken) := gatherFraction significand 0 digits
    let x : Int := dropped - taken
    match rest with
    | 'e' :: r => scanExponent negative significand x r
    | 'E' :: r => scanExponent negative significand x r
    | _ => scaledNumber negative significand x rest

/-- Reads a number behind its sign. -/
def scanNumber (negative : Bool) (s : List Char) : Except Fault (Number × List Char) :=
  let digits := s.takeWhile isDigit
  let rest := s.dropWhile isDigit
  match digits with
  | [] =>
    if rest.isEmpty then .error (.behind .unfinishedValue []) else .error (.next .badNumber rest)
  | c :: more =>
    if c = '0' ∧ !more.isEmpty then .error (.next .badNumber s.tail)
    else
      let (significand, dropped) := gatherWhole 0 0 digits
      match rest with
      | '.' :: r => scanFraction negative significand dropped r
      | 'e' :: r => scanExponent negative significand dropped r
      | 'E' :: r => scanExponent negative significand dropped r
      | _ =>
        if dropped = 0 then
          match wholeNumber negative significand with
          | some n => .ok (n, rest)
          | none => .error (.behind .numberTooLarge rest)
        else scaledNumber negative significand dropped rest

theorem scaledNumber_rest {negative : Bool} {significand : Nat} {x : Int} {s r : List Char}
    {n : Number} (h : scaledNumber negative significand x s = .ok (n, r)) : r = s := by
  unfold scaledNumber at h
  split at h <;> cases h
  rfl

theorem scanPower_length_le {power : Nat} {s : List Char} :
    (∀ p r, scanPower power s = .ok (p, r) → r.length ≤ s.length) ∧
      ∀ r, scanPower power s = .error r → r.length ≤ s.length := by
  induction s generalizing power with
  | nil => simp [scanPower]
  | cons c rest ih =>
    simp only [scanPower]
    split
    · split
      · constructor
        · intro p r h
          have := ih.1 p r h
          simp; omega
        · intro r h
          have := ih.2 r h
          simp; omega
      · constructor
        · intro p r h; cases h
        · intro r h
          cases h; simp
    · constructor
      · intro p r h
        cases h; simp
      · intro r h; cases h

theorem scanExponent_length_le {negative : Bool} {significand : Nat} {x : Int}
    {s r : List Char} {n : Number}
    (h : scanExponent negative significand x s = .ok (n, r)) : r.length ≤ s.length := by
  unfold scanExponent at h
  simp only at h
  generalize hd : (if (s.head? == some '-') || (s.head? == some '+') then s.tail else s) = ds at h
  have hds : ds.length ≤ s.length := by
    rw [← hd]; split <;> simp
  refine Nat.le_trans ?_ hds
  split at h
  · cases h
  · rename_i c cs
    split at h
    · cases h
    · split at h
      · rename_i power rest hp
        rw [scaledNumber_rest h]
        exact scanPower_length_le.1 _ _ hp
      · rename_i rest hp
        have hle := scanPower_length_le.2 _ hp
        split at h
        · cases h
        · cases h
          exact Nat.le_trans (List.dropWhile_suffix _).length_le hle

theorem scanFraction_length_le {negative : Bool} {significand dropped : Nat}
    {s r : List Char} {n : Number}
    (h : scanFraction negative significand dropped s = .ok (n, r)) : r.length ≤ s.length := by
  have hs : (s.dropWhile isDigit).length ≤ s.length := (List.dropWhile_suffix _).length_le
  unfold scanFraction at h
  simp only at h
  split at h
  · cases h
  · split at h
    · rename_i r' hr
      have := scanExponent_length_le h
      rw [hr] at hs
      simp at hs; omega
    · rename_i r' hr
      have := scanExponent_length_le h
      rw [hr] at hs
      simp at hs; omega
    · rw [scaledNumber_rest h]
      exact hs

theorem scanNumber_length_lt {negative : Bool} {s r : List Char} {n : Number}
    (h : scanNumber negative s = .ok (n, r)) : r.length < s.length := by
  have hsplit := congrArg List.length (List.takeWhile_append_dropWhile (p := isDigit) (l := s))
  rw [List.length_append] at hsplit
  unfold scanNumber at h
  simp only at h
  split at h
  · split at h <;> cases h
  · rename_i c more hdigits
    rw [hdigits, List.length_cons] at hsplit
    split at h
    · cases h
    · split at h
      · rename_i r' hr
        have := scanFraction_length_le h
        rw [hr] at hsplit
        simp at hsplit; omega
      · rename_i r' hr
        have := scanExponent_length_le h
        rw [hr] at hsplit
        simp at hsplit; omega
      · rename_i r' hr
        have := scanExponent_length_le h
        rw [hr] at hsplit
        simp at hsplit; omega
      · split at h
        · split at h
          · cases h; omega
          · cases h
        · rw [scaledNumber_rest h]
          omega

end SchemaHistory.Json
