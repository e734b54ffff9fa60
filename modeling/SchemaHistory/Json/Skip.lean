import SchemaHistory.Json.Reader

/-!
# Passing over a value

A value that nobody wants is passed over without being built. Its brackets may nest to any
depth, its numbers may have any size and its escapes may name any code point; only the
shape is checked. The open brackets are kept in a list, the innermost first.
-/

namespace SchemaHistory.Json

/-- Passes over one or more digits of a fraction or of a power of ten and what may follow. -/
def skipPower (s : List Char) : Except Fault (List Char) :=
  let digits := if s.head? == some '-' || s.head? == some '+' then s.tail else s
  match digits with
  | [] => .error (.behind .badNumber [])
  | c :: rest =>
    if isDigit c then .ok (rest.dropWhile isDigit) else .error (.next .badNumber digits)

/-- Passes over the power of ten of a number, if it has one. -/
def skipExponent (s : List Char) : Except Fault (List Char) :=
  match s with
  | [] => .ok []
  | c :: rest => if c = 'e' ∨ c = 'E' then skipPower rest else .ok s

/-- Passes over the fraction of a number, if it has one, and the power of ten. -/
def skipFraction (s : List Char) : Except Fault (List Char) :=
  match s with
  | [] => .ok []
  | c :: rest =>
    if c = '.' then
      if (rest.takeWhile isDigit).isEmpty then .error (.next .badNumber rest)
      else skipExponent (rest.dropWhile isDigit)
    else skipExponent s

/-- Passes over a number behind its sign. -/
def skipNumber (s : List Char) : Except Fault (List Char) :=
  match s with
  | [] => .error (.behind .badNumber [])
  | c :: rest =>
    if c = '0' then
      match rest with
      | [] => .ok []
      | d :: _ => if isDigit d then .error (.next .badNumber rest) else skipFraction rest
    else if isDigit c then skipFraction (rest.dropWhile isDigit)
    else .error (.next .badNumber s)

/-- Passes over what follows a backslash. -/
def skipEscape : List Char → Except Fault (List Char)
  | [] => .error (.behind .unfinishedString [])
  | c :: rest =>
    if (escape? c).isSome then .ok rest
    else if c = 'u' then (scanUnit rest).map Prod.snd
    else .error (.next .badEscape (c :: rest))

theorem skipEscape_length_lt {s r : List Char} (h : skipEscape s = .ok r) :
    r.length < s.length := by
  cases s with
  | nil => simp [skipEscape] at h
  | cons c rest =>
    simp only [skipEscape] at h
    split at h
    · cases h; simp
    split at h
    · cases hu : scanUnit rest with
      | error f => rw [hu] at h; cases h
      | ok p =>
        rw [hu] at h
        cases h
        have := scanUnit_length_le (n := p.1) (r := p.2) (by rw [hu])
        simp; omega
    · cases h

/-- Passes over a text up to its closing quote. A control character is a fault before it is
taken. -/
def skipString (s : List Char) : Except Fault (List Char) :=
  match s with
  | [] => .error (.behind .unfinishedString [])
  | c :: rest =>
    if c = '"' then .ok rest
    else if c = '\\' then
      match _h : skipEscape rest with
      | .error f => .error f
      | .ok rest' => skipString rest'
    else if c.toNat < 0x20 then .error (.behind .controlCharacter (c :: rest))
    else skipString rest
termination_by s.length
decreasing_by
  · have := skipEscape_length_lt _h
    simp; omega
  · simp

theorem skipString_length_lt {s r : List Char} (h : skipString s = .ok r) :
    r.length < s.length := by
  fun_induction skipString s with
  | case1 => cases h
  | case2 => cases h; simp
  | case3 => cases h
  | case4 =>
    rename_i rest' hesc _ ih
    have := ih h
    have := skipEscape_length_lt hesc
    simp; omega
  | case5 => cases h
  | case6 =>
    rename_i ih
    have := ih h
    simp; omega

theorem dropWhile_length_le (p : Char → Bool) (s : List Char) :
    (s.dropWhile p).length ≤ s.length := (List.dropWhile_suffix _).length_le

theorem skipPower_length_le {s r : List Char} (h : skipPower s = .ok r) :
    r.length ≤ s.length := by
  unfold skipPower at h
  simp only at h
  generalize hd : (if (s.head? == some '-') || (s.head? == some '+') then s.tail else s) = ds at h
  have hds : ds.length ≤ s.length := by
    rw [← hd]; split <;> simp
  refine Nat.le_trans ?_ hds
  split at h
  · cases h
  · rename_i c rest
    split at h
    · cases h
      have := dropWhile_length_le isDigit rest
      simp; omega
    · cases h

theorem skipExponent_length_le {s r : List Char} (h : skipExponent s = .ok r) :
    r.length ≤ s.length := by
  unfold skipExponent at h
  split at h
  · cases h; simp
  · rename_i c rest
    split at h
    · have := skipPower_length_le h
      simp; omega
    · cases h; simp

theorem skipFraction_length_le {s r : List Char} (h : skipFraction s = .ok r) :
    r.length ≤ s.length := by
  unfold skipFraction at h
  split at h
  · cases h; simp
  · rename_i c rest
    split at h
    · split at h
      · cases h
      · have h1 := skipExponent_length_le h
        have h2 := dropWhile_length_le isDigit rest
        simp; omega
    · exact skipExponent_length_le h

theorem skipNumber_length_lt {s r : List Char} (h : skipNumber s = .ok r) :
    r.length < s.length := by
  unfold skipNumber at h
  split at h
  · cases h
  · rename_i c rest
    split at h
    · split at h
      · cases h; simp
      · split at h
        · cases h
        · have := skipFraction_length_le h
          simp at this ⊢; omega
    · split at h
      · have h1 := skipFraction_length_le h
        have h2 := dropWhile_length_le isDigit rest
        simp; omega
      · cases h

/-- Passes over a value that is no list and no object. -/
def skipScalar (s : List Char) : Except Fault (List Char) :=
  match s with
  | [] => .error (.next .unfinishedValue [])
  | c :: rest =>
    if c = 'n' then scanWord ['u', 'l', 'l'] rest
    else if c = 't' then scanWord ['r', 'u', 'e'] rest
    else if c = 'f' then scanWord ['a', 'l', 's', 'e'] rest
    else if c = '-' then skipNumber rest
    else if isDigit c then skipNumber s
    else if c = '"' then skipString rest
    else .error (.next .noValue s)

theorem skipScalar_length_lt {s r : List Char} (h : skipScalar s = .ok r) :
    r.length < s.length := by
  unfold skipScalar at h
  split at h
  · cases h
  rename_i c rest
  simp only [List.length_cons]
  split at h
  · have := scanWord_length_le h; omega
  split at h
  · have := scanWord_length_le h; omega
  split at h
  · have := scanWord_length_le h; omega
  split at h
  · have := skipNumber_length_lt h; omega
  split at h
  · exact skipNumber_length_lt h
  split at h
  · have := skipString_length_lt h; omega
  · cases h

/-- Passes over a key and its colon. -/
def skipKey (s : List Char) : Except Fault (List Char) :=
  match skipSpace s with
  | [] => .error (.next .unfinishedObject [])
  | c :: rest =>
    if c = '"' then (skipString rest).bind scanColon else .error (.next .keyNotText (c :: rest))

theorem skipKey_length_le {s r : List Char} (h : skipKey s = .ok r) : r.length ≤ s.length := by
  have hs := skipSpace_length_le s
  unfold skipKey at h
  split at h
  · cases h
  · rename_i c rest hc
    rw [hc, List.length_cons] at hs
    split at h
    · cases hk : skipString rest with
      | error f => rw [hk] at h; cases h
      | ok t =>
        rw [hk] at h
        have h1 := skipString_length_lt hk
        have h2 := scanColon_length_le h
        omega
    · cases h

/-- Where the next item of a bracket starts: at once in a list, behind its key in an object. -/
def skipToItem (b : Bracket) (s : List Char) : Except Fault (List Char) :=
  if b.close = '}' then skipKey s else .ok s

theorem skipToItem_length_le {b : Bracket} {s r : List Char} (h : skipToItem b s = .ok r) :
    r.length ≤ s.length := by
  unfold skipToItem at h
  split at h
  · exact skipKey_length_le h
  · cases h; exact Nat.le_refl _

mutual

/-- Passes over a value inside the open brackets, and over the rest of these. -/
def skipValue (opened : List Bracket) (s : List Char) : Except Fault (List Char) :=
  match _h : skipSpace s with
  | [] => .error (.next .unfinishedValue [])
  | c :: rest =>
    if c = '[' then skipInside false (listBracket :: opened) rest
    else if c = '{' then skipInside false (objectBracket :: opened) rest
    else
      match _hs : skipScalar (c :: rest) with
      | .error f => .error f
      | .ok behind => skipInside true opened behind
termination_by (s.length, 0)
decreasing_by
  · have := skipSpace_length_le s
    rw [_h, List.length_cons] at this
    exact Prod.Lex.left _ _ (by omega)
  · have := skipSpace_length_le s
    rw [_h, List.length_cons] at this
    exact Prod.Lex.left _ _ (by omega)
  · have h1 := skipSpace_length_le s
    have h2 := skipScalar_length_lt _hs
    rw [_h] at h1
    exact Prod.Lex.left _ _ (by omega)

/-- Passes over the rest of the open brackets; `afterItem` tells whether an item has just ended,
so that a comma may follow. -/
def skipInside (afterItem : Bool) (opened : List Bracket) (s : List Char) :
    Except Fault (List Char) :=
  match opened with
  | [] => .ok s
  | b :: outer =>
    match _h : skipSpace s with
    | [] => .error (.next b.unfinished [])
    | c :: rest =>
      if c = b.close then skipInside true outer rest
      else if afterItem then
        if c = ',' then
          match _hk : skipToItem b rest with
          | .error f => .error f
          | .ok item => skipValue (b :: outer) item
        else .error (.next b.noComma (c :: rest))
      else
        match _hk : skipToItem b (c :: rest) with
        | .error f => .error f
        | .ok item => skipValue (b :: outer) item
termination_by (s.length, 1)
decreasing_by
  · have := skipSpace_length_le s
    rw [_h, List.length_cons] at this
    exact Prod.Lex.left _ _ (by omega)
  · have h1 := skipSpace_length_le s
    have h2 := skipToItem_length_le _hk
    rw [_h, List.length_cons] at h1
    exact Prod.Lex.left _ _ (by omega)
  · have h1 := skipSpace_length_le s
    have h2 := skipToItem_length_le _hk
    rw [_h] at h1
    rcases Nat.lt_or_eq_of_le (Nat.le_trans h2 h1) with h | h
    · exact Prod.Lex.left _ _ h
    · rw [h]
      exact Prod.Lex.right _ (by decide)

end

theorem skip_length (n : Nat) :
    (∀ {opened s r}, s.length ≤ n → skipValue opened s = .ok r → r.length < s.length) ∧
      ∀ {afterItem opened s r}, s.length ≤ n → skipInside afterItem opened s = .ok r →
        r.length ≤ s.length := by
  induction n with
  | zero =>
    constructor
    · intro opened s r hn h
      rw [List.length_eq_zero_iff.1 (Nat.le_zero.1 hn), skipValue] at h
      simp [skipSpace] at h
    · intro afterItem opened s r hn h
      rw [List.length_eq_zero_iff.1 (Nat.le_zero.1 hn), skipInside.eq_def] at h
      split at h
      · cases h; simp
      · simp [skipSpace] at h
  | succ n ih =>
    have hvalue : ∀ {opened s r}, s.length ≤ n + 1 → skipValue opened s = .ok r →
        r.length < s.length := by
      intro opened s r hn h
      rw [skipValue] at h
      have hs := skipSpace_length_le s
      split at h
      · cases h
      rename_i c rest hc
      rw [hc, List.length_cons] at hs
      split at h
      · have := ih.2 (by omega) h; omega
      split at h
      · have := ih.2 (by omega) h; omega
      split at h
      · cases h
      · rename_i behind hb
        have h1 := skipScalar_length_lt hb
        rw [List.length_cons] at h1
        have := ih.2 (by omega) h; omega
    refine ⟨hvalue, ?_⟩
    intro afterItem opened s r hn h
    rw [skipInside.eq_def] at h
    have hs := skipSpace_length_le s
    split at h
    · cases h; exact Nat.le_refl _
    split at h
    · cases h
    rename_i c rest hc
    rw [hc, List.length_cons] at hs
    split at h
    · have := ih.2 (by omega) h; omega
    split at h
    · split at h
      · split at h
        · cases h
        · rename_i item hk
          have h1 := skipToItem_length_le hk
          have h2 := hvalue (by omega) h
          omega
      · cases h
    · split at h
      · cases h
      · rename_i item hk
        have h1 := skipToItem_length_le hk
        rw [List.length_cons] at h1
        have h2 := hvalue (by omega) h
        omega

theorem skipValue_length_lt {opened : List Bracket} {s r : List Char}
    (h : skipValue opened s = .ok r) : r.length < s.length :=
  (skip_length s.length).1 (Nat.le_refl _) h

end SchemaHistory.Json
