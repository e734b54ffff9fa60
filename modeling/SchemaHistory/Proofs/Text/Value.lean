import Mathlib.Data.List.Basic
import SchemaHistory.Text.Value

/-!
# Texts without the blank around them, and spellings of integers

Cutting off the blank at both ends leaves the one part of a text that has nothing but blank around
it and neither begins nor ends with a blank. A text of nothing but blank leaves the empty one.

A number has one spelling without a sign and without zeros before it, and it is read back from that
one. It is read from others as well: what is taken for a natural number is one or more digits, with
a plus sign before them or without one, and the number is the one that these digits stand for.
-/

namespace SchemaHistory.Text

/-! ## Texts without the blank around them -/

/-- `inner` is the text without the blank around it. -/
structure Trimmed (cs inner : List Char) : Prop where
  /-- Around it there is nothing but blank. -/
  around : ∃ front back, cs = front ++ (inner ++ back) ∧
    (∀ c ∈ front, isBlank c = true) ∧ ∀ c ∈ back, isBlank c = true
  first : ∀ c, inner.head? = some c → isBlank c = false
  last : ∀ c, inner.getLast? = some c → isBlank c = false

theorem dropWhile_isBlank {front rest : List Char} (hfront : ∀ c ∈ front, isBlank c = true)
    (hrest : ∀ c, rest.head? = some c → isBlank c = false) :
    (front ++ rest).dropWhile isBlank = rest := by
  rw [List.dropWhile_append_of_pos hfront]
  cases rest with
  | nil => rfl
  | cons c rest => rw [List.dropWhile_cons_of_neg (by simp [hrest c rfl])]

theorem head?_dropWhile_isBlank {cs : List Char} {c : Char}
    (h : (cs.dropWhile isBlank).head? = some c) : isBlank c = false := by
  have hnot := List.head?_dropWhile_not isBlank cs
  rw [h] at hnot
  simpa using hnot

theorem isBlank_of_mem_takeWhile {cs : List Char} {c : Char} (h : c ∈ cs.takeWhile isBlank) :
    isBlank c = true :=
  List.all_eq_true.mp List.all_takeWhile c h

theorem trimmed_trimChars (cs : List Char) : Trimmed cs (trimChars cs) := by
  have hfront : cs.takeWhile isBlank ++ cs.dropWhile isBlank = cs := List.takeWhile_append_dropWhile
  have hback : trimChars cs ++ ((cs.dropWhile isBlank).reverse.takeWhile isBlank).reverse =
      cs.dropWhile isBlank := by
    rw [trimChars, ← List.reverse_append, List.takeWhile_append_dropWhile, List.reverse_reverse]
  refine ⟨⟨_, _, by rw [hback, hfront], fun c hc => isBlank_of_mem_takeWhile hc,
    fun c hc => isBlank_of_mem_takeWhile (List.mem_reverse.mp hc)⟩, fun c hc => ?_, fun c hc => ?_⟩
  · -- what is first there is first behind the blank in front
    have hfirst : (cs.dropWhile isBlank).head? = some c := by
      rw [← hback, List.head?_append, hc]
      rfl
    exact head?_dropWhile_isBlank hfirst
  · rw [trimChars, List.getLast?_reverse] at hc
    exact head?_dropWhile_isBlank hc

theorem Trimmed.eq {cs inner : List Char} (h : Trimmed cs inner) : trimChars cs = inner := by
  obtain ⟨⟨front, back, rfl, hfront, hback⟩, hfirst, hlast⟩ := h
  have hreverse : ∀ c ∈ back.reverse, isBlank c = true := fun c hc => hback c (List.mem_reverse.mp hc)
  rw [trimChars]
  cases inner with
  | nil =>
      -- the blank in front goes on with the blank behind
      have hall : (front ++ back ++ []).dropWhile isBlank = [] :=
        dropWhile_isBlank (fun c hc => (List.mem_append.mp hc).elim (hfront c) (hback c))
          fun c hc => by cases hc
      rw [List.append_nil] at hall
      rw [List.nil_append, hall]
      rfl
  | cons c inner =>
      have hrest : ∀ d, (c :: inner ++ back).head? = some d → isBlank d = false :=
        fun d hd => hfirst d hd
      rw [dropWhile_isBlank hfront hrest, List.reverse_append,
        dropWhile_isBlank hreverse fun d hd => hlast d (by rwa [List.head?_reverse] at hd),
        List.reverse_reverse]

/-- **Cutting off the blank** gives the text without the blank around it. -/
theorem trimmed_iff {cs inner : List Char} : Trimmed cs inner ↔ trimChars cs = inner :=
  ⟨Trimmed.eq, fun h => h ▸ trimmed_trimChars cs⟩

/-- Nothing is left of nothing but blank, and only of that. -/
theorem trimChars_eq_nil {cs : List Char} : trimChars cs = [] ↔ ∀ c ∈ cs, isBlank c = true := by
  rw [← trimmed_iff]
  refine ⟨fun h c hc => ?_, fun h => ⟨⟨cs, [], (List.append_nil cs).symm, h, nofun⟩, nofun, nofun⟩⟩
  obtain ⟨⟨front, back, rfl, hfront, hback⟩, -, -⟩ := h
  exact (List.mem_append.mp hc).elim (hfront c) (hback c)

/-! ## The decimal spelling -/

theorem digit?_isDigit {c : Char} (h : c.isDigit = true) :
    digit? c = some (c.toNat - '0'.toNat) := by
  have hrange : '0' ≤ c ∧ c ≤ '9' := by simpa [Char.isDigit, Char.le_def] using h
  rw [digit?, if_pos hrange]

theorem digitsFrom?_ofDigitChars (value : Nat) {cs : List Char}
    (h : ∀ c ∈ cs, c.isDigit = true) :
    digitsFrom? value cs = some (Nat.ofDigitChars 10 cs value) := by
  induction cs generalizing value with
  | nil => rw [Nat.ofDigitChars_nil, digitsFrom?]
  | cons c cs ih =>
      rw [digitsFrom?, digit?_isDigit (h c (by simp)), Nat.ofDigitChars_cons]
      exact ih _ fun d hd => h d (by simp [hd])

theorem isDigit_ofNat {n : Nat} {c : Char} (h : c ∈ ofNat n) : c.isDigit = true :=
  Nat.isDigit_of_mem_toDigits (by decide) (by decide) h

/-- The digits of a number are read as the number. -/
theorem digits?_ofNat (n : Nat) : digits? (ofNat n) = some n := by
  have hread := digitsFrom?_ofDigitChars 0 fun c => isDigit_ofNat (n := n) (c := c)
  rw [show Nat.ofDigitChars 10 (ofNat n) 0 = n from Nat.ofDigitChars_ten_toDigits] at hread
  cases hdigits : ofNat n with
  | nil => exact absurd hdigits Nat.toDigits_ne_nil
  | cons c cs =>
      rw [hdigits] at hread
      rw [digits?, hread]
      simp

/-- The first digit of a number is no sign. -/
theorem ofNat_unsigned {n : Nat} {c : Char} {cs : List Char} (h : ofNat n = c :: cs) :
    c ≠ '+' ∧ c ≠ '-' := by
  have hdigit : c.isDigit = true := isDigit_ofNat (n := n) (by rw [h]; simp)
  constructor <;>
    · rintro rfl
      cases hdigit

/-- **The decimal spelling of an integer** is read as the integer, if that is in the range. -/
theorem integer?_ofInt (lo hi i : Int) :
    integer? lo hi (ofInt i) = (some i).filter fun j => lo ≤ j ∧ j ≤ hi := by
  cases i with
  | ofNat n =>
      have hread := digits?_ofNat n
      rw [ofInt]
      cases hdigits : ofNat n with
      | nil => exact absurd hdigits Nat.toDigits_ne_nil
      | cons c cs =>
          obtain ⟨hplus, hminus⟩ := ofNat_unsigned hdigits
          rw [hdigits] at hread
          rw [integer?, hread]
          · rfl
          · exact fun rest he => hplus (List.cons.inj he).1
          · exact fun rest he => hminus (List.cons.inj he).1
  | negSucc n =>
      rw [ofInt, integer?, digits?_ofNat]
      rfl

theorem ofInt_injective {i j : Int} (h : ofInt i = ofInt j) : i = j := by
  -- the spelling is read as a number that is neither less nor greater than `i`
  have hself : (some i).filter (fun k => i ≤ k ∧ k ≤ i) = some i :=
    Option.filter_some_pos (by simp)
  have hread := integer?_ofInt i i i
  rw [hself, h, integer?_ofInt, Option.filter_eq_some_iff] at hread
  exact (Option.some.inj hread.1).symm

/-! ## What is read as a number -/

theorem digitChar_of_isDigit {c : Char} (h : c.isDigit = true) :
    c.toNat - '0'.toNat < 10 ∧ Nat.digitChar (c.toNat - '0'.toNat) = c := by
  have hzero : '0'.toNat = 48 := rfl
  have hrange : 48 ≤ c.toNat ∧ c.toNat ≤ 57 := by
    simpa [Char.isDigit, Char.le_def, UInt32.le_iff_toNat_le] using h
  have hlt : c.toNat - '0'.toNat < 10 := by omega
  refine ⟨hlt, Char.toNat_inj.mp ?_⟩
  rw [Nat.toNat_digitChar_of_lt_ten hlt]
  omega

/-- Digits behind those of a positive number go on with its spelling. -/
theorem ofNat_digitsBehind {n : Nat} {cs : List Char} (hn : 0 < n)
    (hcs : ∀ c ∈ cs, c.isDigit = true) :
    ofNat (Nat.ofDigitChars 10 cs n) = ofNat n ++ cs := by
  induction cs generalizing n with
  | nil => rw [Nat.ofDigitChars_nil, List.append_nil]
  | cons c cs ih =>
      obtain ⟨hlt, hchar⟩ := digitChar_of_isDigit (hcs c (by simp))
      have hstep : ofNat (10 * n + (c.toNat - '0'.toNat)) = ofNat n ++ [c] := by
        rw [ofNat, ← Nat.toDigits_append_toDigits (by decide) hn hlt, Nat.toDigits_of_lt_base hlt,
          hchar]
        rfl
      rw [Nat.ofDigitChars_cons, ih (by omega) fun d hd => hcs d (by simp [hd]), hstep,
        List.append_assoc]
      rfl

/-- **Digits without a leading zero** are the spelling of the number that they are read as. -/
theorem ofNat_ofDigitChars {cs : List Char} (hne : cs ≠ []) (hcs : ∀ c ∈ cs, c.isDigit = true)
    (hlead : cs.head? = some '0' → cs = ['0']) : ofNat (Nat.ofDigitChars 10 cs 0) = cs := by
  obtain ⟨c, more, rfl⟩ := List.exists_cons_of_ne_nil hne
  by_cases hzero : c = '0'
  · rw [hlead (congrArg some hzero)]
    rfl
  · have hc := hcs c (by simp)
    obtain ⟨hlt, hchar⟩ := digitChar_of_isDigit hc
    have hpos : 0 < c.toNat - '0'.toNat := by
      refine Nat.pos_of_ne_zero fun h => hzero ?_
      rw [← hchar, h]
      rfl
    rw [Nat.ofDigitChars_cons, Nat.mul_zero, Nat.zero_add,
      ofNat_digitsBehind hpos fun d hd => hcs d (by simp [hd]), ofNat,
      Nat.toDigits_of_lt_base hlt, hchar]
    rfl

theorem isDigit_of_digit? {c : Char} {n : Nat} (h : digit? c = some n) : c.isDigit = true := by
  unfold digit? at h
  split at h
  · rename_i hrange
    simpa [Char.isDigit, Char.le_def] using hrange
  · cases h

/-- What is read as a number are digits, and it is the number of these. -/
theorem digitsFrom?_eq_some {value n : Nat} {cs : List Char} (h : digitsFrom? value cs = some n) :
    (∀ c ∈ cs, c.isDigit = true) ∧ n = Nat.ofDigitChars 10 cs value := by
  induction cs generalizing value with
  | nil =>
      cases h
      exact ⟨by simp, rfl⟩
  | cons c cs ih =>
      obtain ⟨d, hd, hrest⟩ := Option.bind_eq_some_iff.mp h
      have hc := isDigit_of_digit? hd
      rw [digit?_isDigit hc] at hd
      obtain rfl := Option.some.inj hd
      obtain ⟨hcs, hn⟩ := ih hrest
      exact ⟨by simpa using ⟨hc, hcs⟩, by rw [hn, Nat.ofDigitChars_cons]⟩

theorem digits?_eq_some {n : Nat} {cs : List Char} (h : digits? cs = some n) :
    cs ≠ [] ∧ (∀ c ∈ cs, c.isDigit = true) ∧ n = Nat.ofDigitChars 10 cs 0 := by
  cases cs with
  | nil => cases h
  | cons c cs => exact ⟨List.cons_ne_nil _ _, digitsFrom?_eq_some h⟩

theorem digits?_of_digits {cs : List Char} (hne : cs ≠ []) (hcs : ∀ c ∈ cs, c.isDigit = true) :
    digits? cs = some (Nat.ofDigitChars 10 cs 0) := by
  obtain ⟨c, more, rfl⟩ := List.exists_cons_of_ne_nil hne
  exact digitsFrom?_ofDigitChars 0 hcs

/-- The text spells the natural number: digits, with a plus sign before them or without one. -/
def IsNatural (cs : List Char) (n : Nat) : Prop :=
  ∃ sign ds, cs = sign ++ ds ∧ (sign = [] ∨ sign = ['+']) ∧ ds ≠ [] ∧
    (∀ c ∈ ds, c.isDigit = true) ∧ n = Nat.ofDigitChars 10 ds 0

/-- **A natural number is read** from the texts that spell it, up to a bound. -/
theorem natural?_eq_some {max n : Nat} {cs : List Char} :
    natural? max cs = some n ↔ IsNatural cs n ∧ n ≤ max := by
  unfold natural?
  rw [Option.filter_eq_some_iff, decide_eq_true_iff]
  refine and_congr_left fun _ => ⟨fun hread => ?_, ?_⟩
  · split at hread
    · rename_i rest
      exact ⟨['+'], rest, rfl, .inr rfl, digits?_eq_some hread⟩
    · exact ⟨[], cs, rfl, .inl rfl, digits?_eq_some hread⟩
  · rintro ⟨sign, ds, rfl, rfl | rfl, hne, hds, rfl⟩
    · have hplain : ∀ rest, ds ≠ '+' :: rest := by
        rintro rest rfl
        cases hds '+' (by simp)
      rw [List.nil_append]
      split
      · exact absurd rfl (hplain _)
      · exact digits?_of_digits hne hds
    · exact digits?_of_digits hne hds

end SchemaHistory.Text
