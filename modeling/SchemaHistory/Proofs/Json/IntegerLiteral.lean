import SchemaHistory.Proofs.Decimal.Value
import SchemaHistory.Proofs.Json.RoundTrip

/-!
# Integers as documents spell them

An integer may be spelled with any number of digits. It is read as itself if it has 64 bits, as a
double if it has more, and not at all past the largest double. The double need not be the integer
that is spelled: digits that have no place in 64 bits are only counted, and what is left of the
others is rounded.
-/

namespace SchemaHistory

open Decimal

/-- The number that a number in a document stands for. -/
def Number.value : Number → ℚ
  | .integer i _ => i
  | .double d => d.value

namespace Json

/-- An integer as documents spell it: digits without a leading zero, perhaps with a minus. -/
structure IntegerLiteral where
  /-- A minus stands before the digits. -/
  negative : Bool
  /-- The digits, the most significant one first. -/
  digits : List Char
  /-- There is a digit. -/
  nonempty : digits ≠ []
  /-- Nothing else stands among them. -/
  areDigits : ∀ c ∈ digits, isDigit c = true
  /-- Only zero begins with a zero. -/
  noLeadingZero : digits.head? = some '0' → digits = ['0']

namespace IntegerLiteral

/-- The characters of the literal. -/
def chars (l : IntegerLiteral) : List Char := if l.negative then '-' :: l.digits else l.digits

/-- The literal as a text. -/
def text (l : IntegerLiteral) : String := .ofList l.chars

/-- The number that the digits spell. -/
def magnitude (l : IntegerLiteral) : Nat := Nat.ofDigitChars 10 l.digits 0

/-- The integer that the literal spells. -/
def value (l : IntegerLiteral) : Int := if l.negative then -(l.magnitude : Int) else l.magnitude

/-- The double that is read from the literal, unless it is past the largest one. Digits that have no
place in 64 bits are only counted. -/
def rounded (l : IntegerLiteral) : Option Double :=
  let (significand, dropped) := gatherWhole 0 0 l.digits
  if dropped = 0 then Double.nearest l.negative significand 1
  else (Double.ofDecimal significand dropped).map fun d => if l.negative then d.neg else d

/-- The number that is read from the literal: the integer if it has 64 bits and is not the negative
zero, and else a double. -/
def number? (l : IntegerLiteral) : Option Number :=
  if h : FitsInteger l.value ∧ !(l.negative && l.magnitude == 0) then
    some (.integer l.value h.1)
  else l.rounded.map .double

/-- The value keeps the integer: it is a number that means it, or the literal itself. -/
def KeptIn (l : IntegerLiteral) (v : Json) : Prop :=
  (∃ n, v = .number n ∧ n.value = l.value) ∨ v = .string l.text

variable {l : IntegerLiteral}

theorem natAbs_value (l : IntegerLiteral) : l.value.natAbs = l.magnitude := by
  unfold value
  split <;> omega

/-! ## Reading the digits -/

theorem digitValue_bounds {c : Char} (hc : isDigit c = true) (hzero : c ≠ '0') :
    1 ≤ digitValue c ∧ digitValue c ≤ 9 := by
  have hne : c.toNat ≠ 48 := fun h => hzero (Char.toNat_inj.mp h)
  unfold isDigit Text.digit? at hc
  unfold digitValue Text.digit?
  split at hc
  · rename_i hrange
    have hlow : 48 ≤ c.toNat := hrange.1
    have hhigh : c.toNat ≤ 57 := hrange.2
    rw [if_pos hrange]
    change 1 ≤ c.toNat - 48 ∧ c.toNat - 48 ≤ 9
    omega
  · cases hc

/-- The digits that fit are the significand, and those behind them are counted. -/
theorem gatherWhole_split {n : Nat} (cs : List Char) (hcs : ∀ c ∈ cs, isDigit c = true)
    (hn : n ≤ 0xFFFFFFFFFFFFFFFF) : ∃ kept behind, cs = kept ++ behind ∧
      gatherWhole n 0 cs = (Nat.ofDigitChars 10 kept n, behind.length) ∧
      Nat.ofDigitChars 10 kept n ≤ 0xFFFFFFFFFFFFFFFF := by
  -- behind a digit that does not fit all are counted
  have hcount : ∀ (ds : List Char) (m k : Nat), k ≠ 0 → gatherWhole m k ds = (m, k + ds.length) := by
    intro ds
    induction ds with
    | nil => intro m k _; rfl
    | cons d ds ih =>
        intro m k hk
        rw [gatherWhole, if_neg (by simp [hk]), ih m (k + 1) (by omega), List.length_cons]
        congr 1
        omega
  induction cs generalizing n with
  | nil => exact ⟨[], [], rfl, rfl, hn⟩
  | cons c cs ih =>
      by_cases hnext : fitsSignificand (10 * n + digitValue c) = true
      · obtain ⟨kept, behind, rfl, hgather, hfits⟩ := ih (fun d hd => hcs d (by simp [hd]))
          (by simpa [fitsSignificand] using hnext)
        have hstep : Nat.ofDigitChars 10 (c :: kept) n =
            Nat.ofDigitChars 10 kept (10 * n + digitValue c) := by
          rw [Nat.ofDigitChars_cons, ← digitValue_eq (hcs c (by simp))]
        refine ⟨c :: kept, behind, rfl, ?_, by rw [hstep]; exact hfits⟩
        rw [gatherWhole, if_pos (by simpa using hnext), hgather, hstep]
      · refine ⟨[], c :: cs, rfl, ?_, hn⟩
        rw [gatherWhole, if_neg (by simpa using hnext), hcount cs n 1 (by omega),
          List.length_cons, Nat.ofDigitChars_nil, Nat.add_comm 1]

/-- Digits past 64 bits are not all taken into the significand. -/
theorem dropped_of_large (hlarge : 0xFFFFFFFFFFFFFFFF < l.magnitude) :
    (gatherWhole 0 0 l.digits).2 ≠ 0 := by
  obtain ⟨kept, behind, hsplit, hgather, hfits⟩ :=
    gatherWhole_split l.digits l.areDigits (Nat.zero_le _)
  rw [hgather]
  intro hnone
  rw [List.eq_nil_of_length_eq_zero hnone, List.append_nil] at hsplit
  rw [magnitude, hsplit] at hlarge
  omega

/-- A significand of 64 bits has at most 20 digits, for the first of them is not zero. -/
theorem dropped_of_long (hlong : 20 < l.digits.length) : (gatherWhole 0 0 l.digits).1 ≠ 0 ∧
    l.digits.length ≤ (gatherWhole 0 0 l.digits).2 + 20 := by
  obtain ⟨c, more, hdigits⟩ := List.exists_cons_of_ne_nil l.nonempty
  have hc : isDigit c = true := l.areDigits c (by rw [hdigits]; exact List.mem_cons_self)
  have hmore : ∀ d ∈ more, isDigit d = true :=
    fun d hd => l.areDigits d (by rw [hdigits]; exact List.mem_cons_of_mem _ hd)
  have hfirst : 1 ≤ digitValue c ∧ digitValue c ≤ 9 := by
    refine digitValue_bounds hc fun hzero => ?_
    have := l.noLeadingZero (by rw [hdigits, hzero]; rfl)
    rw [this] at hlong
    exact absurd hlong (by decide)
  obtain ⟨kept, behind, rfl, hgather, hfits⟩ :=
    gatherWhole_split more hmore (Nat.le_trans hfirst.2 (by decide))
  rw [hdigits, gatherWhole, if_pos (by simp [fitsSignificand]; omega), Nat.mul_zero, Nat.zero_add,
    hgather, List.length_cons, List.length_append]
  have hpow : 10 ^ kept.length ≤ Nat.ofDigitChars 10 kept (digitValue c) := by
    rw [Nat.ofDigitChars_eq_ofDigitChars_zero]
    have := Nat.le_mul_of_pos_right (10 ^ kept.length) hfirst.1
    omega
  have hshort : kept.length < 20 :=
    (Nat.pow_lt_pow_iff_right (by decide)).mp (Nat.lt_of_le_of_lt (Nat.le_trans hpow hfits)
      (by decide : 0xFFFFFFFFFFFFFFFF < 10 ^ 20))
  have := Nat.pow_pos (a := 10) (n := kept.length) (by decide)
  omega

theorem not_fits_of_large (hlarge : 0xFFFFFFFFFFFFFFFF < l.magnitude) : ¬ FitsInteger l.value := by
  have := natAbs_value l
  unfold FitsInteger
  omega

theorem gatherWhole_small (hsmall : l.magnitude ≤ 0xFFFFFFFFFFFFFFFF) :
    gatherWhole 0 0 l.digits = (l.magnitude, 0) := gatherWhole_ofDigitChars l.areDigits hsmall

/-- Digits that all have place in 64 bits make a whole number. -/
theorem number?_small (hsmall : l.magnitude ≤ 0xFFFFFFFFFFFFFFFF) :
    l.number? = wholeNumber l.negative l.magnitude := by
  rw [number?, rounded, gatherWhole_small hsmall]
  rfl

/-- Other digits are scaled by those that are only counted. -/
theorem number?_large (hlarge : 0xFFFFFFFFFFFFFFFF < l.magnitude) :
    l.number? = (Double.ofDecimal (gatherWhole 0 0 l.digits).1
      (gatherWhole 0 0 l.digits).2).map (signed l.negative) := by
  rw [number?, rounded, dif_neg fun h => not_fits_of_large hlarge h.1]
  dsimp only
  rw [if_neg (dropped_of_large hlarge), Option.map_map]
  rfl

/-- **A literal is read to its end**, as an integer or as a double. -/
theorem scanSigned_chars (l : IntegerLiteral) :
    (scanSigned l.chars).toOption = l.number?.map (·, []) := by
  have hscan : scanSigned l.chars = scanNumber l.negative l.digits := by
    unfold chars
    cases hneg : l.negative with
    | true => rfl
    | false =>
        refine scanSigned_plain fun hhead => ?_
        exact ne_minus_of_isDigit (l.areDigits _ (List.mem_of_mem_head? hhead)) rfl
  obtain ⟨c, more, hdigits⟩ := List.exists_cons_of_ne_nil l.nonempty
  have hzero : ¬ (c = '0' ∧ !more.isEmpty) := by
    rintro ⟨rfl, hmore⟩
    have := l.noLeadingZero (by rw [hdigits]; rfl)
    rw [hdigits] at this
    rw [(List.cons.inj this).2] at hmore
    cases hmore
  have hnumber : scanNumber l.negative (c :: more ++ []) = _ :=
    scanNumber_digits (by rw [← hdigits]; exact l.areDigits) noNumber_nil.noDigit
  rw [List.append_nil, if_neg hzero, scanWholeEnd_noNumber noNumber_nil, ← hdigits] at hnumber
  rw [hscan, hnumber]
  by_cases hsmall : l.magnitude ≤ 0xFFFFFFFFFFFFFFFF
  · rw [number?_small hsmall, gatherWhole_small hsmall, if_pos rfl]
    cases wholeNumber l.negative l.magnitude <;> rfl
  · have hlarge : 0xFFFFFFFFFFFFFFFF < l.magnitude := by omega
    rw [number?_large hlarge, if_neg (dropped_of_large hlarge), scaledNumber]
    cases Double.ofDecimal (gatherWhole 0 0 l.digits).1 (gatherWhole 0 0 l.digits).2 <;> rfl

/-- A literal is a whole document. -/
theorem read_chars (l : IntegerLiteral) :
    (read l.chars).toOption = l.number?.map .number := by
  have hvalue : (Json.value maxDepth).run l.chars = mapScan .number (scanSigned l.chars) := by
    change readValue (some (Json.value (maxDepth - 1))) l.chars = _
    unfold chars
    split
    · exact readValue_minus _ _
    · obtain ⟨c, more, hdigits⟩ := List.exists_cons_of_ne_nil l.nonempty
      rw [hdigits]
      exact readValue_digit _ (l.areDigits c (by rw [hdigits]; exact List.mem_cons_self)) _
  have hscan := scanSigned_chars l
  rw [read, hvalue]
  cases hn : l.number? with
  | none =>
      rw [hn] at hscan
      obtain ⟨f, hf⟩ := toOption_eq_none hscan
      rw [hf]
      rfl
  | some n =>
      rw [hn] at hscan
      rw [toOption_eq_some hscan]
      rfl

/-! ## What the number stands for -/

/-- An integer of 64 bits is read as itself; the negative zero is read as the double zero. -/
theorem value_of_fits (hfits : FitsInteger l.value) :
    ∃ n, l.number? = some n ∧ n.value = l.value := by
  have habs := natAbs_value l
  have hsmall : l.magnitude ≤ 0xFFFFFFFFFFFFFFFF := by
    unfold FitsInteger at hfits
    omega
  by_cases hzero : l.negative && l.magnitude == 0
  · have hmag : l.magnitude = 0 := by simpa using (Bool.and_eq_true_iff.mp hzero).2
    have hvalue : l.value = 0 := by omega
    refine ⟨.double { Double.zero with negative := l.negative }, ?_, ?_⟩
    · rw [number?, dif_neg (by simp [hzero]), rounded, gatherWhole_small hsmall, hmag]
      rfl
    · rw [hvalue, Number.value, Double.value_zero, Int.cast_zero]
  · exact ⟨.integer l.value hfits, by rw [number?, dif_pos ⟨hfits, by simp [hzero]⟩], rfl⟩

theorem number?_of_not_fits (hfits : ¬ FitsInteger l.value) :
    l.number? = l.rounded.map .double := dif_neg fun h => hfits h.1

theorem not_fits_of_long (hlong : 20 < l.digits.length) : ¬ FitsInteger l.value := by
  refine not_fits_of_large (Nat.lt_of_not_le fun hsmall => ?_)
  have := (dropped_of_long hlong).2
  rw [gatherWhole_small hsmall] at this
  omega

/-- A literal of more than 328 digits is past the largest double. -/
theorem rounded_of_long (hlong : 328 < l.digits.length) : l.rounded = none := by
  obtain ⟨hne, hdropped⟩ := dropped_of_long (l := l) (by omega)
  rw [rounded]
  dsimp only
  rw [if_neg (by omega), Double.ofDecimal_far hne (by omega), Option.map_none]

/-- Past 64 bits a double stands for the integer only if eleven binary digits of it are zero. -/
theorem dvd_of_not_fits {d : Double} (hfits : ¬ FitsInteger l.value) (h : d.value = l.value) :
    2048 ∣ l.value := by
  have hfar : 2 ^ (52 + 11) ≤ l.value.natAbs := by
    unfold FitsInteger at hfits
    omega
  exact Int.natCast_dvd.mpr (Double.dvd_of_value h hfar)

/-- A negative integer whose magnitude has 64 bits is rounded once, and is a double if eleven
binary digits of it are zero. -/
theorem rounded_of_negative (hlow : -0x10000000000000000 < l.value)
    (hhigh : l.value < -0x8000000000000000) : ∃ d, l.rounded = some d ∧
      (2048 ∣ l.value → d.value = l.value) := by
  have habs := natAbs_value l
  have hneg : l.negative = true := by
    by_contra hpos
    have : l.value = l.magnitude := if_neg hpos
    omega
  have hvalue : l.value = -(l.magnitude : Int) := if_pos hneg
  have hlog : l.magnitude.log2 = 63 :=
    (Nat.log2_eq_iff (by omega)).mpr ⟨by omega, by omega⟩
  have hrounded : l.rounded = Double.nearest true l.magnitude 1 := by
    rw [rounded, gatherWhole_small (by omega), hneg]
    rfl
  rw [hrounded]
  by_cases hdvd : 2048 ∣ l.value
  · obtain ⟨d, hd, hval⟩ := Double.nearest_of_dvd true (n := l.magnitude) (by omega) (by omega)
      (by rw [hlog]; omega)
    refine ⟨d, hd, fun _ => ?_⟩
    rw [hval, hvalue]
    simp
  · obtain ⟨d, hd⟩ := Option.isSome_iff_exists.mp
      (Double.isSome_nearest true (n := l.magnitude) (by omega))
    exact ⟨d, hd, fun h => absurd h hdvd⟩

end IntegerLiteral

end Json

end SchemaHistory
