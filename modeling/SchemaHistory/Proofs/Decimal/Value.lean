import Mathlib.Algebra.Order.Field.Power
import Mathlib.Data.Rat.Cast.Order
import Mathlib.Tactic.NormNum
import Mathlib.Tactic.Ring
import SchemaHistory.Decimal.Double

/-!
# Integers and doubles

A double stands for a rational. An integer of more than 53 binary digits is one of these only if
enough of its last digits are zero, and then the double nearest to it stands for it.
-/

namespace SchemaHistory.Decimal

theorem leastFull_eq : leastFull = 2 ^ 52 := rfl

/-! ## Rounding an integer -/

theorem le_roundDiv (num den : Nat) : num / den ≤ roundDiv num den := by
  unfold roundDiv
  dsimp only
  split <;> omega

theorem roundDiv_le (num den : Nat) : roundDiv num den ≤ num / den + 1 := by
  unfold roundDiv
  dsimp only
  split <;> omega

theorem roundDiv_of_dvd {num den : Nat} (hden : 0 < den) (h : den ∣ num) :
    roundDiv num den = num / den := by
  unfold roundDiv
  rw [Nat.mod_eq_zero_of_dvd h]
  exact if_pos (.inl (by omega))

/-- Next to an integer the doubles stand as close as 53 binary digits allow. -/
theorem gridExponent_one {n : Nat} (hn : n ≠ 0) : gridExponent n 1 = (n.log2 : Int) - 52 := by
  have hlow : ¬ n < 2 ^ n.log2 := Nat.not_lt.mpr (Nat.log2_self_le hn)
  have hone : Nat.log2 1 = 0 := by decide
  unfold gridExponent powTwo
  dsimp only
  rw [hone, Int.natCast_zero, Int.sub_zero, Int.toNat_natCast,
    if_neg (by simpa using hlow)]
  omega

/-- The digits that are left of an integer, the last one rounded. -/
def wholeMantissa (n : Nat) : Nat := roundDiv (n * 2 ^ (52 - n.log2)) (2 ^ (n.log2 - 52))

/-- An integer is cut to 53 binary digits, and rounded up it may have one more. -/
theorem wholeMantissa_bounds {n : Nat} (hn : n ≠ 0) :
    leastFull ≤ wholeMantissa n ∧ wholeMantissa n ≤ 2 * leastFull := by
  have hlow : 2 ^ n.log2 ≤ n := Nat.log2_self_le hn
  have hhigh : n < 2 ^ (n.log2 + 1) := Nat.lt_log2_self
  have hsplit : 52 + (n.log2 - 52) = n.log2 + (52 - n.log2) := by omega
  have hfloor : 2 ^ 52 ≤ n * 2 ^ (52 - n.log2) / 2 ^ (n.log2 - 52) := by
    rw [Nat.le_div_iff_mul_le (Nat.two_pow_pos _), ← Nat.pow_add, hsplit, Nat.pow_add]
    exact Nat.mul_le_mul_right _ hlow
  have hceil : n * 2 ^ (52 - n.log2) / 2 ^ (n.log2 - 52) < 2 * 2 ^ 52 := by
    rw [Nat.div_lt_iff_lt_mul (Nat.two_pow_pos _), Nat.mul_assoc, ← Nat.pow_add, hsplit,
      Nat.pow_add, ← Nat.mul_assoc, ← Nat.pow_succ']
    exact Nat.mul_lt_mul_of_pos_right hhigh (Nat.two_pow_pos _)
  have hle := le_roundDiv (n * 2 ^ (52 - n.log2)) (2 ^ (n.log2 - 52))
  have hge := roundDiv_le (n * 2 ^ (52 - n.log2)) (2 ^ (n.log2 - 52))
  rw [leastFull_eq, wholeMantissa]
  omega

namespace Double

theorem ofParts_eq {negative : Bool} {m : Nat} {q : Int} (h : Canonical m q) :
    ofParts negative m q = some ⟨negative, m, q, h⟩ := dif_pos h

theorem ofParts_eq_some {negative : Bool} {m : Nat} {q : Int} {d : Double}
    (h : ofParts negative m q = some d) : d.mantissa = m := by
  unfold ofParts at h
  split at h <;> cases h
  rfl

theorem nearest_one (negative : Bool) {n : Nat} (hn : n ≠ 0) : nearest negative n 1 =
    if wholeMantissa n = 2 * leastFull then ofParts negative leastFull ((n.log2 : Int) - 52 + 1)
    else ofParts negative (wholeMantissa n) ((n.log2 : Int) - 52) := by
  have hdown : (-((n.log2 : Int) - 52)).toNat = 52 - n.log2 := by omega
  have hup : ((n.log2 : Int) - 52).toNat = n.log2 - 52 := by omega
  unfold nearest
  rw [if_neg hn, gridExponent_one hn]
  dsimp only
  rw [hdown, hup, powTwo, powTwo, Nat.one_mul]
  rfl

/-- What is nearest to a positive integer is no zero. -/
theorem mantissa_of_nearest {negative : Bool} {n : Nat} {d : Double} (hn : n ≠ 0)
    (h : nearest negative n 1 = some d) : d.mantissa ≠ 0 := by
  have hleast : leastFull ≠ 0 := by decide
  rw [nearest_one negative hn] at h
  split at h
  · rw [ofParts_eq_some h]
    exact hleast
  · have := (wholeMantissa_bounds hn).1
    rw [ofParts_eq_some h]
    omega

/-- A positive significand that counts a power past `10 ^ 308` is past the largest double. -/
theorem ofDecimal_far {m : Nat} {x : Int} (hm : m ≠ 0) (hx : 308 < x) : ofDecimal m x = none := by
  unfold ofDecimal
  cases h : nearest false m 1 with
  | none => rfl
  | some d =>
      rw [Option.bind_some, scaleTen, if_neg (by omega), if_neg (mantissa_of_nearest hm h),
        if_pos (by omega)]

/-- An integer of at most 1023 binary digits is not past the largest double. -/
theorem isSome_nearest (negative : Bool) {n : Nat} (hlog : n.log2 ≤ 1022) :
    (nearest negative n 1).isSome := by
  by_cases hn : n = 0
  · subst hn
    rfl
  · have hbounds := wholeMantissa_bounds hn
    have hleast : 0 < leastFull := by decide
    rw [nearest_one negative hn]
    split
    · rw [ofParts_eq ⟨by omega, by omega, by omega, .inl (Nat.le_refl _)⟩]
      rfl
    · rename_i hm
      rw [ofParts_eq ⟨Nat.lt_of_le_of_ne hbounds.2 hm, by omega, by omega, .inl hbounds.1⟩]
      rfl

/-! ## The number of a double -/

/-- The number that a double stands for. The two zeros stand for one. -/
def value (d : Double) : ℚ :=
  (if d.negative then -1 else 1) * (d.mantissa * 2 ^ d.exponent)

theorem value_zero (negative : Bool) : value { zero with negative } = 0 := by
  simp [value, zero]

theorem abs_value (d : Double) : |d.value| = d.mantissa * 2 ^ d.exponent := by
  have hnonneg : (0 : ℚ) ≤ d.mantissa * 2 ^ d.exponent := by positivity
  rw [value, abs_mul, abs_of_nonneg hnonneg]
  split <;> simp

/-- **An integer past `2 ^ (52 + k)` that a double stands for is a multiple of `2 ^ k`.** -/
theorem dvd_of_value {d : Double} {i : Int} {k : Nat} (h : d.value = i)
    (hi : 2 ^ (52 + k) ≤ i.natAbs) : 2 ^ k ∣ i.natAbs := by
  have habs : (i.natAbs : ℚ) = d.mantissa * 2 ^ d.exponent := by
    rw [← abs_value, h, Nat.cast_natAbs, Int.cast_abs]
  -- with a smaller exponent the 53 digits do not reach that far
  have hexp : (k : Int) ≤ d.exponent := by
    by_contra hlt
    have hpow : (2 : ℚ) ^ d.exponent * 2 ≤ 2 ^ k := by
      rw [← zpow_add_one₀ two_ne_zero, ← zpow_natCast]
      exact zpow_le_zpow_right₀ one_le_two (by omega)
    have hmant : (d.mantissa : ℚ) < 2 * 2 ^ 52 := by
      have := d.canonical.1
      rw [leastFull_eq] at this
      exact_mod_cast this
    have hfar : (2 : ℚ) ^ 52 * 2 ^ k ≤ i.natAbs := by
      rw [← pow_add]
      exact_mod_cast hi
    have hpos : (0 : ℚ) < 2 ^ d.exponent := by positivity
    refine absurd hfar (not_le.mpr ?_)
    calc (i.natAbs : ℚ) = d.mantissa * 2 ^ d.exponent := habs
      _ < 2 * 2 ^ 52 * 2 ^ d.exponent := mul_lt_mul_of_pos_right hmant hpos
      _ = 2 ^ 52 * (2 ^ d.exponent * 2) := by ring
      _ ≤ 2 ^ 52 * 2 ^ k := mul_le_mul_of_nonneg_left hpow (by positivity)
  obtain ⟨e, he⟩ := Int.le.dest hexp
  refine ⟨d.mantissa * 2 ^ e, ?_⟩
  rw [← he, zpow_add₀ two_ne_zero, zpow_natCast, zpow_natCast] at habs
  have hnat : (i.natAbs : ℚ) = ((2 ^ k * (d.mantissa * 2 ^ e) : Nat) : ℚ) := by
    rw [habs]
    push_cast
    ring
  exact_mod_cast hnat

/-- **The double nearest to an integer stands for it** if what is behind its first 53 binary
digits is zero. -/
theorem nearest_of_dvd (negative : Bool) {n : Nat} (hn : n ≠ 0) (hlog : n.log2 ≤ 1022)
    (hdvd : 2 ^ (n.log2 - 52) ∣ n) : ∃ d, nearest negative n 1 = some d ∧
      d.value = (if negative then -1 else 1) * n := by
  have hhigh : n < 2 ^ (n.log2 + 1) := Nat.lt_log2_self
  have hsplit : n.log2 + 1 + (52 - n.log2) = 53 + (n.log2 - 52) := by omega
  have hexact : wholeMantissa n * 2 ^ (n.log2 - 52) = n * 2 ^ (52 - n.log2) := by
    have hall := Dvd.dvd.mul_right hdvd (2 ^ (52 - n.log2))
    rw [wholeMantissa, roundDiv_of_dvd (Nat.two_pow_pos _) hall]
    exact Nat.div_mul_cancel hall
  have hsmall : wholeMantissa n < 2 * leastFull := by
    refine Nat.lt_of_mul_lt_mul_right (a := 2 ^ (n.log2 - 52)) ?_
    rw [hexact, leastFull_eq, ← Nat.pow_succ', ← Nat.pow_add, ← hsplit, Nat.pow_add]
    exact Nat.mul_lt_mul_of_pos_right hhigh (Nat.two_pow_pos _)
  have hcanonical : Canonical (wholeMantissa n) ((n.log2 : Int) - 52) :=
    ⟨hsmall, by omega, by omega, .inl (wholeMantissa_bounds hn).1⟩
  have hvalue : (wholeMantissa n : ℚ) * 2 ^ ((n.log2 : Int) - 52) = n := by
    have hcast : (wholeMantissa n : ℚ) * 2 ^ (n.log2 - 52) = n * 2 ^ (52 - n.log2) := by
      exact_mod_cast hexact
    have hpow : (2 : ℚ) ^ ((n.log2 : Int) - 52) * 2 ^ (52 - n.log2) = 2 ^ (n.log2 - 52) := by
      rw [← zpow_natCast, ← zpow_natCast, ← zpow_add₀ two_ne_zero]
      congr 1
      omega
    have hpos : (2 : ℚ) ^ (52 - n.log2) ≠ 0 := pow_ne_zero _ two_ne_zero
    exact mul_right_cancel₀ hpos (by rw [mul_assoc, hpow, hcast])
  refine ⟨⟨negative, _, _, hcanonical⟩, ?_, ?_⟩
  · rw [nearest_one negative hn, if_neg (Nat.ne_of_lt hsmall), ofParts_eq hcanonical]
  · rw [value, hvalue]

end Double

end SchemaHistory.Decimal
