import SchemaHistory.Proofs.CommandLine.Line
import SchemaHistory.Proofs.Json.IntegerLiteral

/-!
# Integers on the command line

The value of an attribute may be spelled as an integer of any length. An integer of 64 bits is
stored as it is, and a spelling past the largest double is stored as the text it is. What lies
between them is stored as a double, which need not be the integer that was given: that the value
reads as a number is all that is looked at.
-/

namespace SchemaHistory.Attribute

open Decimal Json

variable {attributes : List (String × String)} {key : String} {l : IntegerLiteral}

/-- A literal that is read as no number is a text. -/
theorem value_literal (l : IntegerLiteral) :
    value l.text = (l.number?.map Json.number).getD (.string l.text) := by
  have hread := l.read_chars
  rw [value, IntegerLiteral.text, String.toList_ofList]
  cases hn : l.number? with
  | none =>
      rw [hn] at hread
      obtain ⟨e, he⟩ := toOption_eq_none hread
      rw [he]
      rfl
  | some n =>
      rw [hn] at hread
      rw [toOption_eq_some hread]
      rfl

/-- What is stored for a literal past 64 bits is its double, or the literal if it has none. -/
theorem value_of_not_fits (hfits : ¬ FitsInteger l.value) :
    value l.text = (l.rounded.map (Json.number ∘ Number.double)).getD (.string l.text) := by
  rw [value_literal, IntegerLiteral.number?_of_not_fits hfits, Option.map_map]

/-- Past 64 bits the integer is kept if its double stands for it or there is none. -/
theorem keptIn_of_not_fits (hfits : ¬ FitsInteger l.value) :
    l.KeptIn (value l.text) ↔ ∀ d, l.rounded = some d → d.value = l.value := by
  rw [value_of_not_fits hfits, IntegerLiteral.KeptIn]
  cases l.rounded with
  | none => simp
  | some d => simp [Number.value]

/--
**What is stored for an integer literal** that was given last under a key. An integer of 64 bits is
stored as a number that means it, and of any other literal the double it is rounded to, or the
literal itself if that is past the largest double, as it is with more than 328 digits. So the integer
is kept in exactly these cases and where the double means it, and for that it has to be a multiple of
2048, which is enough between `-2 ^ 64` and `-2 ^ 63`.
-/
theorem integer_in_document (h : Assoc.get? attributes.reverse key = some l.text) :
    ∃ v, Assoc.get? (document attributes) key = some v ∧
      (l.KeptIn v ↔ FitsInteger l.value ∨ ∀ d, l.rounded = some d → d.value = l.value) ∧
      (FitsInteger l.value → ∃ n, v = .number n ∧ n.value = l.value) ∧
      (¬ FitsInteger l.value →
        v = (l.rounded.map (Json.number ∘ Number.double)).getD (.string l.text)) ∧
      (328 < l.digits.length → v = .string l.text) ∧
      (¬ FitsInteger l.value → ∀ n, v = .number n → n.value = l.value → 2048 ∣ l.value) ∧
      (-0x10000000000000000 < l.value → l.value < -0x8000000000000000 →
        (l.KeptIn v ↔ 2048 ∣ l.value)) := by
  refine ⟨value l.text, by rw [get?_document, h]; rfl, ?_, ?_, value_of_not_fits, ?_, ?_, ?_⟩
  · by_cases hfits : FitsInteger l.value
    · obtain ⟨n, hn, hvalue⟩ := IntegerLiteral.value_of_fits hfits
      exact ⟨fun _ => .inl hfits, fun _ => .inl ⟨n, by rw [value_literal, hn]; rfl, hvalue⟩⟩
    · rw [keptIn_of_not_fits hfits, or_iff_right hfits]
  · intro hfits
    obtain ⟨n, hn, hvalue⟩ := IntegerLiteral.value_of_fits hfits
    exact ⟨n, by rw [value_literal, hn]; rfl, hvalue⟩
  · intro hlong
    rw [value_of_not_fits (IntegerLiteral.not_fits_of_long (by omega)),
      IntegerLiteral.rounded_of_long hlong]
    rfl
  · intro hfits n hn hvalue
    rw [value_of_not_fits hfits] at hn
    cases hr : l.rounded with
    | none =>
        rw [hr] at hn
        cases hn
    | some d =>
        rw [hr] at hn
        cases hn
        exact IntegerLiteral.dvd_of_not_fits hfits hvalue
  · intro hlow hhigh
    have hfits : ¬ FitsInteger l.value := fun hfits => by
      have := hfits.1
      omega
    obtain ⟨d, hd, hexact⟩ := IntegerLiteral.rounded_of_negative hlow hhigh
    rw [keptIn_of_not_fits hfits]
    constructor
    · intro hkept
      exact IntegerLiteral.dvd_of_not_fits hfits (hkept d hd)
    · intro hdvd e he
      rw [hd] at he
      cases he
      exact hexact hdvd

/-- The literal of the second integer past 64 bits. -/
def pastSixtyFour : IntegerLiteral where
  negative := false
  digits := "18446744073709551617".toList
  nonempty := by decide
  areDigits := List.all_eq_true.mp (by decide)
  noLeadingZero := by decide

/-- It is stored as a number that is one less. -/
theorem integer_in_document_pastSixtyFour :
    ∃ v, Assoc.get? (document [("pos", pastSixtyFour.text)]) "pos" = some v ∧
      ¬ pastSixtyFour.KeptIn v ∧ ∃ n, v = .number n ∧ n.value = 18446744073709551616 := by
  obtain ⟨v, hv, hkept, -, hrounded, -⟩ :=
    integer_in_document (show Assoc.get? [("pos", pastSixtyFour.text)].reverse "pos" =
      some pastSixtyFour.text from rfl)
  have hfits : ¬ FitsInteger pastSixtyFour.value := by decide +kernel
  have hdouble : pastSixtyFour.rounded = some ⟨false, leastFull, 12, by decide⟩ := by
    decide +kernel
  have hmeans : Double.value ⟨false, leastFull, 12, by decide⟩ = 18446744073709551616 := by
    norm_num [Double.value, leastFull]
  have hspelled : (pastSixtyFour.value : ℚ) = 18446744073709551617 := by
    have : pastSixtyFour.value = 18446744073709551617 := by decide +kernel
    rw [this]
    norm_num
  refine ⟨v, hv, fun h => ?_, .double _, by rw [hrounded hfits, hdouble]; rfl, hmeans⟩
  have := (hkept.mp h).resolve_left hfits _ hdouble
  rw [hmeans, hspelled] at this
  norm_num at this

end SchemaHistory.Attribute
