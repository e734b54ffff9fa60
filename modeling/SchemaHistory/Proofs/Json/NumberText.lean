import SchemaHistory.Proofs.Json.Taken

/-!
# Numbers read back

The text of a number is taken to its end whenever it is read at all: what is left is what
stood behind it. An integer is read as itself. A double need not be: the reader rounds the
digits once and scales them by a power of ten that is rounded too, and where these two
roundings do not cancel it ends at a neighbour. So whether a double comes back is a
condition on the double, and it is kept as one.
-/

namespace SchemaHistory.Json

open Decimal

variable {α : Type}

/-! ## Texts that are read as a whole -/

/--
`Reads follow run x o`: before every rest that `follow` allows, `run` takes exactly `x` and
gives what `o` holds; when `o` holds nothing it refuses.
-/
def Reads (follow : List Char → Prop) (run : List Char → Except Fault (α × List Char))
    (x : List Char) (o : Option α) : Prop :=
  ∀ t, follow t → (run (x ++ t)).toOption = o.map (·, t)

theorem toOption_eq_some {ε : Type} {x : Except ε α} {v : α} (h : x.toOption = some v) : x = .ok v := by
  cases x with
  | error e => cases h
  | ok w =>
      cases h
      rfl

theorem toOption_eq_none {ε : Type} {x : Except ε α} (h : x.toOption = none) : ∃ e, x = .error e := by
  cases x with
  | error e => exact ⟨e, rfl⟩
  | ok w => cases h

theorem Reads.ok {follow : List Char → Prop} {run : List Char → Except Fault (α × List Char)}
    {x t : List Char} {v : α} (h : Reads follow run x (some v)) (ht : follow t) :
    run (x ++ t) = .ok (v, t) := toOption_eq_some (h t ht)

theorem Reads.refused {follow : List Char → Prop}
    {run : List Char → Except Fault (α × List Char)} {x t : List Char}
    (h : Reads follow run x none) (ht : follow t) : ∃ e, run (x ++ t) = .error e :=
  toOption_eq_none (h t ht)

/-- A reader that keeps what it took and always takes all of `x` reads `x` one way only. -/
theorem Keeps.reads {run : List Char → Except Fault (α × List Char)} (hkeeps : Keeps NoNumber run)
    {x : List Char} (hwhole : ∀ t, NoNumber t → ∀ v r, run (x ++ t) = .ok (v, r) → r = t) :
    Reads NoNumber run x ((run x).toOption.map Prod.fst) := by
  have hnil : ∀ v r, run x = .ok (v, r) → r = [] := by
    intro v r h
    exact hwhole [] noNumber_nil v r (by rwa [List.append_nil])
  -- what is taken before `t` is taken before nothing, and the other way round
  intro t ht
  cases h : run (x ++ t) with
  | ok p =>
      obtain ⟨v, r⟩ := p
      obtain rfl := hwhole t ht v r h
      obtain ⟨x', hx, hall⟩ := hkeeps h
      obtain rfl := List.append_cancel_right hx
      have h0 := hall [] noNumber_nil
      rw [List.append_nil] at h0
      rw [h0]
      rfl
  | error e =>
      cases h0 : run x with
      | error e => rfl
      | ok p =>
          obtain ⟨v, r⟩ := p
          obtain rfl := hnil v r h0
          obtain ⟨x', hx, hall⟩ := hkeeps h0
          rw [List.append_nil] at hx
          subst hx
          rw [hall t ht] at h
          cases h

/-! ## The shape of a number's text -/

/-- Nothing, or a point with digits behind it. -/
def IsFraction (cs : List Char) : Prop :=
  cs = [] ∨ ∃ ds, cs = '.' :: ds ∧ ∀ c ∈ ds, isDigit c = true

/-- Nothing, or a power of ten with its sign. -/
def IsPower (cs : List Char) : Prop :=
  cs = [] ∨ ∃ sign ds, cs = 'e' :: sign :: ds ∧ (sign = '-' ∨ sign = '+') ∧
    ∀ c ∈ ds, isDigit c = true

/-- The spelling of a number without sign. -/
def IsSpelling (cs : List Char) : Prop :=
  ∃ whole fraction power, cs = whole ++ (fraction ++ power) ∧ whole ≠ [] ∧
    (∀ c ∈ whole, isDigit c = true) ∧ IsFraction fraction ∧ IsPower power

theorem IsPower.noDigit {cs t : List Char} (h : IsPower cs) (ht : NoNumber t) :
    NoDigit (cs ++ t) := by
  rcases h with rfl | ⟨sign, ds, rfl, -, -⟩
  · exact ht.noDigit
  · intro c r hc
    cases hc
    rfl

theorem IsFraction.noDigit {cs t : List Char} (h : IsFraction cs) (ht : NoDigit t) :
    NoDigit (cs ++ t) := by
  rcases h with rfl | ⟨ds, rfl, -⟩
  · exact ht
  · intro c r hc
    cases hc
    rfl

/-- Digits are taken up to the first character that is none, so two ways to cut a text behind its
digits are one. -/
theorem eq_of_digits {D E r t : List Char} (h : D ++ r = E ++ t) (hD : ∀ c ∈ D, isDigit c = true)
    (hE : ∀ c ∈ E, isDigit c = true) (hr : NoDigit r) (ht : NoDigit t) : r = t := by
  rw [← dropWhile_digits hD hr, h, dropWhile_digits hE ht]

theorem scanExponent_whole {negative : Bool} {m : Nat} {e : Int} {sign : Char} {ds r t : List Char}
    {n : Number} (hsign : sign = '-' ∨ sign = '+') (hds : ∀ c ∈ ds, isDigit c = true)
    (ht : NoDigit t) (h : scanExponent negative m e (sign :: ds ++ t) = .ok (n, r)) : r = t := by
  have hdigits : powerDigits (sign :: ds ++ t) = ds ++ t := by
    rcases hsign with rfl | rfl <;> rfl
  rw [scanExponent_eq, hdigits] at h
  obtain ⟨D, hD, hdig, -, hr, -⟩ := scanPowerOf_taken h
  exact eq_of_digits hD.symm hdig hds hr ht

theorem scanFractionEnd_whole {negative : Bool} {m : Nat} {e : Int} {cs r t : List Char}
    {n : Number} (hcs : IsPower cs) (ht : NoNumber t)
    (h : scanFractionEnd negative m e (cs ++ t) = .ok (n, r)) : r = t := by
  rcases hcs with rfl | ⟨sign, ds, rfl, hsign, hds⟩
  · rw [List.nil_append, scanFractionEnd_noNumber ht] at h
    exact (scaledNumber_ok h).1
  · exact scanExponent_whole hsign hds ht.noDigit h

theorem scanWholeEnd_whole {negative : Bool} {m dropped : Nat} {fraction power r t : List Char}
    {n : Number} (hf : IsFraction fraction) (hp : IsPower power) (ht : NoNumber t)
    (h : scanWholeEnd negative m dropped (fraction ++ (power ++ t)) = .ok (n, r)) : r = t := by
  -- without a fraction the power stands behind the whole digits
  rcases hf with rfl | ⟨ds, rfl, hds⟩
  · rcases hp with rfl | ⟨sign, xs, rfl, hsign, hxs⟩
    · rw [List.nil_append, List.nil_append, scanWholeEnd_noNumber ht] at h
      split at h
      · split at h
        · exact (ok_inj h).2.symm
        · cases h
      · exact (scaledNumber_ok h).1
    · exact scanExponent_whole hsign hxs ht.noDigit h
  · change scanFraction negative m dropped (ds ++ (power ++ t)) = .ok (n, r) at h
    rw [scanFraction_digits hds (hp.noDigit ht)] at h
    split at h
    · cases h
    · exact scanFractionEnd_whole hp ht h

/-- **A spelled number is taken to its end**, if it is taken at all. -/
theorem scanNumber_whole {negative : Bool} {cs r t : List Char} {n : Number}
    (hcs : IsSpelling cs) (ht : NoNumber t)
    (h : scanNumber negative (cs ++ t) = .ok (n, r)) : r = t := by
  obtain ⟨whole, fraction, power, rfl, hne, hw, hf, hp⟩ := hcs
  have hend : NoDigit (fraction ++ (power ++ t)) := hf.noDigit (hp.noDigit ht)
  rw [List.append_assoc, List.append_assoc] at h
  cases whole with
  | nil => exact absurd rfl hne
  | cons c more =>
      rw [scanNumber_digits hw hend] at h
      split at h
      · cases h
      · exact scanWholeEnd_whole hf hp ht h

/-! ## Digits of a number -/

theorem isDigit_eq (c : Char) : isDigit c = c.isDigit := by
  unfold isDigit Text.digit? Char.isDigit
  by_cases h : '0' ≤ c ∧ c ≤ '9'
  · rw [if_pos h]
    simpa [Char.le_def] using h
  · rw [if_neg h]
    simpa [Char.le_def] using h

theorem isDigit_of_mem_ofNat {n : Nat} {c : Char} (h : c ∈ Text.ofNat n) : isDigit c = true := by
  rw [isDigit_eq]
  exact Nat.isDigit_of_mem_toDigits (by decide) (by decide) h

theorem digitValue_eq {c : Char} (h : isDigit c = true) : digitValue c = c.toNat - '0'.toNat := by
  unfold isDigit Text.digit? at h
  unfold digitValue Text.digit?
  split at h
  · rename_i hc
    rw [if_pos hc]
    rfl
  · cases h

theorem le_ofDigitChars (cs : List Char) (n : Nat) : n ≤ Nat.ofDigitChars 10 cs n := by
  rw [Nat.ofDigitChars_eq_ofDigitChars_zero]
  have : 1 * n ≤ 10 ^ cs.length * n := Nat.mul_le_mul_right n (Nat.pow_pos (by decide))
  omega

/-- Digits whose number has 64 bits all go into the significand. -/
theorem gatherWhole_ofDigitChars {cs : List Char} {n : Nat} (hcs : ∀ c ∈ cs, isDigit c = true)
    (h : Nat.ofDigitChars 10 cs n ≤ 0xFFFFFFFFFFFFFFFF) :
    gatherWhole n 0 cs = (Nat.ofDigitChars 10 cs n, 0) := by
  induction cs generalizing n with
  | nil => rw [Nat.ofDigitChars_nil]; rfl
  | cons c cs ih =>
      rw [Nat.ofDigitChars_cons, ← digitValue_eq (hcs c (by simp))] at h ⊢
      have hnext : 10 * n + digitValue c ≤ 0xFFFFFFFFFFFFFFFF :=
        Nat.le_trans (le_ofDigitChars cs _) h
      -- the number with this digit is no larger than the whole number, which fits
      rw [gatherWhole, if_pos (by simpa [fitsSignificand] using hnext)]
      exact ih (fun d hd => hcs d (by simp [hd])) h

/-- No number but zero is written with a zero first. -/
theorem ofNat_zero_head {n : Nat} {more : List Char} (h : Text.ofNat n = '0' :: more) :
    more = [] := by
  unfold Text.ofNat at h
  induction n using Nat.strongRecOn generalizing more with
  | ind n ih =>
      -- the first digit of the number is the first one of its tenth part
      rw [Nat.toDigits_eq_if (by decide)] at h
      split at h
      · exact (List.cons.inj h).2.symm
      · rename_i hn
        cases hd : Nat.toDigits 10 (n / 10) with
        | nil => exact absurd hd Nat.toDigits_ne_nil
        | cons c cs =>
            rw [hd] at h
            obtain ⟨rfl, -⟩ := List.cons.inj h
            obtain rfl := ih (n / 10) (by omega) hd
            have hzero : Nat.ofDigitChars 10 (Nat.toDigits 10 (n / 10)) 0 = n / 10 :=
              Nat.ofDigitChars_ten_toDigits
            rw [hd] at hzero
            have : (0 : Nat) = n / 10 := hzero
            omega

theorem ofNat_ne_nil (n : Nat) : Text.ofNat n ≠ [] := Nat.toDigits_ne_nil

/-- A natural of 64 bits is read whole, before the sign is looked at. -/
theorem scanNumber_ofNat {negative : Bool} {n : Nat} (h : n ≤ 0xFFFFFFFFFFFFFFFF) :
    scanNumber negative (Text.ofNat n) = match wholeNumber negative n with
      | some m => .ok (m, [])
      | none => .error (.behind .numberTooLarge []) := by
  have hdig : ∀ c ∈ Text.ofNat n, isDigit c = true := fun c => isDigit_of_mem_ofNat
  have hvalue : Nat.ofDigitChars 10 (Text.ofNat n) 0 = n := Nat.ofDigitChars_ten_toDigits
  have hgather := gatherWhole_ofDigitChars hdig (by rw [hvalue]; exact h)
  rw [hvalue] at hgather
  cases hD : Text.ofNat n with
  | nil => exact absurd hD (ofNat_ne_nil n)
  | cons c more =>
      have hzero : ¬ (c = '0' ∧ !more.isEmpty) := by
        rintro ⟨rfl, hmore⟩
        rw [ofNat_zero_head hD] at hmore
        cases hmore
      rw [hD] at hdig hgather
      have hscan : scanNumber negative (c :: more ++ []) = _ :=
        scanNumber_digits hdig noNumber_nil.noDigit
      rw [List.append_nil] at hscan
      rw [hscan, if_neg hzero, hgather]
      exact (scanWholeEnd_noNumber noNumber_nil).trans (if_pos rfl)

/-! ## Numbers -/

/-- Reads a number with its sign. -/
def scanSigned : List Char → Except Fault (Number × List Char)
  | '-' :: s => scanNumber true s
  | s => scanNumber false s

theorem scanSigned_plain {s : List Char} (h : s.head? ≠ some '-') :
    scanSigned s = scanNumber false s := by
  unfold scanSigned
  split
  · exact absurd rfl h
  · rfl

theorem scanSigned_keeps : Keeps NoNumber scanSigned := by
  intro s n r h
  by_cases hs : s.head? = some '-'
  · obtain ⟨s, rfl⟩ : ∃ s', s = '-' :: s' := List.head?_eq_some_iff.mp hs
    obtain ⟨x, hx, ht⟩ := scanNumber_keeps true h
    exact ⟨'-' :: x, by rw [hx]; rfl, ht⟩
  · rw [scanSigned_plain hs] at h
    obtain ⟨x, hx, ht⟩ := scanNumber_keeps false h
    refine ⟨x, hx, fun t hnt => ?_⟩
    rw [scanSigned_plain ?_]
    · exact ht t hnt
    · cases x with
      | nil =>
          have := scanNumber_length_lt h
          rw [hx] at this
          exact absurd this (Nat.lt_irrefl _)
      | cons c x =>
          rw [hx] at hs
          exact hs

/-- What comes back when a number is written and read. -/
def rereadNumber (n : Number) : Option Number :=
  (scanSigned (writeNumber n)).toOption.map Prod.fst

theorem integer_congr {i j : Int} {hi : FitsInteger i} {hj : FitsInteger j} (h : i = j) :
    Number.integer i hi = Number.integer j hj := by
  subst h
  rfl

theorem ofNat_head_ne_minus (n : Nat) : (Text.ofNat n).head? ≠ some '-' := by
  intro h
  have := isDigit_of_mem_ofNat (List.mem_of_head? h)
  cases this

/-- **An integer is read back as itself.** -/
theorem rereadNumber_integer (i : Int) (fits : FitsInteger i) :
    rereadNumber (.integer i fits) = some (.integer i fits) := by
  have hfits := fits
  unfold FitsInteger at hfits
  have hscan : scanSigned (Text.ofInt i) = .ok (.integer i fits, []) := by
    cases i with
    | ofNat n =>
        rw [Text.ofInt, scanSigned_plain (ofNat_head_ne_minus n)]
        rw [Int.ofNat_eq_natCast] at hfits
        rw [scanNumber_ofNat (by omega), wholeNumber]
        rw [dif_pos ⟨fits, rfl⟩]
        rfl
    | negSucc n =>
        have hneg : (if true then -((n + 1 : Nat) : Int) else ((n + 1 : Nat) : Int)) =
            Int.negSucc n := rfl
        show scanNumber true (Text.ofNat (n + 1)) = _
        rw [scanNumber_ofNat (by omega), wholeNumber]
        rw [dif_pos ⟨by rw [hneg]; exact fits, by simp⟩]
        exact congrArg (fun m => Except.ok (m, [])) (integer_congr hneg)
  rw [rereadNumber, writeNumber, hscan]
  rfl

/-! ## The spelling of a double -/

theorem isDigit_of_mem_replicate {k : Nat} {c : Char} (h : c ∈ List.replicate k '0') :
    isDigit c = true := by
  rw [List.eq_of_mem_replicate h]
  rfl

theorem positional_isSpelling {ds : List Char} (hne : ds ≠ [])
    (hds : ∀ c ∈ ds, isDigit c = true) (e : Int) : IsSpelling (positional ds e) := by
  unfold positional
  split
  · refine ⟨['0'], '.' :: (List.replicate (-e - 1).toNat '0' ++ ds), [], by simp, by simp,
      fun c hc => ?_, .inr ⟨_, rfl, fun c hc => ?_⟩, .inl rfl⟩
    · rw [List.mem_singleton.mp hc]
      rfl
    · rcases List.mem_append.mp hc with hc | hc
      · exact isDigit_of_mem_replicate hc
      · exact hds c hc
  · dsimp only
    split
    · refine ⟨ds ++ List.replicate (e.toNat + 1 - ds.length) '0', ['.', '0'], [], by simp,
        by simp [hne], fun c hc => ?_, .inr ⟨['0'], rfl, fun c hc => ?_⟩, .inl rfl⟩
      · rcases List.mem_append.mp hc with hc | hc
        · exact hds c hc
        · exact isDigit_of_mem_replicate hc
      · rw [List.mem_singleton.mp hc]
        rfl
    · exact ⟨ds.take (e.toNat + 1), '.' :: ds.drop (e.toNat + 1), [], by simp,
        by simp [hne], fun c hc => hds c (List.mem_of_mem_take hc),
        .inr ⟨_, rfl, fun c hc => hds c (List.mem_of_mem_drop hc)⟩, .inl rfl⟩

theorem scientific_isSpelling {ds : List Char} (hne : ds ≠ [])
    (hds : ∀ c ∈ ds, isDigit c = true) (e : Int) : IsSpelling (scientific ds e) := by
  have hpower : IsPower ('e' :: (if e < 0 then '-' else '+') :: Text.ofNat e.natAbs) := by
    refine .inr ⟨_, _, rfl, ?_, fun c => isDigit_of_mem_ofNat⟩
    split
    · exact .inl rfl
    · exact .inr rfl
  unfold scientific
  dsimp only
  split
  · rename_i first second rest
    refine ⟨[first], '.' :: second :: rest, _, rfl, by simp, fun c hc => hds c ?_,
      .inr ⟨_, rfl, fun c hc => hds c ?_⟩, hpower⟩
    · rw [List.mem_singleton.mp hc]
      simp
    · exact List.mem_cons_of_mem _ hc
  · exact ⟨ds, [], _, rfl, hne, hds, .inl rfl, hpower⟩

theorem spell_isSpelling (l : Layout) (d : Numeral) : IsSpelling (l.spell d) := by
  have hds : ∀ c ∈ Text.ofNat d.coefficient, isDigit c = true := fun c => isDigit_of_mem_ofNat
  unfold Layout.spell
  dsimp only
  split
  · exact positional_isSpelling (ofNat_ne_nil _) hds _
  · exact scientific_isSpelling (ofNat_ne_nil _) hds _

theorem ofNat_isSpelling (n : Nat) : IsSpelling (Text.ofNat n) :=
  ⟨Text.ofNat n, [], [], by simp, ofNat_ne_nil n, fun c => isDigit_of_mem_ofNat, .inl rfl, .inl rfl⟩

/-- The text of a number is a spelling, perhaps with a minus before it. -/
theorem writeNumber_shape (n : Number) : ∃ cs, IsSpelling cs ∧
    (writeNumber n = cs ∨ writeNumber n = '-' :: cs) := by
  cases n with
  | integer i fits =>
      cases i with
      | ofNat n => exact ⟨_, ofNat_isSpelling n, .inl rfl⟩
      | negSucc n => exact ⟨_, ofNat_isSpelling (n + 1), .inr rfl⟩
  | double d =>
      refine ⟨_, spell_isSpelling doubleLayout d.shortest, ?_⟩
      rw [writeNumber, Layout.double]
      split
      · exact .inr rfl
      · exact .inl rfl

theorem IsSpelling.head {cs : List Char} (h : IsSpelling cs) :
    ∃ c rest, cs = c :: rest ∧ isDigit c = true := by
  obtain ⟨whole, fraction, power, rfl, hne, hw, -, -⟩ := h
  cases whole with
  | nil => exact absurd rfl hne
  | cons c more => exact ⟨c, _, rfl, hw c (by simp)⟩

theorem ne_minus_of_isDigit {c : Char} (h : isDigit c = true) : c ≠ '-' := by
  rintro rfl
  cases h

/-- **A number's text is read one way only**, whatever stands behind it that cannot go on with
it. -/
theorem scanSigned_reads (n : Number) :
    Reads NoNumber scanSigned (writeNumber n) (rereadNumber n) := by
  -- it is enough that nothing of the spelling is left
  refine scanSigned_keeps.reads fun t ht m r h => ?_
  obtain ⟨cs, hcs, hn | hn⟩ := writeNumber_shape n
  · rw [hn] at h
    obtain ⟨c, rest, rfl, hc⟩ := hcs.head
    rw [List.cons_append, scanSigned_plain (by simpa using ne_minus_of_isDigit hc)] at h
    exact scanNumber_whole hcs ht h
  · rw [hn] at h
    exact scanNumber_whole hcs ht h

/-! ## Equal numbers -/

/-- The two zeros are read back with their signs. -/
theorem rereadNumber_zero (negative : Bool) :
    rereadNumber (.double { Double.zero with negative }) =
      some (.double { Double.zero with negative }) := by
  cases negative <;> decide +kernel

theorem double_ext {a b : Double} (hn : a.negative = b.negative)
    (hm : a.mantissa = b.mantissa) (hx : a.exponent = b.exponent) : a = b := by
  cases a
  cases b
  cases hn
  cases hm
  cases hx
  rfl

/-- A double without mantissa is one of the two zeros. -/
theorem double_eq_zero {d : Double} (h : d.mantissa = 0) :
    d = { Double.zero with negative := d.negative } := by
  have hx : d.exponent = -1074 := by
    rcases d.canonical.2.2.2 with hfull | hx
    · rw [h] at hfull
      exact absurd hfull (by decide)
    · exact hx
  exact double_ext rfl h hx

/--
What comes back has the value of what was written only if it is what was written: the
comparison that takes the two zeros for one never has to.
-/
theorem rereadNumber_same {n m : Number} (h : rereadNumber n = some m) (hs : m.same n = true) :
    m = n := by
  cases n with
  | integer i fits =>
      rw [rereadNumber_integer] at h
      exact (Option.some.inj h).symm
  | double d =>
      by_cases hd : d.mantissa = 0
      · rw [double_eq_zero hd, rereadNumber_zero] at h
        rw [← Option.some.inj h, ← double_eq_zero hd]
      · cases m with
        | integer i fits => cases hs
        | double e =>
            change e.sameValue d = true at hs
            unfold Double.sameValue at hs
            simp only [Bool.and_eq_true, Bool.or_eq_true, beq_iff_eq] at hs
            obtain ⟨⟨hm, hx⟩, hn | hzero⟩ := hs
            · rw [double_ext hn hm hx]
            · rw [hm] at hzero
              exact absurd hzero hd

end SchemaHistory.Json
