import SchemaHistory.Json.Reader

/-!
# What a reader took

A reader that answers has taken the head of its text and left the rest. What it took is
read the same way again with another rest behind it: no scanner looks past what it takes,
with one exception. A number ends only where something follows that cannot go on with it,
so for numbers the rest is not free.

This is what makes a cut text unreadable. Had the cut text been read as an object, the
whole text would be read as the same object with something left over.
-/

namespace SchemaHistory.Json

variable {α β : Type}

/-- The text cannot go on with a number. -/
def NoNumber (t : List Char) : Prop :=
  ∀ c r, t = c :: r → isDigit c = false ∧ c ≠ '.' ∧ c ≠ 'e' ∧ c ≠ 'E'

/-- The text cannot go on with digits. -/
def NoDigit (t : List Char) : Prop := ∀ c r, t = c :: r → isDigit c = false

theorem NoNumber.noDigit {t : List Char} (h : NoNumber t) : NoDigit t :=
  fun c r ht => (h c r ht).1

theorem noNumber_nil : NoNumber [] := fun c r h => by cases h

theorem noNumber_cons {c : Char} {t : List Char}
    (h : isDigit c = false ∧ c ≠ '.' ∧ c ≠ 'e' ∧ c ≠ 'E') : NoNumber (c :: t) := by
  intro d r hd
  cases hd
  exact h

/--
`Keeps follow run`: what `run` takes, it takes again before any rest that `follow` allows,
and with the same value.
-/
def Keeps (follow : List Char → Prop) (run : List Char → Except Fault (α × List Char)) : Prop :=
  ∀ ⦃s : List Char⦄ ⦃v : α⦄ ⦃r : List Char⦄, run s = .ok (v, r) →
    ∃ x, s = x ++ r ∧ ∀ t, follow t → run (x ++ t) = .ok (v, t)

/-- Every rest is allowed. -/
def Anything (_ : List Char) : Prop := True

theorem Keeps.weaken {follow : List Char → Prop}
    {run : List Char → Except Fault (α × List Char)} (h : Keeps Anything run) :
    Keeps follow run := by
  intro s v r hs
  obtain ⟨x, hx, ht⟩ := h hs
  exact ⟨x, hx, fun t _ => ht t trivial⟩

theorem Keeps.mapScan {follow : List Char → Prop} {f : α → β}
    {run : List Char → Except Fault (α × List Char)} (h : Keeps follow run) :
    Keeps follow fun s => mapScan f (run s) := by
  intro s w r hs
  obtain ⟨v, hv, rfl⟩ := mapScan_eq_ok.1 hs
  obtain ⟨x, hx, ht⟩ := h hv
  exact ⟨x, hx, fun t hft => mapScan_eq_ok.2 ⟨v, ht t hft, rfl⟩⟩

theorem ok_inj {v w : α} {r s : List Char}
    (h : (Except.ok (v, r) : Except Fault (α × List Char)) = .ok (w, s)) : v = w ∧ r = s := by
  injection h with h
  exact Prod.mk.inj h

/-! ## Blanks and words -/

theorem skipSpace_head {s r : List Char} {c : Char} (h : skipSpace s = c :: r) :
    isSpace c = false := by
  have hne : s.dropWhile isSpace ≠ [] := by rw [show s.dropWhile isSpace = c :: r from h]; simp
  have := List.head_dropWhile_not isSpace hne
  simpa [show s.dropWhile isSpace = c :: r from h] using this

theorem skipSpace_cons {c : Char} {t : List Char} (h : isSpace c = false) :
    skipSpace (c :: t) = c :: t := List.dropWhile_cons_of_neg (by simp [h])

/-- Skipped blanks are skipped again before the character that ended them. -/
theorem skipSpace_taken {s r : List Char} {c : Char} (h : skipSpace s = c :: r) :
    ∃ sp, s = sp ++ c :: r ∧ (∀ d ∈ sp, isSpace d = true) ∧
      ∀ t, skipSpace (sp ++ c :: t) = c :: t := by
  have hsp : ∀ d ∈ s.takeWhile isSpace, isSpace d = true := fun d hd => by
    exact List.all_eq_true.1 List.all_takeWhile d hd
  refine ⟨s.takeWhile isSpace, ?_, hsp, fun t => ?_⟩
  · rw [← show s.dropWhile isSpace = c :: r from h, List.takeWhile_append_dropWhile]
  · rw [skipSpace, List.dropWhile_append_of_pos hsp]
    exact skipSpace_cons (skipSpace_head h)

theorem isSpace_noNumber {c : Char} (h : isSpace c = true) :
    isDigit c = false ∧ c ≠ '.' ∧ c ≠ 'e' ∧ c ≠ 'E' := by
  simp only [isSpace, Bool.or_eq_true, decide_eq_true_eq] at h
  rcases h with ((rfl | rfl) | rfl) | rfl <;> decide

/-- Blanks and then a character that cannot go on with a number cannot go on with it either. -/
theorem noNumber_space {sp t : List Char} {c : Char} (hsp : ∀ d ∈ sp, isSpace d = true)
    (hc : isDigit c = false ∧ c ≠ '.' ∧ c ≠ 'e' ∧ c ≠ 'E') : NoNumber (sp ++ c :: t) := by
  cases sp with
  | nil => exact noNumber_cons hc
  | cons d sp => exact noNumber_cons (isSpace_noNumber (hsp d (by simp)))

theorem scanWord_taken {w s r : List Char} (h : scanWord w s = .ok r) :
    s = w ++ r ∧ ∀ t, scanWord w (w ++ t) = .ok t := by
  induction w generalizing s with
  | nil =>
      rw [scanWord] at h
      cases h
      exact ⟨rfl, fun t => rfl⟩
  | cons e w ih =>
      cases s with
      | nil => simp [scanWord] at h
      | cons c s =>
          rw [scanWord] at h
          split at h
          · rename_i hce
            obtain ⟨hs, ht⟩ := ih h
            refine ⟨by rw [hce, hs]; rfl, fun t => ?_⟩
            rw [List.cons_append, scanWord, if_pos rfl]
            exact ht t
          · cases h

theorem readWord_keeps (word : List Char) (v : Json) : Keeps Anything (readWord word v) := by
  intro s w r h
  unfold readWord at h
  split at h
  · cases h
  · rename_i rest hw
    cases h
    obtain ⟨hs, ht⟩ := scanWord_taken hw
    refine ⟨word, hs, fun t _ => ?_⟩
    rw [readWord, ht t]

/-! ## Texts -/

/-- Digits that are read one by one are as many as the characters. -/
theorem length_of_mapM {f : Char → Option Nat} {cs : List Char} {ns : List Nat}
    (h : cs.mapM f = some ns) : ns.length = cs.length := by
  induction cs generalizing ns with
  | nil => simp at h; rw [h]; rfl
  | cons c cs ih =>
      rw [List.mapM_cons] at h
      obtain ⟨n, -, h⟩ := Option.bind_eq_some_iff.1 h
      obtain ⟨ms, hms, h⟩ := Option.bind_eq_some_iff.1 h
      cases h
      rw [List.length_cons, List.length_cons, ih hms]

theorem scanUnit_keeps : Keeps Anything scanUnit := by
  intro s n r h
  unfold scanUnit at h
  split at h
  · cases h
  · rename_i hcount
    split at h
    · rename_i a b c d hd
      obtain ⟨rfl, rfl⟩ := ok_inj h
      have hlen : (s.take 4).length = 4 := by
        rw [← length_of_mapM hd]; rfl
      refine ⟨s.take 4, (List.take_append_drop 4 s).symm, fun t _ => ?_⟩
      rw [scanUnit, List.take_append_of_le_length (by omega), List.take_of_length_le (by omega),
        if_neg hcount, hd, List.drop_append, hlen]
      simp [List.drop_eq_nil_of_le (Nat.le_of_eq hlen)]
    · cases h

theorem scanSecondHalf_keeps (high : Nat) : Keeps Anything (scanSecondHalf high) := by
  intro s c r h
  unfold scanSecondHalf at h
  split at h
  · cases h
  rename_i b s'
  split at h
  · cases h
  rename_i hb
  split at h
  · cases h
  rename_i u s''
  split at h
  · cases h
  rename_i hu
  split at h
  · cases h
  · rename_i low rest hunit
    obtain ⟨x, hx, ht⟩ := scanUnit_keeps hunit
    split at h
    · rename_i hlow
      obtain ⟨rfl, rfl⟩ := ok_inj h
      refine ⟨b :: u :: x, by rw [hx]; rfl, fun t _ => ?_⟩
      rw [List.cons_append, List.cons_append, scanSecondHalf, if_neg hb]
      rw [if_neg hu, ht t trivial]
      dsimp only
      rw [if_pos hlow]
    · cases h

theorem scanCodePoint_keeps : Keeps Anything scanCodePoint := by
  intro s c r h
  unfold scanCodePoint at h
  split at h
  · cases h
  · rename_i high rest hunit
    obtain ⟨x, hx, ht⟩ := scanUnit_keeps hunit
    split at h
    · cases h
    rename_i hlow
    split at h
    · rename_i hhigh
      -- the first half of a pair, so its second half is taken too
      obtain ⟨y, hy, hty⟩ := scanSecondHalf_keeps high h
      refine ⟨x ++ y, by rw [hx, hy, List.append_assoc], fun t _ => ?_⟩
      rw [List.append_assoc, scanCodePoint, ht _ trivial]
      dsimp only
      rw [if_neg hlow, if_pos hhigh]
      exact hty t trivial
    · rename_i hhigh
      obtain ⟨rfl, rfl⟩ := ok_inj h
      refine ⟨x, hx, fun t _ => ?_⟩
      rw [scanCodePoint, ht t trivial]
      dsimp only
      rw [if_neg hlow, if_neg hhigh]

theorem scanEscape_keeps : Keeps Anything scanEscape := by
  intro s c r h
  cases s with
  | nil => simp [scanEscape] at h
  | cons d s =>
      rw [scanEscape] at h
      split at h
      · rename_i e he
        obtain ⟨rfl, rfl⟩ := ok_inj h
        refine ⟨[d], rfl, fun t _ => ?_⟩
        rw [List.cons_append, scanEscape, he]
        rfl
      · rename_i he
        split at h
        · rename_i hu
          obtain ⟨x, hx, ht⟩ := scanCodePoint_keeps h
          refine ⟨d :: x, by rw [hx]; rfl, fun t _ => ?_⟩
          rw [List.cons_append, scanEscape, he]
          dsimp only
          rw [if_pos hu]
          exact ht t trivial
        · cases h

/-! ### One step of reading a text -/

theorem scanString_quote (acc rest : List Char) :
    scanString acc ('"' :: rest) = .ok (String.ofList acc.reverse, rest) := by
  rw [scanString, if_pos rfl]

theorem scanString_escape {acc s rest : List Char} {e : Char} (h : scanEscape s = .ok (e, rest)) :
    scanString acc ('\\' :: s) = scanString (e :: acc) rest := by
  rw [scanString, if_neg (by decide), if_pos rfl]
  split
  · rename_i f hf
    rw [h] at hf
    cases hf
  · rename_i e' rest' hok
    rw [h] at hok
    cases hok
    rfl

theorem scanString_plain {acc rest : List Char} {c : Char} (hq : c ≠ '"') (hb : c ≠ '\\')
    (hc : ¬ c.toNat < 0x20) : scanString acc (c :: rest) = scanString (c :: acc) rest := by
  rw [scanString, if_neg hq, if_neg hb, if_neg hc]

theorem scanString_keeps (acc : List Char) : Keeps Anything (scanString acc) := by
  intro s v r h
  fun_induction scanString acc s with
  | case1 => cases h
  | case2 acc rest =>
      cases h
      exact ⟨['"'], rfl, fun t _ => scanString_quote acc t⟩
  | case3 => cases h
  | case4 acc s e rest hesc _ ih =>
      obtain ⟨x, hx, ht⟩ := scanEscape_keeps hesc
      obtain ⟨y, hy, hty⟩ := ih h
      refine ⟨'\\' :: (x ++ y), by rw [hx, hy]; simp, fun t _ => ?_⟩
      rw [List.cons_append, List.append_assoc, scanString_escape (ht _ trivial)]
      exact hty t trivial
  | case5 => cases h
  | case6 acc c rest hq hb hc ih =>
      obtain ⟨y, hy, hty⟩ := ih h
      refine ⟨c :: y, by rw [hy]; rfl, fun t _ => ?_⟩
      rw [List.cons_append, scanString_plain hq hb hc]
      exact hty t trivial

/-! ## Numbers -/

theorem takeWhile_digits {D t : List Char} (hD : ∀ c ∈ D, isDigit c = true) (ht : NoDigit t) :
    (D ++ t).takeWhile isDigit = D := by
  rw [List.takeWhile_append_of_pos hD]
  cases t with
  | nil => simp
  | cons c t => rw [List.takeWhile_cons_of_neg (by simp [ht c t rfl]), List.append_nil]

theorem dropWhile_digits {D t : List Char} (hD : ∀ c ∈ D, isDigit c = true) (ht : NoDigit t) :
    (D ++ t).dropWhile isDigit = t := by
  rw [List.dropWhile_append_of_pos hD]
  cases t with
  | nil => rfl
  | cons c t => exact List.dropWhile_cons_of_neg (by simp [ht c t rfl])

theorem isDigit_of_mem_takeWhile {s : List Char} {c : Char} (h : c ∈ s.takeWhile isDigit) :
    isDigit c = true := List.all_eq_true.1 List.all_takeWhile c h

theorem noDigit_dropWhile (s : List Char) : NoDigit (s.dropWhile isDigit) := by
  intro c r h
  have hne : s.dropWhile isDigit ≠ [] := by rw [h]; simp
  have := List.head_dropWhile_not isDigit hne
  simpa [h] using this

/-- The digits of a power are taken up to the first character that is none. -/
theorem scanPower_taken {power : Nat} {s : List Char} :
    (∀ q r, scanPower power s = .ok (q, r) → ∃ D, s = D ++ r ∧ (∀ c ∈ D, isDigit c = true) ∧
      NoDigit r ∧ ∀ t, NoDigit t → scanPower power (D ++ t) = .ok (q, t)) ∧
    ∀ r, scanPower power s = .error r → ∃ D, s = D ++ r ∧ (∀ c ∈ D, isDigit c = true) ∧
      D ≠ [] ∧ ∀ t, scanPower power (D ++ t) = .error t := by
  -- the induction is on the text; each digit that is taken changes the power so far
  induction s generalizing power with
  | nil =>
      refine ⟨fun q r h => ?_, fun r h => by simp [scanPower] at h⟩
      rw [scanPower] at h
      cases h
      refine ⟨[], rfl, by simp, noNumber_nil.noDigit, fun t ht => ?_⟩
      cases t with
      | nil => rfl
      | cons c t => rw [List.nil_append, scanPower, if_neg (by simp [ht c t rfl])]
  | cons c s ih =>
      by_cases hc : isDigit c = true
      · by_cases hp : 10 * power + digitValue c ≤ maxPower
        · have hstep : ∀ t, scanPower power (c :: t) = scanPower (10 * power + digitValue c) t :=
            fun t => by rw [scanPower, if_pos hc]; exact if_pos hp
          constructor
          · intro q r h
            rw [hstep] at h
            obtain ⟨D, hs, hD, hr, ht⟩ := ih.1 q r h
            refine ⟨c :: D, by rw [hs]; rfl, ?_, hr, fun t hnt => ?_⟩
            · simpa using ⟨hc, hD⟩
            · rw [List.cons_append, hstep, ht t hnt]
          · intro r h
            rw [hstep] at h
            obtain ⟨D, hs, hD, -, ht⟩ := ih.2 r h
            refine ⟨c :: D, by rw [hs]; rfl, ?_, by simp, fun t => ?_⟩
            · simpa using ⟨hc, hD⟩
            · rw [List.cons_append, hstep, ht t]
        · -- this digit is the one that goes past the largest power
          have hstep : ∀ t, scanPower power (c :: t) = .error t :=
            fun t => by rw [scanPower, if_pos hc]; exact if_neg hp
          constructor
          · intro q r h
            rw [hstep] at h
            cases h
          · intro r h
            rw [hstep] at h
            cases h
            exact ⟨[c], rfl, by simpa using hc, by simp, hstep⟩
      · constructor
        · intro q r h
          rw [scanPower, if_neg hc] at h
          cases h
          refine ⟨[], rfl, by simp, fun d r h => ?_, fun t ht => ?_⟩
          · cases h
            simpa using hc
          · cases t with
            | nil => rfl
            | cons d t => rw [List.nil_append, scanPower, if_neg (by simp [ht d t rfl])]
        · intro r h
          rw [scanPower, if_neg hc] at h
          cases h

theorem scaledNumber_ok {negative : Bool} {m : Nat} {e : Int} {s r : List Char} {n : Number}
    (h : scaledNumber negative m e s = .ok (n, r)) :
    r = s ∧ ∀ t, scaledNumber negative m e t = .ok (n, t) := by
  unfold scaledNumber at h
  split at h
  · rename_i d hd
    obtain ⟨rfl, rfl⟩ := ok_inj h
    exact ⟨rfl, fun t => by rw [scaledNumber, hd]⟩
  · cases h

/-- The digits of a power of ten behind its sign. -/
def powerDigits (s : List Char) : List Char :=
  if (s.head? == some '-') || s.head? == some '+' then s.tail else s

/-- What is made of the digits of a power of ten, which goes down or up. -/
def scanPowerOf (negative : Bool) (m : Nat) (e : Int) (down : Bool) (digits : List Char) :
    Except Fault (Number × List Char) :=
  match digits with
  | [] => .error (.behind .unfinishedValue [])
  | c :: _ =>
    if !isDigit c then .error (.next .badNumber digits)
    else
      match scanPower 0 digits with
      | .ok (power, rest) =>
        scaledNumber negative m (if down then e - power else e + power) rest
      | .error rest =>
        if m ≠ 0 ∧ !down then .error (.behind .numberTooLarge rest)
        else .ok (signed negative .zero, rest.dropWhile isDigit)

theorem scanExponent_eq (negative : Bool) (m : Nat) (e : Int) (s : List Char) :
    scanExponent negative m e s =
      scanPowerOf negative m e (s.head? == some '-') (powerDigits s) := rfl

theorem scanPowerOf_digits {negative down : Bool} {m : Nat} {e : Int} {D t : List Char}
    (hD : ∀ c ∈ D, isDigit c = true) (hne : D ≠ []) :
    scanPowerOf negative m e down (D ++ t) = match scanPower 0 (D ++ t) with
      | .ok (power, rest) =>
        scaledNumber negative m (if down then e - power else e + power) rest
      | .error rest =>
        if m ≠ 0 ∧ !down then .error (.behind .numberTooLarge rest)
        else .ok (signed negative .zero, rest.dropWhile isDigit) := by
  cases D with
  | nil => exact absurd rfl hne
  | cons d D =>
      rw [List.cons_append, scanPowerOf, if_neg (by simp [hD d (by simp)])]

/-- A power of ten is taken with all its digits. -/
theorem scanPowerOf_taken {negative down : Bool} {m : Nat} {e : Int} {s r : List Char}
    {n : Number} (h : scanPowerOf negative m e down s = .ok (n, r)) :
    ∃ D, s = D ++ r ∧ (∀ c ∈ D, isDigit c = true) ∧ D ≠ [] ∧ NoDigit r ∧
      ∀ t, NoDigit t → scanPowerOf negative m e down (D ++ t) = .ok (n, t) := by
  cases s with
  | nil => cases h
  | cons c s =>
      rw [scanPowerOf] at h
      split at h
      · cases h
      rename_i hc
      have hc : isDigit c = true := by simpa using hc
      split at h
      · rename_i power rest hp
        obtain ⟨rfl, hscaled⟩ := scaledNumber_ok h
        obtain ⟨D, hD, hdig, hrest, ht⟩ := scanPower_taken.1 _ _ hp
        have hne : D ≠ [] := by
          rintro rfl
          have := hrest c s (by rw [hD]; rfl)
          rw [hc] at this
          cases this
        refine ⟨D, hD, hdig, hne, hrest, fun t hnt => ?_⟩
        rw [scanPowerOf_digits hdig hne, ht t hnt]
        exact hscaled t
      · rename_i rest hp
        -- the power is past the largest one, and the digits that are left of it are skipped
        obtain ⟨D, hD, hdig, hne, ht⟩ := scanPower_taken.2 _ hp
        split at h
        · cases h
        rename_i hzero
        obtain ⟨rfl, rfl⟩ := ok_inj h
        have hall : ∀ c ∈ D ++ rest.takeWhile isDigit, isDigit c = true := by
          intro c hc
          rcases List.mem_append.mp hc with hc | hc
          · exact hdig c hc
          · exact isDigit_of_mem_takeWhile hc
        refine ⟨D ++ rest.takeWhile isDigit, ?_, hall, by simp [hne], noDigit_dropWhile rest,
          fun t hnt => ?_⟩
        · rw [hD, List.append_assoc, List.takeWhile_append_dropWhile]
        · rw [scanPowerOf_digits hall (by simp [hne]), List.append_assoc, ht]
          dsimp only
          rw [if_neg hzero, dropWhile_digits (fun c hc => isDigit_of_mem_takeWhile hc) hnt]

/-- The sign of a power of ten stands before its digits, or there is none. -/
theorem powerDigits_sign (s : List Char) : ∃ sign, s = sign ++ powerDigits s ∧
    ∀ D t, D ≠ [] → (∀ c ∈ D, isDigit c = true) →
      ((sign ++ (D ++ t)).head? == some '-') = (s.head? == some '-') ∧
        powerDigits (sign ++ (D ++ t)) = D ++ t := by
  by_cases hs : ((s.head? == some '-') || s.head? == some '+') = true
  · cases s with
    | nil => cases hs
    | cons c s =>
        refine ⟨[c], ?_, fun D t _ _ => ⟨rfl, ?_⟩⟩
        · rw [powerDigits, if_pos hs]; rfl
        · exact if_pos hs
  · refine ⟨[], ?_, fun D t hne hD => ?_⟩
    · rw [powerDigits, if_neg hs]; rfl
    · cases D with
      | nil => exact absurd rfl hne
      | cons d D =>
          have hd : isDigit d = true := hD d (by simp)
          have h1 : d ≠ '-' := by rintro rfl; cases hd
          have h2 : d ≠ '+' := by rintro rfl; cases hd
          rw [Bool.or_eq_true, not_or] at hs
          refine ⟨?_, ?_⟩
          · rw [Bool.eq_false_iff.mpr hs.1]
            simp [h1]
          · rw [powerDigits, if_neg (by simp [h1, h2])]; rfl

theorem scanExponent_taken {negative : Bool} {m : Nat} {e : Int} {s r : List Char} {n : Number}
    (h : scanExponent negative m e s = .ok (n, r)) :
    ∃ x, s = x ++ r ∧ ∀ t, NoDigit t → scanExponent negative m e (x ++ t) = .ok (n, t) := by
  rw [scanExponent_eq] at h
  obtain ⟨D, hD, hdig, hne, -, ht⟩ := scanPowerOf_taken h
  obtain ⟨sign, hs, hsign⟩ := powerDigits_sign s
  refine ⟨sign ++ D, by rw [List.append_assoc, ← hD]; exact hs, fun t hnt => ?_⟩
  obtain ⟨h1, h2⟩ := hsign D t hne hdig
  rw [List.append_assoc, scanExponent_eq, h1, h2]
  exact ht t hnt

/-- What is made of the text behind the digits of a fraction. -/
def scanFractionEnd (negative : Bool) (m : Nat) (e : Int) (t : List Char) :
    Except Fault (Number × List Char) :=
  match t with
  | 'e' :: r => scanExponent negative m e r
  | 'E' :: r => scanExponent negative m e r
  | _ => scaledNumber negative m e t

theorem scanFractionEnd_noNumber {negative : Bool} {m : Nat} {e : Int} {t : List Char}
    (ht : NoNumber t) : scanFractionEnd negative m e t = scaledNumber negative m e t := by
  unfold scanFractionEnd
  split
  · exact absurd rfl (ht _ _ rfl).2.2.1
  · exact absurd rfl (ht _ _ rfl).2.2.2
  · rfl

theorem scanFractionEnd_taken {negative : Bool} {m : Nat} {e : Int} {s r : List Char}
    {n : Number} (h : scanFractionEnd negative m e s = .ok (n, r)) :
    ∃ x, s = x ++ r ∧ (NoDigit s → ∀ t, NoNumber t → NoDigit (x ++ t)) ∧
      ∀ t, NoNumber t → scanFractionEnd negative m e (x ++ t) = .ok (n, t) := by
  have hletter : ∀ {c : Char} {x : List Char}, isDigit c = false → ∀ t, NoDigit (c :: x ++ t) :=
    fun hc t d r hd => by cases hd; exact hc
  unfold scanFractionEnd at h
  split at h
  · rename_i s
    obtain ⟨x, hx, ht⟩ := scanExponent_taken h
    exact ⟨'e' :: x, by rw [hx]; rfl, fun _ t _ => hletter rfl t, fun t hnt => ht t hnt.noDigit⟩
  · rename_i s
    obtain ⟨x, hx, ht⟩ := scanExponent_taken h
    exact ⟨'E' :: x, by rw [hx]; rfl, fun _ t _ => hletter rfl t, fun t hnt => ht t hnt.noDigit⟩
  · obtain ⟨rfl, hscaled⟩ := scaledNumber_ok h
    refine ⟨[], rfl, fun _ t hnt => hnt.noDigit, fun t hnt => ?_⟩
    rw [List.nil_append, scanFractionEnd_noNumber hnt]
    exact hscaled t

theorem scanFraction_digits {negative : Bool} {m dropped : Nat} {D t : List Char}
    (hD : ∀ c ∈ D, isDigit c = true) (ht : NoDigit t) :
    scanFraction negative m dropped (D ++ t) =
      if D.isEmpty then .error (.next (if t.isEmpty then .unfinishedValue else .badNumber) t)
      else scanFractionEnd negative (gatherFraction m 0 D).1
        (dropped - (gatherFraction m 0 D).2 : Int) t := by
  rw [scanFraction, takeWhile_digits hD ht, dropWhile_digits hD ht]
  rfl

theorem scanFraction_keeps (negative : Bool) (m dropped : Nat) :
    Keeps NoNumber (scanFraction negative m dropped) := by
  intro s n r h
  have hdig : ∀ c ∈ s.takeWhile isDigit, isDigit c = true :=
    fun c hc => isDigit_of_mem_takeWhile hc
  rw [← List.takeWhile_append_dropWhile (p := isDigit) (l := s),
    scanFraction_digits hdig (noDigit_dropWhile s)] at h
  split at h
  · cases h
  rename_i hempty
  obtain ⟨x, hx, hnd, ht⟩ := scanFractionEnd_taken h
  refine ⟨s.takeWhile isDigit ++ x, ?_, fun t hnt => ?_⟩
  · rw [List.append_assoc, ← hx, List.takeWhile_append_dropWhile]
  · rw [List.append_assoc, scanFraction_digits hdig (hnd (noDigit_dropWhile s) t hnt),
      if_neg hempty]
    exact ht t hnt

/-- What is made of the text behind the digits of a whole part. -/
def scanWholeEnd (negative : Bool) (m dropped : Nat) (t : List Char) :
    Except Fault (Number × List Char) :=
  match t with
  | '.' :: r => scanFraction negative m dropped r
  | 'e' :: r => scanExponent negative m dropped r
  | 'E' :: r => scanExponent negative m dropped r
  | _ =>
    if dropped = 0 then
      match wholeNumber negative m with
      | some n => .ok (n, t)
      | none => .error (.behind .numberTooLarge t)
    else scaledNumber negative m dropped t

theorem scanWholeEnd_noNumber {negative : Bool} {m dropped : Nat} {t : List Char}
    (ht : NoNumber t) : scanWholeEnd negative m dropped t =
      if dropped = 0 then
        match wholeNumber negative m with
        | some n => .ok (n, t)
        | none => .error (.behind .numberTooLarge t)
      else scaledNumber negative m dropped t := by
  unfold scanWholeEnd
  split
  · exact absurd rfl (ht _ _ rfl).2.1
  · exact absurd rfl (ht _ _ rfl).2.2.1
  · exact absurd rfl (ht _ _ rfl).2.2.2
  · rfl

theorem scanWholeEnd_taken {negative : Bool} {m dropped : Nat} {s r : List Char} {n : Number}
    (h : scanWholeEnd negative m dropped s = .ok (n, r)) :
    ∃ x, s = x ++ r ∧ (NoDigit s → ∀ t, NoNumber t → NoDigit (x ++ t)) ∧
      ∀ t, NoNumber t → scanWholeEnd negative m dropped (x ++ t) = .ok (n, t) := by
  have hletter : ∀ {c : Char} {x : List Char}, isDigit c = false → ∀ t, NoDigit (c :: x ++ t) :=
    fun hc t d r hd => by cases hd; exact hc
  unfold scanWholeEnd at h
  split at h
  · rename_i s
    obtain ⟨x, hx, ht⟩ := scanFraction_keeps _ _ _ h
    exact ⟨'.' :: x, by rw [hx]; rfl, fun _ t _ => hletter rfl t, fun t hnt => ht t hnt⟩
  · rename_i s
    obtain ⟨x, hx, ht⟩ := scanExponent_taken h
    exact ⟨'e' :: x, by rw [hx]; rfl, fun _ t _ => hletter rfl t, fun t hnt => ht t hnt.noDigit⟩
  · rename_i s
    obtain ⟨x, hx, ht⟩ := scanExponent_taken h
    exact ⟨'E' :: x, by rw [hx]; rfl, fun _ t _ => hletter rfl t, fun t hnt => ht t hnt.noDigit⟩
  · -- nothing goes on with the digits, so nothing is taken behind them
    refine ⟨[], ?_, fun _ t hnt => hnt.noDigit, fun t hnt => ?_⟩
    · split at h
      · split at h
        · obtain ⟨-, rfl⟩ := ok_inj h
          rfl
        · cases h
      · exact (scaledNumber_ok h).1.symm
    · rw [List.nil_append, scanWholeEnd_noNumber hnt]
      split at h
      · rename_i h0
        rw [if_pos h0]
        split at h
        · rename_i hn
          obtain ⟨rfl, -⟩ := ok_inj h
          rfl
        · cases h
      · rename_i h0
        rw [if_neg h0]
        exact (scaledNumber_ok h).2 t

theorem scanNumber_digits {negative : Bool} {c : Char} {more t : List Char}
    (hD : ∀ d ∈ c :: more, isDigit d = true) (ht : NoDigit t) :
    scanNumber negative (c :: more ++ t) =
      if c = '0' ∧ !more.isEmpty then .error (.next .badNumber (more ++ t))
      else scanWholeEnd negative (gatherWhole 0 0 (c :: more)).1
        (gatherWhole 0 0 (c :: more)).2 t := by
  rw [scanNumber, takeWhile_digits hD ht, dropWhile_digits hD ht]
  rfl

theorem scanNumber_noDigit {negative : Bool} {s : List Char} (hs : s.takeWhile isDigit = [])
    {n : Number} {r : List Char} : scanNumber negative s ≠ .ok (n, r) := by
  intro h
  rw [scanNumber, hs] at h
  dsimp only at h
  split at h <;> cases h

/-- **A number is read the same way before anything that cannot go on with it.** -/
theorem scanNumber_keeps (negative : Bool) : Keeps NoNumber (scanNumber negative) := by
  intro s n r h
  have hdig : ∀ c ∈ s.takeWhile isDigit, isDigit c = true :=
    fun c hc => isDigit_of_mem_takeWhile hc
  -- the text falls into its first digits and the rest, which starts with no digit
  have hs := List.takeWhile_append_dropWhile (p := isDigit) (l := s)
  cases hD : s.takeWhile isDigit with
  | nil => exact absurd h (scanNumber_noDigit hD)
  | cons c more =>
      rw [hD] at hdig hs
      rw [← hs, scanNumber_digits hdig (noDigit_dropWhile s)] at h
      split at h
      · cases h
      rename_i hzero
      obtain ⟨x, hx, hnd, ht⟩ := scanWholeEnd_taken h
      refine ⟨c :: more ++ x, ?_, fun t hnt => ?_⟩
      · rw [List.append_assoc, ← hx, hs]
      · rw [List.append_assoc, scanNumber_digits hdig (hnd (noDigit_dropWhile s) t hnt),
          if_neg hzero]
        exact ht t hnt

/-! ## Brackets and values -/

/-- What a bracket took ends with the closing one, and any rest may follow. -/
def Closes (b : Bracket) (run : List Char → Except Fault (α × List Char)) : Prop :=
  ∀ ⦃s : List Char⦄ ⦃v : α⦄ ⦃r : List Char⦄, run s = .ok (v, r) →
    ∃ x, s = x ++ b.close :: r ∧ ∀ t, run (x ++ b.close :: t) = .ok (v, t)

theorem Closes.keeps {b : Bracket} {run : List Char → Except Fault (α × List Char)}
    (h : Closes b run) : Keeps Anything run := by
  intro s v r hs
  obtain ⟨x, hx, ht⟩ := h hs
  refine ⟨x ++ [b.close], by rw [hx]; simp, fun t _ => ?_⟩
  rw [List.append_assoc]
  exact ht t

theorem scanAfterComma_taken {b : Bracket} {s r : List Char} (h : scanAfterComma b s = .ok r) :
    ∃ sp c r', s = sp ++ c :: r' ∧ r = c :: r' ∧
      ∀ t, scanAfterComma b (sp ++ c :: t) = .ok (c :: t) := by
  unfold scanAfterComma at h
  split at h
  · cases h
  rename_i c rest hc
  split at h
  · cases h
  rename_i hclose
  cases h
  obtain ⟨sp, hs, -, ht⟩ := skipSpace_taken hc
  refine ⟨sp, c, rest, hs, rfl, fun t => ?_⟩
  rw [scanAfterComma, ht t]
  exact if_neg hclose

/-- The closing bracket and the comma cannot go on with a number. -/
structure Bracket.Proper (b : Bracket) : Prop where
  /-- The closing bracket ends a number. -/
  ends : isDigit b.close = false ∧ b.close ≠ '.' ∧ b.close ≠ 'e' ∧ b.close ≠ 'E'
  /-- The closing bracket is no comma. -/
  noComma : ',' ≠ b.close

theorem listBracket_proper : listBracket.Proper := ⟨by decide, by decide⟩

theorem objectBracket_proper : objectBracket.Proper := ⟨by decide, by decide⟩

/-- One step of reading items: the item was the last one. -/
theorem readItems_last {b : Bracket} {item : Reader α} {acc : List α} {s behind rest : List Char}
    {v : α} (hi : item.run s = .ok (v, behind)) (hs : skipSpace behind = b.close :: rest) :
    readItems b item acc s = .ok ((v :: acc).reverse, rest) := by
  rw [readItems]
  split
  · rename_i f hf
    rw [hi] at hf
    cases hf
  rename_i v' behind' hok
  rw [hi] at hok
  cases hok
  split
  · rename_i hnil
    rw [hs] at hnil
    cases hnil
  rename_i c r hc
  rw [hs] at hc
  cases hc
  rw [if_pos rfl]

/-- One step of reading items: a comma and more items follow. -/
theorem readItems_comma {b : Bracket} {item : Reader α} {acc : List α}
    {s behind rest next : List Char} {v : α} (hb : b.Proper) (hi : item.run s = .ok (v, behind))
    (hs : skipSpace behind = ',' :: rest) (ha : scanAfterComma b rest = .ok next) :
    readItems b item acc s = readItems b item (v :: acc) next := by
  rw [readItems]
  split
  · rename_i f hf
    rw [hi] at hf
    cases hf
  rename_i v' behind' hok
  rw [hi] at hok
  cases hok
  split
  · rename_i hnil
    rw [hs] at hnil
    cases hnil
  rename_i c r hc
  rw [hs] at hc
  cases hc
  rw [if_neg hb.noComma, if_pos rfl]
  split
  · rename_i f hf
    rw [ha] at hf
    cases hf
  rename_i n hn
  rw [ha] at hn
  cases hn
  rfl

theorem readItems_closes {b : Bracket} (hb : b.Proper) {item : Reader α}
    (hitem : Keeps NoNumber item.run) (acc : List α) : Closes b (readItems b item acc) := by
  intro s vs r h
  fun_induction readItems b item acc s with
  | case1 => cases h
  | case2 => cases h
  | case3 acc s v behind hi rest hs =>
      obtain ⟨rfl, rfl⟩ := ok_inj h
      obtain ⟨x, hx, ht⟩ := hitem hi
      obtain ⟨sp, hsp, hspace, hskip⟩ := skipSpace_taken hs
      refine ⟨x ++ sp, by rw [hx, hsp, List.append_assoc], fun t => ?_⟩
      rw [List.append_assoc]
      exact readItems_last (ht _ (noNumber_space hspace hb.ends)) (hskip t)
  | case4 => cases h
  | case5 acc s v behind hi rest next ha hs _ ih =>
      obtain ⟨x, hx, ht⟩ := hitem hi
      obtain ⟨sp, hsp, hspace, hskip⟩ := skipSpace_taken hs
      obtain ⟨sp', c, r', hr', hnext, hcomma⟩ := scanAfterComma_taken ha
      obtain ⟨y, hy, hty⟩ := ih h
      -- the next item starts with `c`, so `y` and its closing bracket start with it too
      have hhead : ∀ t, ∃ t', y ++ b.close :: t = c :: t' := by
        intro t
        rw [hnext] at hy
        cases y with
        | nil =>
            injection hy with hc _
            exact ⟨t, by rw [hc]; rfl⟩
        | cons d y =>
            injection hy with hc _
            exact ⟨y ++ b.close :: t, by rw [hc]; rfl⟩
      refine ⟨x ++ (sp ++ ',' :: (sp' ++ y)), ?_, fun t => ?_⟩
      · rw [hx, hsp, hr', ← hnext, hy]
        simp
      · obtain ⟨t', ht'⟩ := hhead t
        have happ : x ++ (sp ++ ',' :: (sp' ++ y)) ++ b.close :: t =
            x ++ (sp ++ ',' :: (sp' ++ (y ++ b.close :: t))) := by simp
        rw [happ, ht', readItems_comma hb (ht _ (noNumber_space hspace (by decide))) (hskip _)
          (hcomma t'), ← ht']
        exact hty t
  | case6 => cases h

theorem readBracket_closes {b : Bracket} (hb : b.Proper) {item : Reader α}
    (hitem : Keeps NoNumber item.run) : Closes b (readBracket b item) := by
  intro s vs r h
  unfold readBracket at h
  split at h
  · cases h
  rename_i c rest hc
  obtain ⟨sp, hs, -, hskip⟩ := skipSpace_taken hc
  split at h
  · rename_i hclose
    obtain ⟨rfl, rfl⟩ := ok_inj h
    refine ⟨sp, by rw [← hclose]; exact hs, fun t => ?_⟩
    rw [readBracket, ← hclose, hskip t]
    exact if_pos rfl
  · rename_i hclose
    -- the first character behind the bracket is that of the first item
    obtain ⟨y, hy, hty⟩ := readItems_closes hb hitem [] h
    cases y with
    | nil =>
        injection hy with hc' _
        exact absurd hc' hclose
    | cons d y =>
        injection hy with hc' hrest
        subst hc'
        refine ⟨sp ++ c :: y, ?_, fun t => ?_⟩
        · rw [hs, hrest]; simp
        · rw [List.append_assoc, List.cons_append, readBracket, hskip]
          dsimp only
          rw [if_neg hclose]
          exact hty t

theorem scanColon_taken {s r : List Char} (h : scanColon s = .ok r) :
    ∃ x, s = x ++ r ∧ ∀ t, scanColon (x ++ t) = .ok t := by
  unfold scanColon at h
  split at h
  · cases h
  rename_i c rest hc
  obtain ⟨sp, hs, -, hskip⟩ := skipSpace_taken hc
  split at h
  · rename_i hcolon
    cases h
    refine ⟨sp ++ [c], by rw [hs]; simp, fun t => ?_⟩
    rw [List.append_assoc, scanColon, List.singleton_append, hskip t]
    exact if_pos hcolon
  · cases h

theorem scanKey_keeps : Keeps Anything scanKey := by
  intro s k r h
  cases s with
  | nil => cases h
  | cons c s =>
      rw [scanKey] at h
      split at h
      · rename_i hc
        obtain ⟨x, hx, ht⟩ := scanString_keeps [] h
        refine ⟨c :: x, by rw [hx]; rfl, fun t _ => ?_⟩
        rw [List.cons_append, scanKey, if_pos hc]
        exact ht t trivial
      · cases h

theorem member_keeps {value : Reader α} (hvalue : Keeps NoNumber value.run) :
    Keeps NoNumber (member value).run := by
  intro s m r h
  change readMember value s = .ok (m, r) at h
  unfold readMember at h
  split at h
  · cases h
  rename_i k behind hk
  split at h
  · cases h
  rename_i next hn
  split at h
  · cases h
  rename_i v rest hv
  obtain ⟨rfl, rfl⟩ := ok_inj h
  obtain ⟨x, hx, htx⟩ := scanKey_keeps hk
  obtain ⟨y, hy, hty⟩ := scanColon_taken hn
  obtain ⟨z, hz, htz⟩ := hvalue hv
  refine ⟨x ++ (y ++ z), by rw [hx, hy, hz]; simp, fun t hnt => ?_⟩
  change readMember value _ = _
  rw [readMember, List.append_assoc, List.append_assoc, htx _ trivial]
  dsimp only
  rw [hty]
  dsimp only
  rw [htz t hnt]

theorem Keeps.cons {follow : List Char → Prop} {run : List Char → Except Fault (α × List Char)}
    (h : Keeps follow run)
    (hlt : ∀ {s r : List Char} {v : α}, run s = .ok (v, r) → r.length < s.length) (c : Char) :
    Keeps follow fun t => run (c :: t) := by
  intro s v r hs
  obtain ⟨x, hx, ht⟩ := h hs
  cases x with
  | nil =>
      -- a scanner that took nothing would have left all of the text
      have := hlt hs
      rw [hx] at this
      exact absurd this (Nat.lt_irrefl _)
  | cons d x =>
      injection hx with hc hx
      subst hc
      exact ⟨x, hx, ht⟩

/-- Blanks before a value do not matter to what it takes. -/
theorem keeps_of_first {follow : List Char → Prop} {inner : Option (Reader Json)}
    (h : ∀ c, isSpace c = false → Keeps follow fun t => readValue inner (c :: t)) :
    Keeps follow (readValue inner) := by
  intro s v r hs
  cases hc : skipSpace s with
  | nil =>
      rw [readValue, hc] at hs
      cases hs
  | cons c s' =>
      obtain ⟨sp, hsp, -, hskip⟩ := skipSpace_taken hc
      have hspace := skipSpace_head hc
      have hfirst : ∀ t, readValue inner (sp ++ c :: t) = readValue inner (c :: t) := fun t => by
        rw [readValue, readValue, hskip, skipSpace_cons hspace]
      rw [hsp, hfirst] at hs
      obtain ⟨x, hx, ht⟩ := h c hspace hs
      refine ⟨sp ++ c :: x, by rw [hsp, hx]; simp, fun t hft => ?_⟩
      rw [List.append_assoc, List.cons_append, hfirst]
      exact ht t hft

theorem readValue_keeps {inner : Option (Reader Json)}
    (hinner : ∀ item, inner = some item → Keeps NoNumber item.run) :
    Keeps NoNumber (readValue inner) := by
  refine keeps_of_first fun c hspace => ?_
  -- one case for each first character, in the order of the reader
  unfold readValue
  simp only [skipSpace_cons hspace]
  split
  · exact (readWord_keeps _ _).weaken
  split
  · exact (readWord_keeps _ _).weaken
  split
  · exact (readWord_keeps _ _).weaken
  split
  · exact (scanNumber_keeps true).mapScan
  split
  · exact ((scanNumber_keeps false).cons scanNumber_length_lt c).mapScan
  split
  · exact ((scanString_keeps []).weaken).mapScan
  split
  · cases inner with
    | none => exact fun s v r h => by cases h
    | some item =>
        exact ((readBracket_closes listBracket_proper (hinner item rfl)).keeps.weaken).mapScan
  split
  · cases inner with
    | none => exact fun s v r h => by cases h
    | some item =>
        exact ((readBracket_closes objectBracket_proper
          (member_keeps (hinner item rfl))).keeps.weaken).mapScan
  · exact fun s v r h => by cases h

/-- **What is read as a value is read as it before anything that cannot go on with a number.** -/
theorem value_keeps (depth : Nat) : Keeps NoNumber (value depth).run := by
  induction depth with
  | zero =>
      show Keeps NoNumber (readValue none)
      exact readValue_keeps fun item h => by cases h
  | succ depth ih =>
      show Keeps NoNumber (readValue (some (value depth)))
      refine readValue_keeps fun item h => ?_
      cases h
      exact ih

theorem readWord_object {word : List Char} {v : Json} {s r : List Char}
    {ms : List (String × Json)} (h : readWord word v s = .ok (.object ms, r)) : v = .object ms := by
  unfold readWord at h
  split at h
  · cases h
  · exact (ok_inj h).1

theorem readValue_object_closes {inner : Option (Reader Json)}
    (hinner : ∀ item, inner = some item → Keeps NoNumber item.run) {s r : List Char}
    {ms : List (String × Json)} (h : readValue inner s = .ok (.object ms, r)) :
    ∃ x, s = x ++ '}' :: r ∧ ∀ t, readValue inner (x ++ '}' :: t) = .ok (.object ms, t) := by
  cases hc : skipSpace s with
  | nil =>
      rw [readValue, hc] at h
      cases h
  | cons c s' =>
      obtain ⟨sp, hsp, -, hskip⟩ := skipSpace_taken hc
      rw [readValue, hc] at h
      dsimp only at h
      -- words, strings, numbers and lists are no objects
      split at h
      · cases readWord_object h
      split at h
      · cases readWord_object h
      split at h
      · cases readWord_object h
      split at h
      · obtain ⟨n, -, hn⟩ := mapScan_eq_ok.1 h
        cases hn
      split at h
      · obtain ⟨n, -, hn⟩ := mapScan_eq_ok.1 h
        cases hn
      split at h
      · obtain ⟨n, -, hn⟩ := mapScan_eq_ok.1 h
        cases hn
      split at h
      · split at h
        · cases h
        · obtain ⟨n, -, hn⟩ := mapScan_eq_ok.1 h
          cases hn
      split at h
      · rename_i hbrace
        split at h
        · cases h
        rename_i item
        obtain ⟨ps, hps, hms⟩ := mapScan_eq_ok.1 h
        obtain ⟨x, hx, ht⟩ := readBracket_closes objectBracket_proper
          (member_keeps (hinner item rfl)) hps
        refine ⟨sp ++ c :: x, by rw [hsp, hx]; simp [objectBracket], fun t => ?_⟩
        rw [List.append_assoc, List.cons_append, readValue, hskip, hbrace]
        exact mapScan_eq_ok.2 ⟨ps, ht t, hms⟩
      · cases h

/--
**An object ends with its bracket.** The text that was taken for an object ends with the
closing bracket, and whatever follows it instead, the same object is read.
-/
theorem value_object_closes {depth : Nat} {s r : List Char} {ms : List (String × Json)}
    (h : (value depth).run s = .ok (.object ms, r)) :
    ∃ x, s = x ++ '}' :: r ∧ ∀ t, (value depth).run (x ++ '}' :: t) = .ok (.object ms, t) := by
  cases depth with
  | zero =>
      change readValue none s = _ at h
      exact readValue_object_closes (fun item hitem => by cases hitem) h
  | succ depth =>
      change readValue (some (value depth)) s = _ at h
      refine readValue_object_closes (fun item hitem => ?_) h
      cases hitem
      exact value_keeps depth

end SchemaHistory.Json
