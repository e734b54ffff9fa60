import SchemaHistory.Text.Utf8

/-!
# What lenient reading makes of written text

Writing a text and reading its bytes leniently gives the text back. The bytes of a text
that were cut off anywhere read as the characters that are whole, with one replacement
character at the end when the cut went through a character. No replacement character
comes from anywhere else, so a torn line cannot pass for a line somebody wrote.
-/

namespace SchemaHistory.Text

/-! ## One character -/

theorem toNat_byte {n : Nat} (h : n < 256) : (UInt8.ofNat n).toNat = n := by
  rw [UInt8.toNat_ofNat']; exact Nat.mod_eq_of_lt h

theorem decodeHead_one {lead : UInt8} {rest : Bytes} (h : lead.toNat < 0x80) :
    decodeHead lead rest = .char (Char.ofNat lead.toNat) 1 := by
  unfold decodeHead; rw [if_pos h]

theorem decodeHead_two {lead : UInt8} {rest : Bytes} (h₁ : 0xC2 ≤ lead.toNat)
    (h₂ : lead.toNat < 0xE0) :
    decodeHead lead rest = match rest with
      | b :: _ =>
        if within 0x80 0xBF b then .char (Char.ofNat (lead.toNat % 32 * 64 + tailBits b)) 2
        else .ill 1
      | [] => .ill 1 := by
  unfold decodeHead
  rw [if_neg (by omega), if_neg (by omega)]
  exact if_pos h₂

theorem decodeHead_three {lead : UInt8} {rest : Bytes} (h₁ : 0xE0 ≤ lead.toNat)
    (h₂ : lead.toNat < 0xF0) :
    decodeHead lead rest = match rest with
      | b :: c :: _ =>
        if !within (secondOfThree lead.toNat).1 (secondOfThree lead.toNat).2 b then .ill 1
        else if !within 0x80 0xBF c then .ill 2
        else .char (Char.ofNat ((lead.toNat % 16 * 64 + tailBits b) * 64 + tailBits c)) 3
      | [b] =>
        if within (secondOfThree lead.toNat).1 (secondOfThree lead.toNat).2 b then .ill 2
        else .ill 1
      | [] => .ill 1 := by
  unfold decodeHead
  rw [if_neg (by omega), if_neg (by omega), if_neg (by omega)]
  exact if_pos h₂

theorem decodeHead_four {lead : UInt8} {rest : Bytes} (h₁ : 0xF0 ≤ lead.toNat)
    (h₂ : lead.toNat < 0xF5) :
    decodeHead lead rest = match rest with
      | b :: c :: d :: _ =>
        if !within (secondOfFour lead.toNat).1 (secondOfFour lead.toNat).2 b then .ill 1
        else if !within 0x80 0xBF c then .ill 2
        else if !within 0x80 0xBF d then .ill 3
        else .char (Char.ofNat
          (((lead.toNat % 8 * 64 + tailBits b) * 64 + tailBits c) * 64 + tailBits d)) 4
      | [b, c] =>
        if !within (secondOfFour lead.toNat).1 (secondOfFour lead.toNat).2 b then .ill 1
        else if !within 0x80 0xBF c then .ill 2 else .ill 3
      | [b] =>
        if within (secondOfFour lead.toNat).1 (secondOfFour lead.toNat).2 b then .ill 2
        else .ill 1
      | [] => .ill 1 := by
  unfold decodeHead
  rw [if_neg (by omega), if_neg (by omega), if_neg (by omega), if_neg (by omega)]
  exact if_pos h₂

/-- The second byte of a character of three bytes is one that may stand there. -/
theorem within_secondOfThree {n : Nat} (hc : n < 0xD800 ∨ 0xDFFF < n) (h₁ : 0x7FF < n)
    (h₂ : n ≤ 0xFFFF) {b : UInt8} (hb : b.toNat = n / 64 % 64 + 0x80) :
    within (secondOfThree (n / 4096 % 16 + 0xE0)).1 (secondOfThree (n / 4096 % 16 + 0xE0)).2 b
      = true := by
  unfold within secondOfThree
  rw [hb, Bool.and_eq_true, decide_eq_true_iff, decide_eq_true_iff]
  split
  · simp only; omega
  split
  · simp only; omega
  · simp only; omega

/-- The second byte of a character of four bytes is one that may stand there. -/
theorem within_secondOfFour {n : Nat} (h₁ : 0xFFFF < n) (h₂ : n < 0x110000) {b : UInt8}
    (hb : b.toNat = n / 4096 % 64 + 0x80) :
    within (secondOfFour (n / 262144 % 8 + 0xF0)).1 (secondOfFour (n / 262144 % 8 + 0xF0)).2 b
      = true := by
  unfold within secondOfFour
  rw [hb, Bool.and_eq_true, decide_eq_true_iff, decide_eq_true_iff]
  split
  · simp only; omega
  split
  · simp only; omega
  · simp only; omega

theorem within_tail (n : Nat) : within 0x80 0xBF (UInt8.ofNat (n % 64 + 0x80)) = true := by
  unfold within
  rw [toNat_byte (by omega), Bool.and_eq_true, decide_eq_true_iff, decide_eq_true_iff]
  omega

theorem tailBits_tail (n : Nat) : tailBits (UInt8.ofNat (n % 64 + 0x80)) = n % 64 := by
  unfold tailBits
  rw [toNat_byte (by omega)]
  omega

/--
The bytes of one character: whatever follows them, they read back as the character, and
when they are cut off after the first one they are one ill-formed part.
-/
theorem decodeHead_char (c : Char) : ∃ lead tail,
    String.utf8EncodeChar c = lead :: tail ∧
      (∀ rest, decodeHead lead (tail ++ rest) = .char c (tail.length + 1)) ∧
      ∀ k, k < tail.length → decodeHead lead (tail.take k) = .ill (k + 1) := by
  have hc : c.val.toNat < 0xD800 ∨ (0xDFFF < c.val.toNat ∧ c.val.toNat < 0x110000) := c.valid
  have hofNat : ∀ n, n = c.val.toNat → Char.ofNat n = c := fun n h => by
    rw [h]; exact Char.ofNat_toNat c
  -- one case for each number of bytes; a cut can fall only behind the first byte
  unfold String.utf8EncodeChar
  dsimp only
  split
  · refine ⟨_, _, rfl, fun rest => ?_, fun k hk => absurd hk (by simp)⟩
    rw [decodeHead_one (by rw [toNat_byte (by omega)]; omega), toNat_byte (by omega),
      hofNat _ rfl]
    rfl
  split
  · refine ⟨_, _, rfl, fun rest => ?_, fun k hk => ?_⟩
    · rw [decodeHead_two (by rw [toNat_byte (by omega)]; omega)
        (by rw [toNat_byte (by omega)]; omega), toNat_byte (by omega)]
      simp only [List.cons_append, within_tail, tailBits_tail, if_true]
      rw [hofNat _ (by omega)]
      rfl
    · obtain rfl : k = 0 := by simpa using hk
      rw [decodeHead_two (by rw [toNat_byte (by omega)]; omega)
        (by rw [toNat_byte (by omega)]; omega)]
      rfl
  split
  · have hw := within_secondOfThree (n := c.val.toNat) (by omega) (by omega) (by omega)
      (toNat_byte (n := c.val.toNat / 64 % 64 + 0x80) (by omega))
    refine ⟨_, _, rfl, fun rest => ?_, fun k hk => ?_⟩
    · rw [decodeHead_three (by rw [toNat_byte (by omega)]; omega)
        (by rw [toNat_byte (by omega)]; omega), toNat_byte (n := _ + 0xE0) (by omega)]
      simp only [List.cons_append, hw, within_tail, tailBits_tail, Bool.not_true,
        Bool.false_eq_true, if_false]
      rw [hofNat _ (by omega)]
      rfl
    · rw [decodeHead_three (by rw [toNat_byte (by omega)]; omega)
        (by rw [toNat_byte (by omega)]; omega), toNat_byte (n := _ + 0xE0) (by omega)]
      match k, hk with
      | 0, _ => rfl
      | 1, _ => simp only [List.take_succ_cons, List.take_zero, hw, if_true]
  · have hw := within_secondOfFour (n := c.val.toNat) (by omega) (by omega)
      (toNat_byte (n := c.val.toNat / 4096 % 64 + 0x80) (by omega))
    refine ⟨_, _, rfl, fun rest => ?_, fun k hk => ?_⟩
    · rw [decodeHead_four (by rw [toNat_byte (by omega)]; omega)
        (by rw [toNat_byte (by omega)]; omega), toNat_byte (n := _ + 0xF0) (by omega)]
      simp only [List.cons_append, hw, within_tail, tailBits_tail, Bool.not_true,
        Bool.false_eq_true, if_false]
      rw [hofNat _ (by omega)]
      rfl
    · rw [decodeHead_four (by rw [toNat_byte (by omega)]; omega)
        (by rw [toNat_byte (by omega)]; omega), toNat_byte (n := _ + 0xF0) (by omega)]
      match k, hk with
      | 0, _ => rfl
      | 1, _ => simp only [List.take_succ_cons, List.take_zero, hw, if_true]
      | 2, _ =>
        simp only [List.take_succ_cons, List.take_zero, hw, within_tail, Bool.not_true,
          Bool.false_eq_true, if_false]

/-! ## Whole texts -/

theorem decodeLossyFrom_append {skipped rest : Bytes} :
    decodeLossyFrom skipped.length (skipped ++ rest) = decodeLossyFrom 0 rest := by
  induction skipped with
  | nil => rfl
  | cons b skipped ih =>
      rw [List.length_cons, List.cons_append, decodeLossyFrom]
      exact ih

theorem encode_cons (c : Char) (cs : List Char) :
    encode (c :: cs) = String.utf8EncodeChar c ++ encode cs := rfl

/-- Written text reads back, whatever bytes follow it. -/
theorem decodeLossy_encode_append (cs : List Char) (rest : Bytes) :
    decodeLossy (encode cs ++ rest) = cs ++ decodeLossy rest := by
  induction cs with
  | nil => rfl
  | cons c cs ih =>
      obtain ⟨lead, tail, hc, hwhole, -⟩ := decodeHead_char c
      rw [encode_cons, hc, List.append_assoc, List.cons_append, decodeLossy, decodeLossyFrom]
      simp only [hwhole, Nat.add_sub_cancel]
      -- the decoder skips the bytes of the character behind its first one
      rw [decodeLossyFrom_append, List.cons_append]
      exact congrArg (c :: ·) ih

/-- **Written text reads back.** -/
theorem decodeLossy_encode (cs : List Char) : decodeLossy (encode cs) = cs := by
  have h := decodeLossy_encode_append cs []
  rwa [List.append_nil, show decodeLossy [] = [] from rfl, List.append_nil] at h

theorem decodeLossy_utf8 (s : String) : decodeLossy (utf8 s) = s.toList :=
  decodeLossy_encode s.toList

/-- A character that was cut off behind its first byte reads as one replacement character. -/
theorem decodeLossy_cut_char {c : Char} {k : Nat} (h0 : 0 < k)
    (hk : k < (String.utf8EncodeChar c).length) :
    decodeLossy ((String.utf8EncodeChar c).take k) = [replacement] := by
  obtain ⟨lead, tail, hc, -, hcut⟩ := decodeHead_char c
  rw [hc] at hk ⊢
  obtain ⟨j, rfl⟩ : ∃ j, k = j + 1 := ⟨k - 1, by omega⟩
  have hj : j < tail.length := by simpa using hk
  have hlen : (tail.take j).length = j := by rw [List.length_take]; omega
  rw [List.take_succ_cons, decodeLossy, decodeLossyFrom]
  simp only [hcut j hj, Nat.add_sub_cancel]
  have h : decodeLossyFrom (tail.take j).length (tail.take j ++ []) = decodeLossyFrom 0 [] :=
    decodeLossyFrom_append
  rw [hlen, List.append_nil] at h
  rw [h]
  rfl

/--
**Cut text.** The first bytes of a text are the bytes of its first characters, or these with
one character that is cut off; read leniently, that one is a replacement character.
-/
theorem decodeLossy_take_encode (cs : List Char) (n : Nat) : ∃ k,
    (decodeLossy ((encode cs).take n) = cs.take k ∧ (encode cs).take n = encode (cs.take k)) ∨
      (decodeLossy ((encode cs).take n) = cs.take k ++ [replacement] ∧ k < cs.length) := by
  induction cs generalizing n with
  | nil => exact ⟨0, .inl ⟨by simp [encode, decodeLossy, decodeLossyFrom], by simp [encode]⟩⟩
  | cons c cs ih =>
      rw [encode_cons]
      by_cases hn : n < (String.utf8EncodeChar c).length
      · -- the cut falls into the first character
        rw [List.take_append_of_le_length (by omega)]
        refine ⟨0, ?_⟩
        cases n with
        | zero => exact .inl ⟨rfl, rfl⟩
        | succ m =>
            refine .inr ⟨?_, by simp⟩
            rw [decodeLossy_cut_char (by omega) hn]
            rfl
      · -- the first character is whole, so the cut falls into the characters behind it
        obtain ⟨k, h⟩ := ih (n - (String.utf8EncodeChar c).length)
        have hone : encode [c] = String.utf8EncodeChar c := by
          rw [encode_cons]; simp [encode]
        have htake : (String.utf8EncodeChar c ++ encode cs).take n =
            encode [c] ++ (encode cs).take (n - (String.utf8EncodeChar c).length) := by
          rw [List.take_append, hone, List.take_of_length_le (by omega)]
        rw [htake, decodeLossy_encode_append]
        refine ⟨k + 1, ?_⟩
        rcases h with ⟨h1, h2⟩ | ⟨h1, h2⟩
        · refine .inl ⟨?_, ?_⟩
          · rw [h1]; rfl
          · rw [h2, hone, List.take_succ_cons]; rfl
        · refine .inr ⟨?_, by simpa using h2⟩
          rw [h1]; rfl

/-! ## Line feeds -/

/-- Only a line feed is written with the byte of a line feed. -/
theorem lineFeed_mem_utf8EncodeChar {c : Char} (h : (10 : UInt8) ∈ String.utf8EncodeChar c) :
    c = '\n' := by
  have hlow : ∀ n, n < 256 → (10 : UInt8) = UInt8.ofNat n → n = 10 := fun n hn he => by
    rw [← toNat_byte hn, ← he]; rfl
  unfold String.utf8EncodeChar at h
  dsimp only at h
  split at h
  · have hn := hlow _ (by omega) (List.mem_singleton.mp h)
    have hc : c = Char.ofNat c.val.toNat := (Char.ofNat_toNat c).symm
    rw [hc, hn]
  -- every byte of a longer spelling has its highest bit set
  split at h
  · simp only [List.mem_cons, List.not_mem_nil, or_false] at h
    rcases h with h | h <;> have := hlow _ (by omega) h <;> omega
  split at h
  · simp only [List.mem_cons, List.not_mem_nil, or_false] at h
    rcases h with h | h | h <;> have := hlow _ (by omega) h <;> omega
  · simp only [List.mem_cons, List.not_mem_nil, or_false] at h
    rcases h with h | h | h | h <;> have := hlow _ (by omega) h <;> omega

/-- A text without a line feed is written without one. -/
theorem lineFeed_not_mem_encode {cs : List Char} (h : '\n' ∉ cs) : (10 : UInt8) ∉ encode cs := by
  intro hmem
  obtain ⟨c, hc, hb⟩ := List.mem_flatMap.mp hmem
  exact h (lineFeed_mem_utf8EncodeChar hb ▸ hc)

end SchemaHistory.Text
