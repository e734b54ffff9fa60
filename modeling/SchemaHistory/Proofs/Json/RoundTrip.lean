import SchemaHistory.Proofs.Collections
import SchemaHistory.Proofs.Json.NumberText

/-!
# Documents read back

Whatever was written is read one way only: the reader takes the whole text and gives the
document `reread` describes, or it refuses. It refuses for two reasons. Brackets may nest
deeper than a reader goes, and a double may be spelled by digits that the reader turns into
nothing. A third thing can happen and is worse, because nothing refuses: a double comes
back as its neighbour.

`Faithful` rules out all three, and a document with distinct keys comes back with the
contents it was written with exactly when it is faithful.
-/

namespace SchemaHistory.Json

open Decimal

variable {α : Type}

/--
**Induction over a document.** A list needs the property for its items and an object for
its values.
-/
@[elab_as_elim]
theorem induct {P : Json → Prop} (null : P .null) (boolean : ∀ b, P (.boolean b))
    (number : ∀ n, P (.number n)) (string : ∀ s, P (.string s))
    (array : ∀ items, (∀ v ∈ items, P v) → P (.array items))
    (object : ∀ members, (∀ m ∈ members, P m.2) → P (.object members)) (v : Json) : P v :=
  match v with
  | .null => null
  | .boolean b => boolean b
  | .number n => number n
  | .string s => string s
  | .array items =>
    array items fun v _ => induct null boolean number string array object v
  | .object members =>
    object members fun m _ => induct null boolean number string array object m.2
termination_by sizeOf v
decreasing_by
  · rename_i hv
    have := List.sizeOf_lt_of_mem hv
    simp only [Json.array.sizeOf_spec]
    omega
  · rename_i hm
    have := List.sizeOf_lt_of_mem hm
    obtain ⟨k, v⟩ := m
    simp only [Json.object.sizeOf_spec, Prod.mk.sizeOf_spec] at this ⊢
    omega

/-! ## Texts between quotes -/

theorem hexDigit?_digitChar : ∀ n, n < 16 → hexDigit? (Nat.digitChar n) = some n := by decide

/-- The four digits of a control character are its number. -/
theorem scanUnit_control {n : Nat} (h : n < 0x20) (t : List Char) :
    scanUnit ('0' :: '0' :: Nat.digitChar (n / 16) :: Nat.digitChar (n % 16) :: t) =
      .ok (n, t) := by
  have hcount : ¬ Text.byteCount ['0', '0', Nat.digitChar (n / 16), Nat.digitChar (n % 16)] < 4 := by
    have h1 := Char.utf8Size_pos (Nat.digitChar (n / 16))
    have h2 := Char.utf8Size_pos (Nat.digitChar (n % 16))
    have h0 : Char.utf8Size '0' = 1 := rfl
    simp only [Text.byteCount, h0]
    omega
  have hdigits : ['0', '0', Nat.digitChar (n / 16), Nat.digitChar (n % 16)].mapM hexDigit? =
      some [0, 0, n / 16, n % 16] := by
    simp only [List.mapM_cons, List.mapM_nil, hexDigit?_digitChar (n / 16) (by omega),
      hexDigit?_digitChar (n % 16) (by omega), show hexDigit? '0' = some 0 from rfl]
    rfl
  unfold scanUnit
  rw [show List.take 4 ('0' :: '0' :: Nat.digitChar (n / 16) :: Nat.digitChar (n % 16) :: t) =
    ['0', '0', Nat.digitChar (n / 16), Nat.digitChar (n % 16)] from rfl, if_neg hcount, hdigits]
  dsimp only
  rw [show ((0 * 16 + 0) * 16 + n / 16) * 16 + n % 16 = n by omega]
  rfl

theorem scanEscape_control {c : Char} (h : c.toNat < 0x20) (t : List Char) :
    scanEscape ('u' :: '0' :: '0' :: Nat.digitChar (c.toNat / 16) ::
      Nat.digitChar (c.toNat % 16) :: t) = .ok (c, t) := by
  have hlow : isLowSurrogate c.toNat = false := by
    simp only [isLowSurrogate, Bool.and_eq_false_iff, decide_eq_false_iff_not]
    omega
  have hhigh : isHighSurrogate c.toNat = false := by
    simp only [isHighSurrogate, Bool.and_eq_false_iff, decide_eq_false_iff_not]
    omega
  show scanCodePoint _ = _
  rw [scanCodePoint, scanUnit_control h]
  dsimp only
  rw [hlow, hhigh, if_neg (by decide), if_neg (by decide), Char.ofNat_toNat]

/-- **A character is read back from its escape**, or from itself where it has none. -/
theorem scanString_escaped (c : Char) (acc rest : List Char) :
    scanString acc (escaped c ++ rest) = scanString (c :: acc) rest := by
  unfold escaped
  split
  · rename_i h
    rw [h]
    exact scanString_escape rfl
  rename_i hquote
  split
  · rename_i h
    rw [h]
    exact scanString_escape rfl
  rename_i hback
  split
  · rename_i h
    rw [h]
    exact scanString_escape rfl
  split
  · rename_i h
    rw [h]
    exact scanString_escape rfl
  split
  · rename_i h
    rw [h]
    exact scanString_escape rfl
  split
  · rename_i h
    rw [h]
    exact scanString_escape rfl
  split
  · rename_i h
    rw [h]
    exact scanString_escape rfl
  split
  · rename_i h
    exact scanString_escape (scanEscape_control h rest)
  · rename_i h
    exact scanString_plain hquote hback h

theorem scanString_flatMap (cs acc t : List Char) :
    scanString acc (cs.flatMap escaped ++ '"' :: t) =
      .ok (String.ofList (acc.reverse ++ cs), t) := by
  induction cs generalizing acc with
  | nil =>
      rw [List.append_nil]
      exact scanString_quote acc t
  | cons c cs ih =>
      rw [List.flatMap_cons, List.append_assoc, scanString_escaped, ih, List.reverse_cons,
        List.append_assoc]
      rfl

/-- **A text is read back as itself.** -/
theorem scanKey_writeString (s : String) (t : List Char) :
    scanKey (writeString s ++ t) = .ok (s, t) := by
  have happ : writeString s ++ t = '"' :: (s.toList.flatMap escaped ++ '"' :: t) := by
    simp [writeString]
  rw [happ, scanKey, if_pos rfl, scanString_flatMap, List.reverse_nil, List.nil_append,
    String.ofList_toList]

/-! ## Items with commas between them -/

/-- Texts with commas between them. -/
def joined : List (List Char) → List Char
  | [] => []
  | [x] => x
  | x :: y :: rest => x ++ ',' :: joined (y :: rest)

theorem writeItems_eq (items : List Json) : writeItems items = joined (items.map write) := by
  induction items with
  | nil => rfl
  | cons v rest ih =>
      cases rest with
      | nil => rfl
      | cons w rest =>
          rw [writeItems, ih]
          rfl

/-- A member as it is written. -/
def writeMember (m : String × Json) : List Char := writeString m.1 ++ ':' :: write m.2

theorem writeMembers_eq (members : List (String × Json)) :
    writeMembers members = joined (members.map writeMember) := by
  induction members with
  | nil => rfl
  | cons m rest ih =>
      cases rest with
      | nil => rfl
      | cons n rest =>
          rw [writeMembers, ih, List.append_assoc]
          simp [joined, writeMember]

/-- A text that can be the first item between brackets: it starts with no blank and not with the
closing bracket. -/
def StartsItem (b : Bracket) (x : List Char) : Prop :=
  ∃ c rest, x = c :: rest ∧ isSpace c = false ∧ c ≠ b.close

theorem StartsItem.append {b : Bracket} {x : List Char} (h : StartsItem b x) (t : List Char) :
    StartsItem b (x ++ t) := by
  obtain ⟨c, rest, rfl, hc⟩ := h
  exact ⟨c, rest ++ t, rfl, hc⟩

theorem scanAfterComma_item {b : Bracket} {x : List Char} (h : StartsItem b x) :
    scanAfterComma b x = .ok x := by
  obtain ⟨c, rest, rfl, hspace, hclose⟩ := h
  rw [scanAfterComma, skipSpace_cons hspace]
  exact if_neg hclose

theorem readItems_refused {b : Bracket} {item : Reader α} {acc : List α} {s : List Char}
    {f : Fault} (h : item.run s = .error f) : readItems b item acc s = .error f := by
  rw [readItems]
  split
  · rename_i f' hf
    rw [h] at hf
    exact congrArg Except.error (Except.error.inj hf).symm
  · rename_i v behind hok
    rw [h] at hok
    cases hok

section Items

variable {β : Type} {b : Bracket} {item : Reader α} {text : β → List Char} {back : β → Option α}

theorem startsItem_joined {x : β} (xs : List β) (h : StartsItem b (text x)) (t : List Char) :
    StartsItem b (joined ((x :: xs).map text) ++ t) := by
  cases xs with
  | nil => exact h.append t
  | cons y xs =>
      show StartsItem b ((text x ++ ',' :: joined ((y :: xs).map text)) ++ t)
      exact (h.append _).append t

/-- Items are read one after another, or the first one that is refused refuses all. -/
theorem readItems_joined (hb : b.Proper) (hclose : isSpace b.close = false) {x : β} {xs : List β}
    (hitem : ∀ y ∈ x :: xs, Reads NoNumber item.run (text y) (back y))
    (hstart : ∀ y ∈ x :: xs, StartsItem b (text y)) (acc : List α) (t : List Char) :
    (readItems b item acc (joined ((x :: xs).map text) ++ b.close :: t)).toOption =
      ((x :: xs).mapM back).map fun vs => (acc.reverse ++ vs, t) := by
  induction xs generalizing x acc with
  | nil =>
      have hx := hitem x (by simp)
      have hfollow : NoNumber (b.close :: t) := noNumber_cons hb.ends
      show (readItems b item acc (text x ++ b.close :: t)).toOption = _
      rw [List.mapM_cons, List.mapM_nil]
      cases hback : back x with
      | none =>
          rw [hback] at hx
          obtain ⟨f, hf⟩ := hx.refused hfollow
          rw [readItems_refused hf]
          rfl
      | some v =>
          rw [hback] at hx
          rw [readItems_last (hx.ok hfollow) (skipSpace_cons hclose), List.reverse_cons]
          rfl
  | cons y xs ih =>
      have hx := hitem x (by simp)
      have hfollow : ∀ r, NoNumber (',' :: r) := fun r => noNumber_cons (by decide)
      have hnext : StartsItem b (joined ((y :: xs).map text) ++ b.close :: t) :=
        startsItem_joined _ (hstart y (by simp)) _
      have happ : joined ((x :: y :: xs).map text) ++ b.close :: t =
          text x ++ ',' :: (joined ((y :: xs).map text) ++ b.close :: t) := by
        simp [joined]
      -- an item that is refused refuses the list, whatever stands behind it
      rw [happ, List.mapM_cons]
      cases hback : back x with
      | none =>
          rw [hback] at hx
          obtain ⟨f, hf⟩ := hx.refused (hfollow _)
          rw [readItems_refused hf]
          rfl
      | some v =>
          rw [hback] at hx
          rw [readItems_comma hb (hx.ok (hfollow _)) (skipSpace_cons (by decide))
            (scanAfterComma_item hnext)]
          rw [ih (fun z hz => hitem z (by simp [hz])) (fun z hz => hstart z (by simp [hz]))]
          cases (y :: xs).mapM back with
          | none => rfl
          | some vs => simp

theorem readBracket_joined (hb : b.Proper) (hclose : isSpace b.close = false) {xs : List β}
    (hitem : ∀ y ∈ xs, Reads NoNumber item.run (text y) (back y))
    (hstart : ∀ y ∈ xs, StartsItem b (text y)) (t : List Char) :
    (readBracket b item (joined (xs.map text) ++ b.close :: t)).toOption =
      (xs.mapM back).map (·, t) := by
  cases xs with
  | nil =>
      have hskip : skipSpace (joined (([] : List β).map text) ++ b.close :: t) = b.close :: t :=
        skipSpace_cons hclose
      rw [readBracket, hskip]
      dsimp only
      rw [if_pos rfl]
      rfl
  | cons x xs =>
      obtain ⟨c, rest, hrest, hspace, hne⟩ :=
        startsItem_joined xs (hstart x (by simp)) (b.close :: t)
      have hitems := readItems_joined hb hclose hitem hstart [] t
      rw [hrest] at hitems ⊢
      rw [readBracket, skipSpace_cons hspace]
      dsimp only
      rw [if_neg hne, hitems]
      rfl

end Items

/-! ## Documents -/

mutual

/-- What comes back when a value is written and read with brackets nesting at most `depth` deep;
nothing, when it is refused. -/
def reread : Nat → Json → Option Json
  | _, null => some null
  | _, boolean b => some (boolean b)
  | _, number n => (rereadNumber n).map number
  | _, string s => some (string s)
  | 0, array _ => none
  | depth + 1, array items => (rereadItems depth items).map array
  | 0, object _ => none
  | depth + 1, object members => (rereadMembers depth members).map (object ∘ Assoc.ofPairs)

/-- What comes back of items. -/
def rereadItems (depth : Nat) : List Json → Option (List Json)
  | [] => some []
  | v :: rest => (reread depth v).bind fun w => (rereadItems depth rest).map (w :: ·)

/-- What comes back of members. -/
def rereadMembers (depth : Nat) : List (String × Json) → Option (List (String × Json))
  | [] => some []
  | (k, v) :: rest =>
    (reread depth v).bind fun w => (rereadMembers depth rest).map ((k, w) :: ·)

end

theorem bind_map_cons (o : Option α) (os : Option (List α)) :
    (o.bind fun w => os.map (w :: ·)) = o >>= fun w => os >>= fun ws => pure (w :: ws) := by
  cases o <;> cases os <;> rfl

theorem rereadItems_eq (depth : Nat) (items : List Json) :
    rereadItems depth items = items.mapM (reread depth) := by
  induction items with
  | nil => rfl
  | cons v rest ih =>
      rw [rereadItems, List.mapM_cons, ih]
      exact bind_map_cons _ _

/-- What comes back of a member. -/
def rereadMember (depth : Nat) (m : String × Json) : Option (String × Json) :=
  (reread depth m.2).map (m.1, ·)

theorem rereadMembers_eq (depth : Nat) (members : List (String × Json)) :
    rereadMembers depth members = members.mapM (rereadMember depth) := by
  induction members with
  | nil => rfl
  | cons m rest ih =>
      obtain ⟨k, v⟩ := m
      rw [rereadMembers, List.mapM_cons, ih, rereadMember]
      cases reread depth v with
      | none => rfl
      | some w => exact bind_map_cons (some (k, w)) _

/-- The text of a value can be an item of a list. -/
theorem startsItem_write (v : Json) : StartsItem listBracket (write v) := by
  have hstring : ∀ s, StartsItem listBracket (writeString s) := fun s =>
    ⟨'"', _, rfl, rfl, by decide⟩
  cases v with
  | null => exact ⟨'n', _, rfl, rfl, by decide⟩
  | boolean b => cases b <;> exact ⟨_, _, rfl, rfl, by decide⟩
  | string s => exact hstring s
  | array items => exact ⟨'[', _, rfl, rfl, by decide⟩
  | object members => exact ⟨'{', _, rfl, rfl, by decide⟩
  | number n =>
      obtain ⟨cs, hcs, hn | hn⟩ := writeNumber_shape n
      · obtain ⟨c, rest, hrest, hc⟩ := hcs.head
        refine ⟨c, rest, by rw [write, hn, hrest], ?_, ?_⟩
        · exact Bool.eq_false_iff.mpr fun hspace => by
            rw [(isSpace_noNumber hspace).1] at hc
            cases hc
        · rintro rfl
          cases hc
      · exact ⟨'-', cs, by rw [write, hn], rfl, by decide⟩

theorem startsItem_member (m : String × Json) : StartsItem objectBracket (writeMember m) :=
  ⟨'"', _, rfl, rfl, by decide⟩

theorem readValue_minus (inner : Option (Reader Json)) (s : List Char) :
    readValue inner ('-' :: s) = mapScan number (scanSigned ('-' :: s)) := rfl

/-- A digit is how the reader knows a number. -/
theorem readValue_digit (inner : Option (Reader Json)) {c : Char} (hc : isDigit c = true)
    (s : List Char) : readValue inner (c :: s) = mapScan number (scanSigned (c :: s)) := by
  have hspace : isSpace c = false := Bool.eq_false_iff.mpr fun hspace => by
    rw [(isSpace_noNumber hspace).1] at hc
    cases hc
  have hne : ∀ d, isDigit d = false → c ≠ d := by
    rintro d hd rfl
    rw [hc] at hd
    cases hd
  rw [scanSigned_plain (by simpa using hne '-' rfl), readValue, skipSpace_cons hspace]
  dsimp only
  rw [if_neg (hne 'n' rfl), if_neg (hne 't' rfl), if_neg (hne 'f' rfl), if_neg (hne '-' rfl),
    if_pos hc]

theorem readValue_number (inner : Option (Reader Json)) (n : Number) :
    Reads NoNumber (readValue inner) (writeNumber n) ((rereadNumber n).map number) := by
  intro t ht
  have hscan := scanSigned_reads n t ht
  have hvalue : readValue inner (writeNumber n ++ t) =
      mapScan number (scanSigned (writeNumber n ++ t)) := by
    obtain ⟨cs, hcs, hn | hn⟩ := writeNumber_shape n
    · obtain ⟨c, rest, hrest, hc⟩ := hcs.head
      rw [hn, hrest]
      exact readValue_digit inner hc (rest ++ t)
    · rw [hn]
      exact readValue_minus inner (cs ++ t)
  rw [hvalue]
  cases hr : rereadNumber n with
  | none =>
      rw [hr] at hscan
      obtain ⟨f, hf⟩ := toOption_eq_none hscan
      rw [hf]
      rfl
  | some m =>
      rw [hr] at hscan
      rw [toOption_eq_some hscan]
      rfl

theorem readValue_string (inner : Option (Reader Json)) (s : String) (t : List Char) :
    readValue inner (writeString s ++ t) = .ok (string s, t) := by
  have hkey := scanKey_writeString s t
  have hhead : ∃ rest, writeString s ++ t = '"' :: rest := ⟨_, rfl⟩
  obtain ⟨rest, hrest⟩ := hhead
  rw [hrest] at hkey ⊢
  rw [scanKey, if_pos rfl] at hkey
  show mapScan string (scanString [] rest) = _
  rw [hkey]
  rfl

theorem member_reads {value : Reader α} {k : String} {x : List Char} {back : Option α}
    (h : Reads NoNumber value.run x back) :
    Reads NoNumber (member value).run (writeString k ++ ':' :: x) (back.map (k, ·)) := by
  intro t ht
  have hv := h t ht
  have hcolon : scanColon (':' :: (x ++ t)) = .ok (x ++ t) := rfl
  show (readMember value ((writeString k ++ ':' :: x) ++ t)).toOption = _
  rw [List.append_assoc, List.cons_append, readMember, scanKey_writeString]
  dsimp only
  rw [hcolon]
  dsimp only
  cases back with
  | none =>
      obtain ⟨f, hf⟩ := toOption_eq_none hv
      rw [hf]
      rfl
  | some w =>
      rw [toOption_eq_some hv]
      rfl

theorem mapScan_toOption {β : Type} {f : α → β} {x : Except Fault (α × List Char)} {o : Option α}
    {t : List Char} (h : x.toOption = o.map (·, t)) :
    (mapScan f x).toOption = (o.map f).map (·, t) := by
  cases o with
  | none =>
      obtain ⟨e, rfl⟩ := toOption_eq_none h
      rfl
  | some v =>
      rw [toOption_eq_some h]
      rfl

/--
**A written document is read one way only.** Before every rest that cannot go on with a
number the reader takes exactly the document's text and gives what `reread` says.
-/
theorem value_reads (v : Json) :
    ∀ depth, Reads NoNumber (value depth).run (write v) (reread depth v) := by
  induction v using induct with
  | null => intro depth t _; cases depth <;> rfl
  | boolean b => intro depth t _; cases depth <;> cases b <;> rfl
  | number n =>
      intro depth
      cases depth with
      | zero => exact readValue_number none n
      | succ depth => exact readValue_number (some (value depth)) n
  | string s =>
      intro depth t _
      cases depth with
      | zero =>
          show (readValue none (writeString s ++ t)).toOption = _
          rw [readValue_string]
          rfl
      | succ depth =>
          show (readValue (some (value depth)) (writeString s ++ t)).toOption = _
          rw [readValue_string]
          rfl
  | array items ih =>
      intro depth t _
      cases depth with
      | zero => rfl
      | succ depth =>
          have hitems := readBracket_joined listBracket_proper rfl (fun v hv => ih v hv depth)
            (fun v _ => startsItem_write v) t
          rw [reread, rereadItems_eq]
          show (mapScan array (readBracket listBracket (value depth)
            (writeItems items ++ [']'] ++ t))).toOption = _
          rw [writeItems_eq, List.append_assoc]
          exact mapScan_toOption hitems
  | object members ih =>
      intro depth t _
      cases depth with
      | zero => rfl
      | succ depth =>
          have hmembers := readBracket_joined objectBracket_proper rfl
            (fun m hm => member_reads (ih m hm depth)) (fun m _ => startsItem_member m) t
          rw [reread, rereadMembers_eq]
          show (mapScan (object ∘ Assoc.ofPairs) (readBracket objectBracket
            (member (value depth)) (writeMembers members ++ ['}'] ++ t))).toOption = _
          rw [writeMembers_eq, List.append_assoc]
          exact mapScan_toOption hmembers

/-- A whole text that was written is read as what comes back of the document. -/
theorem read_write (v : Json) : (read (write v)).toOption = reread maxDepth v := by
  have h := value_reads v maxDepth [] noNumber_nil
  rw [List.append_nil] at h
  rw [read]
  cases hr : reread maxDepth v with
  | none =>
      rw [hr] at h
      obtain ⟨f, hf⟩ := toOption_eq_none h
      rw [hf]
      rfl
  | some w =>
      rw [hr] at h
      rw [toOption_eq_some h]
      rfl

/-! ## Faithful documents -/

mutual

/-- How deep brackets nest in a value. -/
def nesting : Json → Nat
  | array items => nestingItems items + 1
  | object members => nestingMembers members + 1
  | _ => 0

/-- How deep brackets nest in some items. -/
def nestingItems : List Json → Nat
  | [] => 0
  | v :: rest => max (nesting v) (nestingItems rest)

/-- How deep brackets nest in the values of some members. -/
def nestingMembers : List (String × Json) → Nat
  | [] => 0
  | (_, v) :: rest => max (nesting v) (nestingMembers rest)

end

mutual

/-- The doubles in a value. -/
def doubles : Json → List Double
  | number (.double d) => [d]
  | array items => doublesItems items
  | object members => doublesMembers members
  | _ => []

/-- The doubles in some items. -/
def doublesItems : List Json → List Double
  | [] => []
  | v :: rest => doubles v ++ doublesItems rest

/-- The doubles in the values of some members. -/
def doublesMembers : List (String × Json) → List Double
  | [] => []
  | (_, v) :: rest => doubles v ++ doublesMembers rest

end

mutual

/-- No object in the value has a key twice, as no map has. -/
def WellKeyed : Json → Prop
  | array items => WellKeyedItems items
  | object members => (members.map Prod.fst).Nodup ∧ WellKeyedMembers members
  | _ => True

/-- No object in the items has a key twice. -/
def WellKeyedItems : List Json → Prop
  | [] => True
  | v :: rest => WellKeyed v ∧ WellKeyedItems rest

/-- No object in the values of the members has a key twice. -/
def WellKeyedMembers : List (String × Json) → Prop
  | [] => True
  | (_, v) :: rest => WellKeyed v ∧ WellKeyedMembers rest

end

/--
**What a reader gives back as it was written.** Brackets nest no deeper than a reader goes,
and every double is spelled by digits that are read as that double.
-/
structure Faithful (v : Json) : Prop where
  /-- A reader goes as deep as the brackets nest. -/
  shallow : v.nesting ≤ maxDepth
  /-- Every double is read back as itself. -/
  exact : ∀ d ∈ v.doubles, rereadNumber (.double d) = some (.double d)

theorem nestingItems_le {items : List Json} {n : Nat} :
    nestingItems items ≤ n ↔ ∀ v ∈ items, v.nesting ≤ n := by
  induction items with
  | nil => simp [nestingItems]
  | cons v rest ih => rw [nestingItems, Nat.max_le, ih, List.forall_mem_cons]

theorem nestingMembers_le {members : List (String × Json)} {n : Nat} :
    nestingMembers members ≤ n ↔ ∀ m ∈ members, m.2.nesting ≤ n := by
  induction members with
  | nil => simp [nestingMembers]
  | cons m rest ih => rw [nestingMembers, Nat.max_le, ih, List.forall_mem_cons]

theorem mem_doublesItems {items : List Json} {d : Double} :
    d ∈ doublesItems items ↔ ∃ v ∈ items, d ∈ v.doubles := by
  induction items with
  | nil => simp [doublesItems]
  | cons v rest ih => simp [doublesItems, ih]

theorem mem_doublesMembers {members : List (String × Json)} {d : Double} :
    d ∈ doublesMembers members ↔ ∃ m ∈ members, d ∈ m.2.doubles := by
  induction members with
  | nil => simp [doublesMembers]
  | cons m rest ih => simp [doublesMembers, ih]

theorem wellKeyedItems_iff {items : List Json} :
    WellKeyedItems items ↔ ∀ v ∈ items, v.WellKeyed := by
  induction items with
  | nil => simp [WellKeyedItems]
  | cons v rest ih => simp [WellKeyedItems, ih]

theorem wellKeyedMembers_iff {members : List (String × Json)} :
    WellKeyedMembers members ↔ ∀ m ∈ members, m.2.WellKeyed := by
  induction members with
  | nil => simp [WellKeyedMembers]
  | cons m rest ih => simp [WellKeyedMembers, ih]

theorem mapM_eq_self {f : α → Option α} {xs : List α} (h : ∀ x ∈ xs, f x = some x) :
    xs.mapM f = some xs := by
  induction xs with
  | nil => rfl
  | cons x xs ih =>
      rw [List.mapM_cons, h x (by simp), ih fun y hy => h y (by simp [hy])]
      rfl

/-- A faithful document comes back as it was written. -/
theorem reread_of_exact {v : Json} (hkeys : v.WellKeyed)
    (hexact : ∀ d ∈ v.doubles, rereadNumber (.double d) = some (.double d)) :
    ∀ {depth}, v.nesting ≤ depth → reread depth v = some v := by
  induction v using induct with
  | null => intro depth _; cases depth <;> rfl
  | boolean b => intro depth _; cases depth <;> rfl
  | string s => intro depth _; cases depth <;> rfl
  | number n =>
      intro depth _
      have hn : rereadNumber n = some n := by
        cases n with
        | integer i fits => exact rereadNumber_integer i fits
        | double d => exact hexact d (by simp [doubles])
      cases depth <;> rw [reread, hn] <;> rfl
  | array items ih =>
      intro depth hdepth
      rw [nesting] at hdepth
      cases depth with
      | zero => omega
      | succ depth =>
          rw [WellKeyed, wellKeyedItems_iff] at hkeys
          have hitems : items.mapM (reread depth) = some items :=
            mapM_eq_self fun v hv => ih v hv (hkeys v hv)
              (fun d hd => hexact d (by rw [doubles, mem_doublesItems]; exact ⟨v, hv, hd⟩))
              (nestingItems_le.mp (by omega) v hv)
          rw [reread, rereadItems_eq, hitems]
          rfl
  | object members ih =>
      intro depth hdepth
      rw [nesting] at hdepth
      cases depth with
      | zero => omega
      | succ depth =>
          rw [WellKeyed, wellKeyedMembers_iff] at hkeys
          have hmembers : members.mapM (rereadMember depth) = some members :=
            mapM_eq_self fun m hm => by
              rw [rereadMember, ih m hm (hkeys.2 m hm)
                (fun d hd => hexact d (by rw [doubles, mem_doublesMembers]; exact ⟨m, hm, hd⟩))
                (nestingMembers_le.mp (by omega) m hm)]
              rfl
          rw [reread, rereadMembers_eq, hmembers]
          exact congrArg (fun ms => some (object ms)) (Assoc.ofPairs_of_nodup hkeys.1)

/-! ### What has come back with the same contents -/

theorem rereadItems_cons {depth : Nat} {v : Json} {items ws : List Json}
    (h : rereadItems depth (v :: items) = some ws) : ∃ w ws', ws = w :: ws' ∧
      reread depth v = some w ∧ rereadItems depth items = some ws' := by
  rw [rereadItems] at h
  obtain ⟨w, hw, h⟩ := Option.bind_eq_some_iff.mp h
  obtain ⟨ws', hws', rfl⟩ := Option.map_eq_some_iff.mp h
  exact ⟨w, ws', rfl, hw, hws'⟩

theorem rereadMembers_cons {depth : Nat} {k : String} {v : Json}
    {members ws : List (String × Json)} (h : rereadMembers depth ((k, v) :: members) = some ws) :
    ∃ w ws', ws = (k, w) :: ws' ∧ reread depth v = some w ∧
      rereadMembers depth members = some ws' := by
  rw [rereadMembers] at h
  obtain ⟨w, hw, h⟩ := Option.bind_eq_some_iff.mp h
  obtain ⟨ws', hws', rfl⟩ := Option.map_eq_some_iff.mp h
  exact ⟨w, ws', rfl, hw, hws'⟩

theorem rereadMembers_keys {depth : Nat} {members ws : List (String × Json)}
    (h : rereadMembers depth members = some ws) : ws.map Prod.fst = members.map Prod.fst := by
  induction members generalizing ws with
  | nil =>
      rw [rereadMembers] at h
      cases h
      rfl
  | cons m members ih =>
      obtain ⟨k, v⟩ := m
      obtain ⟨w, ws', rfl, -, hws'⟩ := rereadMembers_cons h
      rw [List.map_cons, ih hws']
      rfl

/-- What a document needs so that it came back with its contents. -/
def Came (depth : Nat) (v : Json) : Prop :=
  v.nesting ≤ depth ∧ ∀ d ∈ v.doubles, rereadNumber (.double d) = some (.double d)

theorem came_of_sameItems {depth : Nat} {items ws : List Json}
    (ih : ∀ v ∈ items, ∀ {w}, reread depth v = some w → w.same v = true → Came depth v)
    (h : rereadItems depth items = some ws) (hs : sameItems ws items = true) :
    ∀ v ∈ items, Came depth v := by
  induction items generalizing ws with
  | nil => simp
  | cons v items ihs =>
      obtain ⟨w, ws', rfl, hw, hws'⟩ := rereadItems_cons h
      rw [sameItems, Bool.and_eq_true] at hs
      intro u hu
      rcases List.mem_cons.mp hu with rfl | hu
      · exact ih u (by simp) hw hs.1
      · exact ihs (fun x hx => ih x (by simp [hx])) hws' hs.2 u hu

theorem came_of_sameMembers {depth : Nat} {members all ws : List (String × Json)}
    (ih : ∀ m ∈ members, ∀ {w}, reread depth m.2 = some w → w.same m.2 = true → Came depth m.2)
    (hget : ∀ m ∈ members, Assoc.get? all m.1 = some m.2)
    (h : rereadMembers depth members = some ws) (hs : sameMembers ws all = true) :
    ∀ m ∈ members, Came depth m.2 := by
  induction members generalizing ws with
  | nil => simp
  | cons m members ihs =>
      obtain ⟨k, v⟩ := m
      obtain ⟨w, ws', rfl, hw, hws'⟩ := rereadMembers_cons h
      rw [sameMembers, hget (k, v) (by simp), Bool.and_eq_true] at hs
      intro u hu
      rcases List.mem_cons.mp hu with rfl | hu
      · exact ih (k, v) (by simp) hw hs.1
      · exact ihs (fun x hx => ih x (by simp [hx])) (fun x hx => hget x (by simp [hx])) hws' hs.2
          u hu

/-- Only faithful documents come back with the contents they were written with. -/
theorem came_of_same {v : Json} (hkeys : v.WellKeyed) : ∀ {depth w}, reread depth v = some w →
    w.same v = true → Came depth v := by
  induction v using induct with
  | null => exact fun _ _ => ⟨by simp [nesting], by simp [doubles]⟩
  | boolean b => exact fun _ _ => ⟨by simp [nesting], by simp [doubles]⟩
  | string s => exact fun _ _ => ⟨by simp [nesting], by simp [doubles]⟩
  | number n =>
      intro depth w h hs
      refine ⟨by simp [nesting], ?_⟩
      cases n with
      | integer i fits => simp [doubles]
      | double d =>
          intro e he
          obtain rfl : e = d := by simpa [doubles] using he
          have hr : (rereadNumber (.double e)).map number = some w := by
            cases depth <;> rwa [reread] at h
          obtain ⟨m, hm, rfl⟩ := Option.map_eq_some_iff.mp hr
          rw [same] at hs
          rw [hm, rereadNumber_same hm hs]
  | array items ih =>
      intro depth w h hs
      cases depth with
      | zero => cases h
      | succ depth =>
          rw [reread] at h
          obtain ⟨ws, hws, rfl⟩ := Option.map_eq_some_iff.mp h
          rw [same] at hs
          rw [WellKeyed, wellKeyedItems_iff] at hkeys
          have hall := came_of_sameItems (fun v hv => ih v hv (hkeys v hv)) hws hs
          refine ⟨?_, fun d hd => ?_⟩
          · rw [nesting]
            exact Nat.succ_le_succ (nestingItems_le.mpr fun v hv => (hall v hv).1)
          · rw [doubles, mem_doublesItems] at hd
            obtain ⟨v, hv, hd⟩ := hd
            exact (hall v hv).2 d hd
  | object members ih =>
      intro depth w h hs
      cases depth with
      | zero => cases h
      | succ depth =>
          rw [reread] at h
          obtain ⟨ws, hws, rfl⟩ := Option.map_eq_some_iff.mp h
          rw [WellKeyed, wellKeyedMembers_iff] at hkeys
          have hkeysWs : (ws.map Prod.fst).Nodup := by
            rw [rereadMembers_keys hws]
            exact hkeys.1
          rw [Function.comp_apply, Assoc.ofPairs_of_nodup hkeysWs, same, Bool.and_eq_true] at hs
          have hall := came_of_sameMembers (fun m hm => ih m hm (hkeys.2 m hm))
            (fun m hm => Assoc.get?_of_mem hkeys.1 hm) hws hs.2
          refine ⟨?_, fun d hd => ?_⟩
          · rw [nesting]
            exact Nat.succ_le_succ (nestingMembers_le.mpr fun m hm => (hall m hm).1)
          · rw [doubles, mem_doublesMembers] at hd
            obtain ⟨m, hm, hd⟩ := hd
            exact (hall m hm).2 d hd

/-! ### Contents are compared with themselves -/

theorem number_same_refl (n : Number) : n.same n = true := by
  cases n with
  | integer i fits => simp [Number.same]
  | double d => simp [Number.same, Double.sameValue]

theorem sameItems_refl {items : List Json} (ih : ∀ v ∈ items, v.same v = true) :
    sameItems items items = true := by
  induction items with
  | nil => rfl
  | cons v items ihs =>
      rw [sameItems, ih v (by simp), ihs fun x hx => ih x (by simp [hx])]
      rfl

theorem sameMembers_refl {members all : List (String × Json)}
    (hget : ∀ m ∈ members, Assoc.get? all m.1 = some m.2)
    (ih : ∀ m ∈ members, m.2.same m.2 = true) : sameMembers members all = true := by
  induction members with
  | nil => rfl
  | cons m members ihs =>
      obtain ⟨k, v⟩ := m
      rw [sameMembers, hget (k, v) (by simp)]
      dsimp only
      rw [ih (k, v) (by simp),
        ihs (fun x hx => hget x (by simp [hx])) fun x hx => ih x (by simp [hx])]
      rfl

theorem same_refl {v : Json} (hkeys : v.WellKeyed) : v.same v = true := by
  induction v using induct with
  | null => rfl
  | boolean b => simp [same]
  | string s => simp [same]
  | number n => rw [same]; exact number_same_refl n
  | array items ih =>
      rw [WellKeyed, wellKeyedItems_iff] at hkeys
      rw [same]
      exact sameItems_refl fun v hv => ih v hv (hkeys v hv)
  | object members ih =>
      rw [WellKeyed, wellKeyedMembers_iff] at hkeys
      rw [same, sameMembers_refl (fun m hm => Assoc.get?_of_mem hkeys.1 hm)
        fun m hm => ih m hm (hkeys.2 m hm)]
      simp

/--
**What comes back is what was written, exactly for faithful documents.** It comes back with
the same contents if and only if it is faithful, and then it comes back as it is.
-/
theorem reread_iff_faithful {v : Json} (hkeys : v.WellKeyed) :
    (∃ w, reread maxDepth v = some w ∧ w.same v = true) ↔ v.Faithful := by
  constructor
  · rintro ⟨w, hw, hs⟩
    obtain ⟨hn, hd⟩ := came_of_same hkeys hw hs
    exact ⟨hn, hd⟩
  · intro hf
    exact ⟨v, reread_of_exact hkeys hf.exact hf.shallow, same_refl hkeys⟩

end SchemaHistory.Json
