import SchemaHistory.Proofs.Payload

/-!
# Writing what was read

A payload that was read is written again, and what was written is read again. Everything in
it comes back except possibly a double: what was read has distinct keys and nests no deeper
than a reader goes, so keys, texts and integers stay. A double is written by the shortest
digits that are nearest to it, and the reader may make its neighbour of these, or refuse them.
So a record stays as it is, however often it is written and read, exactly when its doubles do.
-/

namespace SchemaHistory.Json

open Decimal

/-! ## What does not hang on doubles -/

/-- A number, with zero for a double. -/
def zeroedNumber : Number → Number
  | .integer i fits => .integer i fits
  | .double _ => .double .zero

mutual

/-- The value with zero for every double in it. -/
def zeroed : Json → Json
  | null => null
  | boolean b => boolean b
  | number n => number (zeroedNumber n)
  | string s => string s
  | array items => array (zeroedItems items)
  | object members => object (zeroedMembers members)

/-- The items with zero for every double in them. -/
def zeroedItems : List Json → List Json
  | [] => []
  | v :: rest => zeroed v :: zeroedItems rest

/-- The members with zero for every double in their values. -/
def zeroedMembers : List (String × Json) → List (String × Json)
  | [] => []
  | (k, v) :: rest => (k, zeroed v) :: zeroedMembers rest

end

/-- Digits and then a point or the letter of a power of ten: what no integer is written as. -/
def IsBroken (cs : List Char) : Prop :=
  ∃ D c rest, cs = D ++ c :: rest ∧ (∀ d ∈ D, isDigit d = true) ∧ (c = '.' ∨ c = 'e')

theorem positional_isBroken {ds : List Char} (hds : ∀ d ∈ ds, isDigit d = true) (e : Int) :
    IsBroken (positional ds e) := by
  unfold positional
  split
  · refine ⟨['0'], '.', _, rfl, fun d hd => ?_, .inl rfl⟩
    rw [List.mem_singleton.mp hd]
    rfl
  dsimp only
  split
  · refine ⟨_, '.', ['0'], rfl, fun d hd => ?_, .inl rfl⟩
    rcases List.mem_append.mp hd with hd | hd
    · exact hds d hd
    · exact isDigit_of_mem_replicate hd
  · exact ⟨_, '.', _, rfl, fun d hd => hds d (List.mem_of_mem_take hd), .inl rfl⟩

theorem scientific_isBroken {ds : List Char} (hds : ∀ d ∈ ds, isDigit d = true) (e : Int) :
    IsBroken (scientific ds e) := by
  unfold scientific
  dsimp only
  split
  · rename_i first second rest
    refine ⟨[first], '.', _, rfl, fun d hd => hds d ?_, .inl rfl⟩
    rw [List.mem_singleton.mp hd]
    exact List.mem_cons_self
  · exact ⟨_, 'e', _, rfl, hds, .inr rfl⟩

theorem spell_isBroken (l : Layout) (d : Numeral) : IsBroken (l.spell d) := by
  unfold Layout.spell
  dsimp only
  split
  · exact positional_isBroken (fun _ hc => isDigit_of_mem_ofNat hc) _
  · exact scientific_isBroken (fun _ hc => isDigit_of_mem_ofNat hc) _

theorem scaledNumber_double {negative : Bool} {m : Nat} {x : Int} {s r : List Char} {n : Number}
    (h : scaledNumber negative m x s = .ok (n, r)) : ∃ d, n = .double d := by
  unfold scaledNumber at h
  split at h <;> cases h
  exact ⟨_, rfl⟩

theorem scanExponent_double {negative : Bool} {m : Nat} {x : Int} {s r : List Char} {n : Number}
    (h : scanExponent negative m x s = .ok (n, r)) : ∃ d, n = .double d := by
  unfold scanExponent at h
  dsimp only at h
  split at h
  · cases h
  split at h
  · cases h
  split at h
  · exact scaledNumber_double h
  split at h <;> cases h
  exact ⟨_, rfl⟩

theorem scanFraction_double {negative : Bool} {m dropped : Nat} {s r : List Char} {n : Number}
    (h : scanFraction negative m dropped s = .ok (n, r)) : ∃ d, n = .double d := by
  unfold scanFraction at h
  dsimp only at h
  split at h
  · cases h
  split at h
  · exact scanExponent_double h
  · exact scanExponent_double h
  · exact scaledNumber_double h

/-- What is written broken is read as a double. -/
theorem scanNumber_double {negative : Bool} {cs r : List Char} {n : Number} (hcs : IsBroken cs)
    (h : scanNumber negative cs = .ok (n, r)) : ∃ d, n = .double d := by
  obtain ⟨D, c, rest, rfl, hD, hc⟩ := hcs
  have hstop : NoDigit (c :: rest) := by
    rintro _ _ ⟨⟩
    rcases hc with rfl | rfl <;> rfl
  cases D with
  | nil => exact absurd h (scanNumber_noDigit (takeWhile_digits (D := []) hD hstop))
  | cons d D =>
      rw [scanNumber_digits hD hstop] at h
      split at h
      · cases h
      rcases hc with rfl | rfl
      · exact scanFraction_double h
      · exact scanExponent_double h

/-- Of a double nothing but a double comes back. -/
theorem rereadNumber_double {d : Double} {n : Number} (h : rereadNumber (.double d) = some n) :
    ∃ e, n = .double e := by
  obtain ⟨p, hscan, rfl⟩ := Option.map_eq_some_iff.mp h
  have hscan := toOption_eq_some hscan
  have hbroken := spell_isBroken doubleLayout d.shortest
  rw [writeNumber, Layout.double] at hscan
  split at hscan
  · exact scanNumber_double hbroken hscan
  · obtain ⟨c, rest, hs, hc⟩ := (spell_isSpelling doubleLayout d.shortest).head
    rw [scanSigned_plain (by rw [hs]; simpa using ne_minus_of_isDigit hc)] at hscan
    exact scanNumber_double hbroken hscan

theorem zeroedNumber_reread {n m : Number} (h : rereadNumber n = some m) :
    zeroedNumber m = zeroedNumber n := by
  cases n with
  | integer i fits =>
      rw [rereadNumber_integer] at h
      rw [← Option.some.inj h]
  | double d =>
      obtain ⟨e, rfl⟩ := rereadNumber_double h
      rfl

theorem zeroedItems_reread {depth : Nat} {items ws : List Json}
    (ih : ∀ v ∈ items, ∀ {w}, reread depth v = some w → w.zeroed = v.zeroed)
    (h : rereadItems depth items = some ws) : zeroedItems ws = zeroedItems items := by
  induction items generalizing ws with
  | nil =>
      rw [rereadItems] at h
      cases h
      rfl
  | cons v items ihs =>
      obtain ⟨w, ws', rfl, hw, hws'⟩ := rereadItems_cons h
      rw [zeroedItems, zeroedItems, ih v (by simp) hw, ihs (fun x hx => ih x (by simp [hx])) hws']

theorem zeroedMembers_reread {depth : Nat} {members ws : List (String × Json)}
    (ih : ∀ m ∈ members, ∀ {w}, reread depth m.2 = some w → w.zeroed = m.2.zeroed)
    (h : rereadMembers depth members = some ws) : zeroedMembers ws = zeroedMembers members := by
  induction members generalizing ws with
  | nil =>
      rw [rereadMembers] at h
      cases h
      rfl
  | cons m members ihs =>
      obtain ⟨k, v⟩ := m
      obtain ⟨w, ws', rfl, hw, hws'⟩ := rereadMembers_cons h
      rw [zeroedMembers, zeroedMembers, ih (k, v) (by simp) hw,
        ihs (fun x hx => ih x (by simp [hx])) hws']

/-- **Nothing but doubles changes** when a document with distinct keys comes back. -/
theorem zeroed_reread {v : Json} (hkeys : v.WellKeyed) :
    ∀ {depth w}, reread depth v = some w → w.zeroed = v.zeroed := by
  induction v using induct with
  | null => intro depth w h; cases depth <;> cases h <;> rfl
  | boolean b => intro depth w h; cases depth <;> cases h <;> rfl
  | string s => intro depth w h; cases depth <;> cases h <;> rfl
  | number n =>
      intro depth w h
      have hr : (rereadNumber n).map number = some w := by
        cases depth <;> rwa [reread] at h
      obtain ⟨m, hm, rfl⟩ := Option.map_eq_some_iff.mp hr
      rw [zeroed, zeroed, zeroedNumber_reread hm]
  | array items ih =>
      intro depth w h
      cases depth with
      | zero => cases h
      | succ depth =>
          rw [reread] at h
          obtain ⟨ws, hws, rfl⟩ := Option.map_eq_some_iff.mp h
          rw [WellKeyed, wellKeyedItems_iff] at hkeys
          rw [zeroed, zeroed, zeroedItems_reread (fun v hv => ih v hv (hkeys v hv)) hws]
  | object members ih =>
      intro depth w h
      cases depth with
      | zero => cases h
      | succ depth =>
          rw [reread] at h
          obtain ⟨ws, hws, rfl⟩ := Option.map_eq_some_iff.mp h
          rw [WellKeyed, wellKeyedMembers_iff] at hkeys
          have hkeysWs : (ws.map Prod.fst).Nodup := by
            rw [rereadMembers_keys hws]
            exact hkeys.1
          rw [Function.comp_apply, Assoc.ofPairs_of_nodup hkeysWs, zeroed, zeroed,
            zeroedMembers_reread (fun m hm => ih m hm (hkeys.2 m hm)) hws]

end SchemaHistory.Json

namespace SchemaHistory.Record

open Json

/-! ## Records that are read and written again -/

/-- Every double in the record is spelled by digits that are read as that double. -/
def Exact (r : Record) : Prop :=
  ∀ d ∈ (Json.object r.document).doubles, rereadNumber (.double d) = some (.double d)

instance (r : Record) : Decidable r.Exact :=
  inferInstanceAs (Decidable (∀ d ∈ _, rereadNumber (.double d) = some (.double d)))

/-- What becomes of a record that is written and read so many times. -/
def rewritten : Nat → Record → Option Record
  | 0, r => some r
  | n + 1, r => r.returned.bind (rewritten n)

theorem parse_of_toOption {cs : List Char} {r : Record} (h : (parse cs).toOption = some r) :
    parse cs = .ok r := by
  cases hparse : parse cs with
  | error e =>
      rw [hparse] at h
      cases h
  | ok r' =>
      rw [hparse] at h
      rw [Option.some.inj h]

theorem returned_eq_some {r again : Record} :
    r.returned = some again ↔ parse r.payload.toList = .ok again :=
  ⟨parse_of_toOption, fun h => by rw [returned, h]; rfl⟩

theorem rewritten_of_returned {r : Record} (h : r.returned = some r) (n : Nat) :
    r.rewritten n = some r := by
  induction n with
  | zero => rfl
  | succ n ih => rw [rewritten, h, Option.bind_some, ih]

theorem rewritten_one (r : Record) : r.rewritten 1 = r.returned := by
  rw [rewritten]
  cases r.returned <;> rfl

/-- Of what was read, all that a way back asks for is in place but the doubles. -/
theorem faithful_iff_exact {cs : List Char} {r : Record} (h : parse cs = .ok r) :
    r.Faithful ↔ r.Exact :=
  ⟨fun hf => hf.exact, fun he => ⟨(built_of_parse h).shallow, he⟩⟩

/-- What was read comes back equal exactly when its doubles do. -/
theorem reread_same_iff {cs : List Char} {r : Record} (h : parse cs = .ok r) :
    (∃ again, r.returned = some again ∧ again.same r = true) ↔ r.Exact :=
  (returned_iff_faithful (built_of_parse h).wellKeyed).trans (faithful_iff_exact h)

/-- What was read and has such doubles comes back as it is. -/
theorem returned_of_exact {cs : List Char} {r : Record} (h : parse cs = .ok r) (he : r.Exact) :
    r.returned = some r :=
  returned_of_faithful (built_of_parse h).wellKeyed ((faithful_iff_exact h).mpr he)

/-- What was read keeps all but its doubles when it is written and read again. -/
theorem zeroed_of_reread {cs : List Char} {r again : Record} (h : parse cs = .ok r)
    (hagain : r.returned = some again) :
    (Json.object again.document).zeroed = (Json.object r.document).zeroed := by
  rw [returned_eq] at hagain
  obtain ⟨v, hv, hmembers⟩ := Option.bind_eq_some_iff.mp hagain
  obtain ⟨ns, rfl⟩ := reread_object hv
  obtain rfl : (⟨ns⟩ : Record) = again := Option.some.inj hmembers
  exact zeroed_reread (built_of_parse h).wellKeyed hv

/--
**Reading and writing a record leaves it as it is exactly when its doubles are exact.** Of
every text that is read as a record, what is written for it is read as an equal record and
written as the same text again exactly when each double of it is spelled by digits that are
read as that double; then so it stays for any number of times. Whatever comes back otherwise
has the same keys in their order, the same texts and integers, and doubles where doubles were.
-/
theorem rewriting_keeps_iff {cs : List Char} {r : Record} (h : parse cs = .ok r) :
    ((∃ again, parse r.payload.toList = .ok again ∧ again.same r = true ∧
        again.payload = r.payload) ↔ r.Exact) ∧
      ((∀ n, ∃ again, r.rewritten n = some again ∧ again.same r = true ∧
        again.payload = r.payload) ↔ r.Exact) ∧
      ∀ again, parse r.payload.toList = .ok again →
        (Json.object again.document).zeroed = (Json.object r.document).zeroed := by
  have hexact (again : Record) (hr : r.returned = some again) (hs : again.same r = true) :
      r.Exact := (reread_same_iff h).mp ⟨again, hr, hs⟩
  have hself : r.same r = true := Json.same_refl (built_of_parse h).wellKeyed
  refine ⟨⟨?_, fun he => ?_⟩, ⟨fun hall => ?_, fun he n => ?_⟩, fun again hagain => ?_⟩
  · rintro ⟨again, hparse, hs, -⟩
    exact hexact again (returned_eq_some.mpr hparse) hs
  · exact ⟨r, returned_eq_some.mp (returned_of_exact h he), hself, rfl⟩
  · obtain ⟨again, hrewritten, hs, -⟩ := hall 1
    rw [rewritten_one] at hrewritten
    exact hexact again hrewritten hs
  · exact ⟨r, rewritten_of_returned (returned_of_exact h he) n, hself, rfl⟩
  · exact zeroed_of_reread h (returned_eq_some.mpr hagain)

/-- The text of a record that holds one number. -/
def numberText (number : String) : String := "\x7b\"x\":" ++ number ++ "\x7d"

theorem rewriting_keeps_iff_drifting :
    ∃ r again, parse (numberText "9.020919926283734").toList = .ok r ∧
      parse r.payload.toList = .ok again ∧ r.payload = numberText "9.020919926283733" ∧
      again.payload = numberText "9.020919926283732" ∧ ¬ again.same r = true ∧
      (Json.object again.document).zeroed = (Json.object r.document).zeroed := by
  have hfirst : (parse (numberText "9.020919926283734").toList).toOption.map Record.payload =
      some (numberText "9.020919926283733") := by decide +kernel
  have hsecond : (parse (numberText "9.020919926283733").toList).toOption.map Record.payload =
      some (numberText "9.020919926283732") := by decide +kernel
  obtain ⟨r, hr, hpayload⟩ := Option.map_eq_some_iff.mp hfirst
  obtain ⟨again, hagain, htext⟩ := Option.map_eq_some_iff.mp hsecond
  have hparse := parse_of_toOption hr
  rw [← hpayload] at hagain
  have hreparse := parse_of_toOption hagain
  obtain ⟨hone, -, hzeroed⟩ := rewriting_keeps_iff hparse
  refine ⟨r, again, hparse, hreparse, hpayload, htext, fun hsame => ?_, hzeroed _ hreparse⟩
  -- had it come back equal, it would be written as the same text
  have hexact := (reread_same_iff hparse).mp ⟨again, returned_eq_some.mpr hreparse, hsame⟩
  obtain ⟨third, hthird, -, hsamePayload⟩ := hone.mpr hexact
  rw [hreparse] at hthird
  rw [← Except.ok.inj hthird, htext, hpayload] at hsamePayload
  exact absurd hsamePayload (by decide +kernel)

end SchemaHistory.Record
