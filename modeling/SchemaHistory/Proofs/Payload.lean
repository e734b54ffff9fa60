import SchemaHistory.Proofs.Json.Built
import SchemaHistory.Proofs.Text.Utf8
import SchemaHistory.Record

/-!
# Payloads

A record is stored as one line of text. Three facts about that line carry what the logs
promise. It is one line: no control character is in it. It is read back as what `returned` says,
which is the record itself exactly when the record is faithful. And no part of it that was
cut off at the end passes for a record: an object ends with its bracket, so had the part
been read as an object, the whole line would be read as that object with something left.
-/

namespace SchemaHistory.Json

open Text

/-! ## One line -/

/-- No line feed is among the characters. -/
def OneLine (cs : List Char) : Prop := '\n' ∉ cs

/-- No control character is among the characters. -/
def Printed (cs : List Char) : Prop := ∀ c ∈ cs, 0x20 ≤ c.toNat

/-- Characters that are given can be looked at one by one. -/
theorem printed_of_all {cs : List Char} (h : (cs.all fun c => 0x20 ≤ c.toNat) = true) :
    Printed cs := fun c hc => of_decide_eq_true (List.all_eq_true.mp h c hc)

theorem printed_nil : Printed [] := printed_of_all rfl

theorem Printed.oneLine {cs : List Char} (h : Printed cs) : OneLine cs :=
  fun hmem => absurd (h _ hmem) (by decide)

theorem Printed.append {xs ys : List Char} (hx : Printed xs) (hy : Printed ys) :
    Printed (xs ++ ys) := by
  intro c hc
  rcases List.mem_append.mp hc with hc | hc
  · exact hx c hc
  · exact hy c hc

theorem Printed.cons {c : Char} {cs : List Char} (hc : 0x20 ≤ c.toNat) (h : Printed cs) :
    Printed (c :: cs) := by
  intro d hd
  rcases List.mem_cons.mp hd with rfl | hd
  · exact hc
  · exact h d hd

theorem printed_digits {cs : List Char} (h : ∀ c ∈ cs, isDigit c = true) : Printed cs := by
  intro c hc
  have hdigit := h c hc
  rw [isDigit, digit?] at hdigit
  split at hdigit
  · rename_i hrange
    exact Nat.le_trans (by decide) hrange.1
  · cases hdigit

theorem printed_digitChar : ∀ n, n < 16 → 0x20 ≤ (Nat.digitChar n).toNat := by decide

theorem printed_escaped (c : Char) : Printed (escaped c) := by
  unfold escaped
  split
  · exact printed_of_all rfl
  split
  · exact printed_of_all rfl
  split
  · exact printed_of_all rfl
  split
  · exact printed_of_all rfl
  split
  · exact printed_of_all rfl
  split
  · exact printed_of_all rfl
  split
  · exact printed_of_all rfl
  split
  · have hhigh := printed_digitChar (c.toNat / 16) (by omega)
    have hlow := printed_digitChar (c.toNat % 16) (by omega)
    have hstart : Printed ['\\', 'u', '0', '0'] := printed_of_all rfl
    exact hstart.append (.cons hhigh (.cons hlow printed_nil))
  · rename_i hcontrol
    exact .cons (Nat.le_of_not_lt hcontrol) printed_nil

theorem printed_writeString (s : String) : Printed (writeString s) := by
  have hchars : Printed (s.toList.flatMap escaped) := by
    intro d hd
    obtain ⟨c, -, hc⟩ := List.mem_flatMap.mp hd
    exact printed_escaped c d hc
  exact Printed.append (.cons (by decide) hchars) (printed_of_all rfl)

theorem printed_writeNumber (n : Number) : Printed (writeNumber n) := by
  have hspelling : ∀ {cs}, IsSpelling cs → Printed cs := by
    rintro cs ⟨whole, fraction, power, rfl, -, hw, hf, hp⟩
    have hfraction : Printed fraction := by
      rcases hf with rfl | ⟨ds, rfl, hds⟩
      · exact printed_nil
      · exact .cons (by decide) (printed_digits hds)
    have hpower : Printed power := by
      rcases hp with rfl | ⟨sign, ds, rfl, hsign, hds⟩
      · exact printed_nil
      · refine .cons (by decide) (.cons ?_ (printed_digits hds))
        rcases hsign with rfl | rfl <;> decide
    exact (printed_digits hw).append (hfraction.append hpower)
  obtain ⟨cs, hcs, hn | hn⟩ := writeNumber_shape n
  · rw [hn]
    exact hspelling hcs
  · rw [hn]
    exact .cons (by decide) (hspelling hcs)

theorem printed_joined {xs : List (List Char)} (h : ∀ x ∈ xs, Printed x) : Printed (joined xs) := by
  induction xs with
  | nil => exact printed_nil
  | cons x xs ih =>
      cases xs with
      | nil => exact h x (by simp)
      | cons y xs =>
          rw [joined]
          exact (h x (by simp)).append (.cons (by decide) (ih fun z hz => h z (by simp [hz])))

/-- **A document is written without control characters**, so on one line. -/
theorem printed_write (v : Json) : Printed v.write := by
  induction v using Json.induct with
  | null => exact printed_of_all rfl
  | boolean b => cases b <;> exact printed_of_all rfl
  | number n => exact printed_writeNumber n
  | string s => exact printed_writeString s
  | array items ih =>
      rw [write, writeItems_eq]
      refine Printed.append (.cons (by decide) (printed_joined ?_)) (printed_of_all rfl)
      intro x hx
      obtain ⟨v, hv, rfl⟩ := List.mem_map.mp hx
      exact ih v hv
  | object members ih =>
      rw [write, writeMembers_eq]
      refine Printed.append (.cons (by decide) (printed_joined ?_)) (printed_of_all rfl)
      intro x hx
      obtain ⟨m, hm, rfl⟩ := List.mem_map.mp hx
      exact (printed_writeString m.1).append (.cons (by decide) (ih m hm))

/-! ## What was cut off -/

theorem isSpace_of_skipSpace {cs : List Char} (h : skipSpace cs = []) :
    ∀ c ∈ cs, isSpace c = true := by
  have hall : cs.takeWhile isSpace = cs := by
    have := List.takeWhile_append_dropWhile (p := isSpace) (l := cs)
    rwa [show cs.dropWhile isSpace = [] from h, List.append_nil] at this
  intro c hc
  rw [← hall] at hc
  exact List.all_eq_true.1 List.all_takeWhile c hc

/-- A text that is read as an object is read so up to its bracket, whatever stands behind it. -/
theorem read_object {cs : List Char} {ms : Members} (h : read cs = .ok (.object ms)) :
    ∃ x rest, cs = x ++ '}' :: rest ∧ (∀ c ∈ rest, isSpace c = true) ∧
      ∀ t, (value maxDepth).run (x ++ '}' :: t) = .ok (.object ms, t) := by
  rw [read] at h
  cases hrun : (value maxDepth).run cs with
  | error f =>
      rw [hrun] at h
      cases h
  | ok p =>
      obtain ⟨v, rest⟩ := p
      rw [hrun, finish] at h
      split at h
      · rename_i hskip
        cases h
        obtain ⟨x, hx, ht⟩ := value_object_closes hrun
        refine ⟨x, rest, hx, ?_, ht⟩
        exact isSpace_of_skipSpace hskip
      · cases h

/-- A part of a document's text that lacks its end is not read as an object. -/
theorem read_prefix {v : Json} {cs more : List Char} (hv : v.write = cs ++ more)
    (hmore : more ≠ []) (ms : Members) : read cs ≠ .ok (.object ms) := by
  intro h
  obtain ⟨x, rest, rfl, -, ht⟩ := read_object h
  have hwhole := value_reads v maxDepth [] noNumber_nil
  rw [List.append_nil, hv, List.append_assoc, List.cons_append, ht (rest ++ more)] at hwhole
  -- the whole text is read with `rest ++ more` left, but nothing of it may be left
  cases hr : reread maxDepth v with
  | none =>
      rw [hr] at hwhole
      cases hwhole
  | some w =>
      rw [hr] at hwhole
      have : rest ++ more = [] := (Prod.mk.inj (Option.some.inj hwhole)).2
      exact hmore (List.append_eq_nil_iff.mp this).2

/-- A text that ends with a replacement character is not read as an object. -/
theorem read_replacement (cs : List Char) (ms : Members) :
    read (cs ++ [replacement]) ≠ .ok (.object ms) := by
  intro h
  obtain ⟨x, rest, hx, hrest, -⟩ := read_object h
  have hlast := congrArg List.getLast? hx
  rw [List.getLast?_append, List.getLast?_singleton, List.getLast?_append,
    List.getLast?_cons] at hlast
  have hchar : replacement = rest.getLast?.getD '}' := Option.some.inj hlast
  cases hr : rest.getLast? with
  | none =>
      rw [hr] at hchar
      exact absurd hchar (by decide)
  | some c =>
      have hspace := hrest c (List.mem_of_getLast? hr)
      rw [hr] at hchar
      rw [← show replacement = c from hchar] at hspace
      exact absurd hspace (by decide)

end SchemaHistory.Json

namespace SchemaHistory.Record

open Text Json

/-! ## What comes back -/

theorem payload_toList (r : Record) : r.payload.toList = r.write := String.toList_ofList

theorem printed_payload (r : Record) : Printed r.payload.toList := by
  rw [payload_toList]
  exact printed_write _

theorem oneLine_payload (r : Record) : OneLine r.payload.toList := r.printed_payload.oneLine

/-- What is read from the payload of a record; nothing, when that is refused. -/
def returned (r : Record) : Option Record := (parse r.payload.toList).toOption

/-- What is read from the bytes of a line. -/
def ofLine (line : Bytes) : Option Record := (parse (decodeLossy line)).toOption

/-- A record's line gives what comes back of the record. -/
theorem ofLine_payload (r : Record) : ofLine (utf8 r.payload) = r.returned := by
  rw [ofLine, decodeLossy_utf8]
  rfl

/-- No object in the record has a key twice, as no map has. -/
def WellKeyed (r : Record) : Prop := (Json.object r.document).WellKeyed

/--
The record is one that its payload is read back as: brackets nest at most as deep as a
reader goes, and every double in it is read back as itself.
-/
def Faithful (r : Record) : Prop := (Json.object r.document).Faithful

/-- A record is what is read as an object. -/
theorem parse_toOption (cs : List Char) : (parse cs).toOption =
    (Json.read cs).toOption.bind fun v => v.members?.map Record.mk := by
  rw [parse]
  cases Json.read cs with
  | error e => rfl
  | ok v => cases v <;> rfl

theorem returned_eq (r : Record) :
    r.returned = (reread maxDepth (.object r.document)).bind fun v => v.members?.map Record.mk := by
  rw [returned, parse_toOption, payload_toList, ← read_write]
  rfl

/-- What comes back of an object is an object. -/
theorem reread_object {depth : Nat} {ms : Members} {v : Json}
    (h : reread depth (.object ms) = some v) : ∃ ns, v = .object ns := by
  cases depth with
  | zero => cases h
  | succ depth =>
      rw [reread] at h
      obtain ⟨ns, -, rfl⟩ := Option.map_eq_some_iff.mp h
      exact ⟨_, rfl⟩

/--
**A record comes back with its contents exactly when it is faithful.**
-/
theorem returned_iff_faithful {r : Record} (hkeys : r.WellKeyed) :
    (∃ r', r.returned = some r' ∧ r'.same r = true) ↔ r.Faithful := by
  rw [Faithful, ← reread_iff_faithful hkeys, returned_eq]
  constructor
  · rintro ⟨r', hr', hs⟩
    obtain ⟨v, hv, hr'⟩ := Option.bind_eq_some_iff.mp hr'
    obtain ⟨ns, rfl⟩ := reread_object hv
    obtain rfl : (⟨ns⟩ : Record) = r' := Option.some.inj hr'
    exact ⟨_, hv, hs⟩
  · rintro ⟨w, hw, hs⟩
    obtain ⟨ns, rfl⟩ := reread_object hw
    exact ⟨⟨ns⟩, by rw [hw]; rfl, hs⟩

/-- A faithful record comes back as it is. -/
theorem returned_of_faithful {r : Record} (hkeys : r.WellKeyed) (hf : r.Faithful) :
    r.returned = some r := by
  rw [returned_eq, reread_of_exact hkeys hf.exact hf.shallow]
  rfl

theorem wellKeyed_ofChange {source position : Members} (database ddl : Option String)
    (hs : (Json.object source).WellKeyed) (hp : (Json.object position).WellKeyed) :
    (ofChange source position database ddl).WellKeyed := by
  rw [WellKeyed, Json.WellKeyed, wellKeyedMembers_iff]
  have hstring : ∀ s, (Json.string s).WellKeyed := fun s => by simp [Json.WellKeyed]
  cases database <;> cases ddl <;>
    simp [ofChange, membersOf, sourceKey, positionKey, databaseKey, ddlKey, hs, hp, hstring]

/-- A record with statements only. -/
def ofStatements (ddl : String) : Record := ofChange [] [] none (some ddl)

theorem wellKeyed_ofStatements (ddl : String) : (ofStatements ddl).WellKeyed :=
  wellKeyed_ofChange none (some ddl) (by simp [Json.WellKeyed, wellKeyedMembers_iff])
    (by simp [Json.WellKeyed, wellKeyedMembers_iff])

/-- A record that was read is one that could have been built. -/
theorem built_of_parse {cs : List Char} {r : Record} (h : parse cs = .ok r) :
    Built maxDepth (.object r.document) := by
  rw [parse] at h
  split at h
  · cases h
  · rename_i hread
    cases h
    exact built_of_read hread
  · cases h

/-- A faithful record is read from its payload. -/
theorem parse_payload {r : Record} (hkeys : r.WellKeyed) (hf : r.Faithful) :
    parse r.payload.toList = .ok r := by
  have hreturned := returned_of_faithful hkeys hf
  rw [returned] at hreturned
  cases hparse : parse r.payload.toList with
  | error e =>
      rw [hparse] at hreturned
      cases hreturned
  | ok r' =>
      rw [hparse] at hreturned
      rw [Option.some.inj hreturned]

/-- A new record holds what it was made of. -/
theorem accessors_ofChange (source position : Members) (database ddl : Option String) :
    (ofChange source position database ddl).source = some source ∧
      (ofChange source position database ddl).position = some position ∧
      (ofChange source position database ddl).database = database ∧
      (ofChange source position database ddl).ddl = ddl := by
  refine ⟨rfl, rfl, ?_, ?_⟩ <;> cases database <;> cases ddl <;> rfl

/--
**A record comes back from its payload as it was stored**, with every key in its place, so that
its payload is the same text again, which has no line break. What it was made of is read from
it. The record may hold any texts, integers, arrays and objects that nest no deeper than a
reader goes; of its doubles it is asked that their spelling means them.
-/
theorem payload_round_trip {r : Record} (hkeys : r.WellKeyed)
    (hshallow : (Json.object r.document).nesting ≤ 127)
    (hexact : ∀ d ∈ (Json.object r.document).doubles, rereadNumber (.double d) = some (.double d)) :
    '\n' ∉ r.payload.toList ∧ '\r' ∉ r.payload.toList ∧
      ∃ again, parse r.payload.toList = .ok again ∧ again = r ∧ again.payload = r.payload ∧
        ∀ source position database ddl, r = ofChange source position database ddl →
          again.source = some source ∧ again.position = some position ∧
            again.database = database ∧ again.ddl = ddl := by
  have hreturn : '\r' ∉ r.payload.toList :=
    fun hmem => absurd (r.printed_payload _ hmem) (by decide)
  refine ⟨r.oneLine_payload, hreturn, r, parse_payload hkeys ⟨hshallow, hexact⟩, rfl, rfl, ?_⟩
  rintro source position database ddl rfl
  exact accessors_ofChange source position database ddl

/-- A change with an array, a double, a control and a character outside ASCII in it. -/
def sampleChange : Record :=
  ofChange [("scale", .array [.number (.double ⟨false, 6755399441055744, -52, by decide⟩), .null])]
    [] (some "shöp") (some "DROP TABLE a;\nDROP TABLE b")

theorem sampleChange_round_trip :
    ∃ again, parse sampleChange.payload.toList = .ok again ∧ again = sampleChange ∧
      again.database = some "shöp" ∧ again.ddl = some "DROP TABLE a;\nDROP TABLE b" := by
  have hkeys : sampleChange.WellKeyed :=
    wellKeyed_ofChange _ _ (by simp [Json.WellKeyed, WellKeyedMembers, WellKeyedItems])
      (by simp [Json.WellKeyed, WellKeyedMembers])
  have hshallow : (Json.object sampleChange.document).nesting ≤ 127 := by decide
  have hexact : ∀ d ∈ (Json.object sampleChange.document).doubles,
      rereadNumber (.double d) = some (.double d) := by decide +kernel
  obtain ⟨-, -, again, hparse, hagain, -, hparts⟩ := payload_round_trip hkeys hshallow hexact
  obtain ⟨-, -, hdatabase, hddl⟩ := hparts _ _ _ _ rfl
  exact ⟨again, hparse, hagain, hdatabase, hddl⟩

/-! ## Cut payloads -/

theorem parse_eq_none {cs : List Char} (h : ∀ ms, Json.read cs ≠ .ok (.object ms)) :
    (parse cs).toOption = none := by
  rw [parse_toOption]
  cases hr : Json.read cs with
  | error e => rfl
  | ok v =>
      cases v with
      | object ms => exact absurd hr (h ms)
      | _ => rfl

/--
**A record that was cut off is no record.** Whatever number of bytes is left of a payload,
as long as it is not all of them, they are not read as a record, neither as this one nor as
another.
-/
theorem ofLine_take {r : Record} {n : Nat} (hn : n < (utf8 r.payload).length) :
    ofLine ((utf8 r.payload).take n) = none := by
  rw [ofLine]
  apply parse_eq_none
  intro ms
  rw [utf8, payload_toList] at hn ⊢
  obtain ⟨k, ⟨hdecode, htake⟩ | ⟨hdecode, -⟩⟩ := decodeLossy_take_encode r.write n
  · rw [hdecode]
    refine read_prefix (v := .object r.document) (List.take_append_drop k r.write).symm ?_ ms
    intro hdrop
    -- nothing was cut off, but fewer bytes were left than there are
    have hall : r.write.take k = r.write := by
      have := List.take_append_drop k r.write
      rwa [hdrop, List.append_nil] at this
    rw [hall] at htake
    have := congrArg List.length htake
    rw [List.length_take] at this
    omega
  · rw [hdecode]
    exact read_replacement _ ms

theorem payload_ne_nil (r : Record) : utf8 r.payload ≠ [] := by
  rw [utf8, payload_toList]
  exact List.cons_ne_nil _ _

/-- The bytes of a payload are no line feeds. -/
theorem lineFeed_not_mem_payload (r : Record) : (10 : UInt8) ∉ utf8 r.payload :=
  lineFeed_not_mem_encode (oneLine_payload r)

end SchemaHistory.Record
