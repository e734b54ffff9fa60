import SchemaHistory.CommandLine.Run
import SchemaHistory.Proofs.Json.Taken

/-!
# Reading and writing a record in two ways

A payload is read as any value, which then has to be an object; a text can also be read
straight as an object. The ways part at the first character that is no blank. Behind an
opening brace both go on with the same members to the same depth, so they read the same and
fail at the same place. Before anything else the one that wants an object stops, and the
other finds a value that is none, or a fault. What is written for the log is what a listing
shows.
-/

namespace SchemaHistory

namespace Json

section Objects

variable {text rest : List Char}

theorem finish_mapScan {α β : Type} (f : α → β) (text : List Char)
    (x : Except Fault (α × List Char)) : finish text (mapScan f x) = (finish text x).map f := by
  cases x with
  | error e => rfl
  | ok p =>
      obtain ⟨v, behind⟩ := p
      rw [mapScan, finish, finish]
      cases skipSpace behind <;> rfl

/-- Behind an opening brace a value is read as an object is, one level further in. -/
theorem readValue_brace (h : skipSpace text = '{' :: rest) (item : Reader Json) :
    readValue (some item) text = mapScan (.object ∘ Assoc.ofPairs) (readMap item text) := by
  rw [readValue, readMap, h]
  rfl

/-- **A text that begins with a brace** is read as a value as it is read as an object, and fails at
the same place. -/
theorem read_brace (h : skipSpace text = '{' :: rest) :
    read text = (readObject text).map .object := by
  have hvalue : (value maxDepth).run text =
      mapScan (.object ∘ Assoc.ofPairs) (readMap (value (maxDepth - 1)) text) :=
    readValue_brace h _
  rw [read, hvalue, finish_mapScan, readObject, readPairs]
  cases finish text (readMap (value (maxDepth - 1)) text) <;> rfl

/-- No other text is read as an object. -/
theorem readObject_other (h : ∀ rest, skipSpace text ≠ '{' :: rest) :
    ∃ e, readObject text = .error e := by
  have hmap : ∃ f, readMap (value (maxDepth - 1)) text = .error f := by
    rw [readMap]
    split
    · exact ⟨_, rfl⟩
    · rename_i c rest hc
      by_cases hbrace : c = '{'
      · subst hbrace
        exact absurd hc (h rest)
      · rw [if_neg hbrace]
        exact ⟨_, rfl⟩
  obtain ⟨f, hf⟩ := hmap
  exact ⟨f.locate text, by rw [readObject, readPairs, hf]; rfl⟩

/-- A word is read as the value it stands for. -/
theorem readWord_value {word s r : List Char} {v w : Json} (h : readWord word v s = .ok (w, r)) :
    w = v := by
  rw [readWord] at h
  split at h
  · cases h
  · exact (ok_inj h).1.symm

/-- A value that does not begin with a brace is no object. -/
theorem readValue_other {inner : Option (Reader Json)} {r : List Char} {v : Json}
    (h : ∀ rest, skipSpace text ≠ '{' :: rest) (hv : readValue inner text = .ok (v, r)) :
    v.members? = none := by
  rw [readValue] at hv
  split at hv
  · cases hv
  rename_i c rest hc
  split at hv
  · rw [readWord_value hv]; rfl
  split at hv
  · rw [readWord_value hv]; rfl
  split at hv
  · rw [readWord_value hv]; rfl
  split at hv
  · obtain ⟨n, -, rfl⟩ := mapScan_eq_ok.mp hv
    rfl
  split at hv
  · obtain ⟨n, -, rfl⟩ := mapScan_eq_ok.mp hv
    rfl
  split at hv
  · obtain ⟨s, -, rfl⟩ := mapScan_eq_ok.mp hv
    rfl
  split at hv
  · split at hv
    · cases hv
    · obtain ⟨items, -, rfl⟩ := mapScan_eq_ok.mp hv
      rfl
  split at hv
  · rename_i hbrace
    subst hbrace
    exact absurd hc (h rest)
  · cases hv

/-- **A text that does not begin with a brace** is read as no object. -/
theorem read_other (h : ∀ rest, skipSpace text ≠ '{' :: rest) {v : Json} (hv : read text = .ok v) :
    v.members? = none := by
  rw [read] at hv
  cases hrun : (value maxDepth).run text with
  | error f =>
      rw [hrun] at hv
      cases hv
  | ok p =>
      rw [hrun, finish] at hv
      split at hv
      · cases hv
        have hvalue : readValue (some (value (maxDepth - 1))) text = .ok (p.1, p.2) := hrun
        exact readValue_other h hvalue
      · cases hv

end Objects

end Json

namespace Record

open Json

variable {text rest : List Char}

/-- Behind an opening brace both ways give the same record, or the same error. -/
theorem parse_brace (h : skipSpace text = '{' :: rest) :
    parse text = match ofJson text with
      | .error e => .error (.malformed e)
      | .ok r => .ok r := by
  rw [parse, read_brace h, ofJson]
  cases readObject text <;> rfl

/-- Before anything else both ways fail. -/
theorem parse_other (h : ∀ rest, skipSpace text ≠ '{' :: rest) :
    (∃ e, parse text = .error e) ∧ ∃ e, ofJson text = .error e := by
  constructor
  · rw [parse]
    cases hread : read text with
    | error e => exact ⟨_, rfl⟩
    | ok v =>
        have hnone := read_other h hread
        cases v with
        | object members => cases hnone
        | _ => exact ⟨_, rfl⟩
  · obtain ⟨e, he⟩ := readObject_other h
    exact ⟨e, by rw [ofJson, he]; rfl⟩

theorem parse_eq_ok_iff (text : List Char) (r : Record) :
    parse text = .ok r ↔ ofJson text = .ok r := by
  by_cases h : ∃ rest, skipSpace text = '{' :: rest
  · obtain ⟨rest, hrest⟩ := h
    rw [parse_brace hrest]
    cases ofJson text <;> simp
  · obtain ⟨⟨e, he⟩, e', he'⟩ := parse_other fun rest hrest => h ⟨rest, hrest⟩
    rw [he, he']
    simp

/-- The line of a listing is the payload. -/
theorem line_eq_payload (r : Record) : r.line = r.payload := by
  rw [line, payload, Record.write, Json.write]

/--
**The two ways agree.** A text is read straight as a record exactly when it is parsed as one, and
the record is the same, with its members in the same order; where the text begins with a brace
even the fault is the same, at the same place. For every record the line that is shown is the
payload that is stored, and a recovery is shown as the payloads of its records.
-/
theorem reading_and_writing_agree :
    (∀ text r, ofJson text = .ok r ↔ parse text = .ok r) ∧
    (∀ text rest, skipSpace text = '{' :: rest → ∀ e,
      ofJson text = .error e ↔ parse text = .error (.malformed e)) ∧
    (∀ r : Record, r.line = r.payload) ∧
    ∀ recovery : Recovery, Command.shown recovery =
      String.join (recovery.records.map fun r => r.payload ++ "\n") := by
  refine ⟨fun text r => (parse_eq_ok_iff text r).symm, fun text rest h e => ?_, line_eq_payload,
    fun recovery => ?_⟩
  · rw [parse_brace h]
    cases ofJson text <;> simp
  · rw [Command.shown]
    simp only [line_eq_payload]

/-- Members under one key twice, with blanks around, in a text that breaks off behind them. -/
def brokenOff : List Char := " \x7b\"a\":1,\"b\":2,\"a\":3 ".toList

/-- The theorem at this text: both ways fail for want of the closing brace. -/
theorem reading_and_writing_agree_brokenOff :
    ∃ e, ofJson brokenOff = .error e ∧ parse brokenOff = .error (.malformed e) := by
  have hbrace : skipSpace brokenOff = '{' :: brokenOff.drop 2 := by decide
  have hfails : ∃ e, ofJson brokenOff = .error e := by
    cases h : ofJson brokenOff with
    | error e => exact ⟨e, rfl⟩
    | ok r =>
        have hnone : (ofJson brokenOff).toOption.isNone = true := by decide +kernel
        rw [h] at hnone
        cases hnone
  obtain ⟨e, he⟩ := hfails
  exact ⟨e, he, (reading_and_writing_agree.2.1 brokenOff _ hbrace e).mp he⟩

end Record

end SchemaHistory
