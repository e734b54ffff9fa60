import SchemaHistory.Proofs.File.Serving

/-!
# Writes that were interrupted

A write that was interrupted leaves some first bytes of a line, cut anywhere, also inside a
character. Whoever writes next ends them with a line feed, so they become a line of their own.
What carries everything here is that no such part of a record's line is read as a record. So a
reader takes the part for an entry that is none, and each line before and behind it for what
it is.
-/

namespace SchemaHistory

open Text

/-- Some first bytes of a record's line, but not all of them. -/
structure Record.Cut (r : Record) (part : Bytes) : Prop where
  start : part <+: utf8 r.payload
  short : part ≠ utf8 r.payload

namespace Record.Cut

variable {r : Record} {part : Bytes}

theorem ofLine_eq (h : r.Cut part) : ofLine part = none := by
  have hlength : part.length < (utf8 r.payload).length := by
    rcases Nat.lt_or_eq_of_le h.start.length_le with hlt | heq
    · exact hlt
    · exact absurd (h.start.eq_of_length heq) h.short
  have htake : part = (utf8 r.payload).take part.length := List.prefix_iff_eq_take.mp h.start
  rw [htake]
  exact ofLine_take hlength

/-- A part of a record's line is refused. -/
theorem refused (h : r.Cut part) : ∃ e, parse (decodeLossy part) = .error e := by
  have hnone := h.ofLine_eq
  rw [ofLine] at hnone
  cases hparse : parse (decodeLossy part) with
  | error e => exact ⟨e, rfl⟩
  | ok found =>
      rw [hparse] at hnone
      cases hnone

theorem oneLine (h : r.Cut part) : FileLog.lineFeed ∉ part :=
  fun hmem => r.lineFeed_not_mem_payload (h.start.subset hmem)

end Record.Cut

namespace FileLog

variable {earlier later : List Bytes} {part : Bytes}

/-- A file of whole lines in which a write was interrupted and others have written since. -/
def mended (earlier : List Bytes) (part : Bytes) (later : List Bytes) : Bytes :=
  (ended earlier ++ part) ++ (repair (ended earlier ++ part) ++ ended later)

/-- The lines of that file: what was interrupted is one of them, unless nothing is left of it. -/
theorem lined_mended (hlines : ∀ line ∈ earlier ++ later, lineFeed ∉ line)
    (hpart : lineFeed ∉ part) :
    Lined (mended earlier part later)
      (earlier ++ (if part = [] then [] else [part]) ++ later) [] := by
  have hearlier : ∀ line ∈ earlier, lineFeed ∉ line :=
    fun line hline => hlines line (List.mem_append_left _ hline)
  have hbefore : Lined (ended earlier ++ part) earlier part := ⟨rfl, hearlier, hpart⟩
  rw [mended, repair, hbefore.isTorn_eq]
  by_cases hnil : part = []
  · subst hnil
    refine ⟨?_, ?_, List.not_mem_nil⟩
    · simp [ended_append]
    · rwa [if_pos rfl, List.append_nil]
  · have htorn : (!part.isEmpty) = true := by simp [hnil]
    rw [htorn, if_pos rfl, if_neg hnil]
    refine ⟨?_, ?_, List.not_mem_nil⟩
    · rw [ended_append, ended_append, ended_singleton]
      simp only [List.append_assoc, List.append_nil]
    · intro line hline
      rcases List.mem_append.mp hline with hline | hline
      · rcases List.mem_append.mp hline with hline | hline
        · exact hearlier line hline
        · rw [List.mem_singleton.mp hline]
          exact hpart
      · exact hlines line (List.mem_append_right _ hline)

/-- What is read from the lines of a file in which a write of a record was interrupted. -/
theorem readings_mended {r : Record} (h : r.Cut part) :
    (earlier ++ (if part = [] then [] else [part]) ++ later).map Record.ofLine =
      earlier.map Record.ofLine ++ (if part = [] then [] else [none]) ++
        later.map Record.ofLine := by
  rw [List.map_append, List.map_append]
  split
  · rfl
  · rw [List.map_singleton, h.ofLine_eq]

/--
**A record that was cut off is never recovered**, neither as it was nor with something missing.
Any first bytes of its line, short of all, are refused. A replay that comes to them counts them
as skipped and takes in every other line as if they were not there. So a recovery from a file in
which the write of the record was interrupted gives the records on the lines before and behind,
whatever others have written since, and at most one entry more that is skipped.
-/
theorem cut_record_skipped {r : Record} (h : r.Cut part) :
    (∃ e, Record.parse (decodeLossy part) = .error e) ∧
    (∀ (before : Replay) (topic : String) (partition : Int) (offset : Nat)
        (earlier later : List Bytes),
      let entries := entriesOf topic partition offset (earlier ++ part :: later)
      let records := (earlier ++ later).filterMap Record.ofLine
      (before.observe (.ok entries)).records = before.records ++ records ∧
        (before.observe (.ok entries)).summary =
          before.summary.plus 1 ((earlier ++ later).length + 1) records.length) ∧
    ∀ (history : History) (w : World FileLog) (earlier later : List Bytes) (m limit : Nat),
      isTopicName history.settings.topic = true →
      ConsumerOptions.ofSettings history.settings.consumer = .ok ⟨m, .earliest⟩ →
      0 < history.settings.attempts →
      (∀ line ∈ earlier ++ later, lineFeed ∉ line) →
      Seen w.log.files w.log.root history.settings.topic (mended earlier part later) →
      Replay.batches ((earlier ++ later).length + 1) m + history.settings.attempts ≤ limit →
      ∃ recovery events w', history.recover host limit w = some (.ok recovery, events, w') ∧
        recovery.records = (earlier ++ later).filterMap Record.ofLine ∧
        recovery.summary.skipped = ((earlier ++ later).map Record.ofLine).countP Option.isNone +
          if part = [] then 0 else 1 := by
  refine ⟨h.refused, ?_, ?_⟩
  · intro before topic partition offset earlier later entries records
    obtain ⟨⟨hrecords, hsummary⟩, -⟩ := Replay.observe_took before (.ok entries)
    have hread : recordsOf entries = records := by
      rw [recordsOf_eq, records_entriesOf, List.map_append, List.map_cons, h.ofLine_eq,
        List.filterMap_append, List.filterMap_cons_none rfl, ← List.filterMap_append,
        ← List.map_append, List.filterMap_map]
      rfl
    have hlength : entries.length = (earlier ++ later).length + 1 := by
      rw [length_entriesOf, List.length_append, List.length_append, List.length_cons, Nat.add_assoc]
    rw [Replay.entriesOf, hread] at hrecords hsummary
    rw [hlength] at hsummary
    exact ⟨hrecords, hsummary⟩
  · intro history w earlier later m limit hlegal hoptions hattempts hlines hseen hlimit
    have hlined := lined_mended hlines h.oneLine
    have hfewer : (earlier ++ (if part = [] then [] else [part]) ++ later).length ≤
        (earlier ++ later).length + 1 := by
      have hpart : (if part = [] then [] else [part]).length ≤ 1 := by
        split <;> simp
      rw [List.length_append, List.length_append, List.length_append]
      omega
    have hlimit' := Nat.le_trans (Nat.add_le_add_right (Replay.batches_mono hfewer) _) hlimit
    obtain ⟨events, w', hrecover⟩ := recovers_seen rfl hlegal hseen hlined rfl hoptions hattempts
      hlimit'
    refine ⟨_, events, w', hrecover, ?_, ?_⟩
    · rw [Recovery.ofReadings, readings_mended h]
      dsimp only
      split <;> simp [List.filterMap_append, List.filterMap_map]
    · rw [Recovery.ofReadings, readings_mended h]
      have hpart : (if part = [] then [] else [(none : Option Record)]).countP Option.isNone =
          if part = [] then 0 else 1 := by
        split <;> rfl
      dsimp only
      rw [List.countP_append, List.countP_append, hpart, List.map_append, List.countP_append]
      omega

/-- The statement that is left has lost half of its last character, and the quote behind it. -/
theorem cut_record_skipped_inCharacter :
    let part := (utf8 (Record.ofStatements "ü").payload).take 35
    (decodeLossy part).getLast? = some replacement ∧
      (∃ e, Record.parse (decodeLossy part) = .error e) ∧
      ((Replay.begin 1).observe (.ok (entriesOf "t" 0 0 [part]))).records = [] := by
  have hcut : (Record.ofStatements "ü").Cut ((utf8 (Record.ofStatements "ü").payload).take 35) :=
    ⟨List.take_prefix _ _, by decide +kernel⟩
  obtain ⟨hrefused, hreplay, -⟩ := cut_record_skipped hcut
  exact ⟨by decide +kernel, hrefused, (hreplay (.begin 1) "t" 0 0 [] []).1⟩

end FileLog

end SchemaHistory
