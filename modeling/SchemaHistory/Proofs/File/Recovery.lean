import SchemaHistory.Proofs.File.Run
import SchemaHistory.Proofs.File.Serving

/-!
# Recovery from a log in files

What a recovery hands over after any number of sessions and deaths is in the ledger: the
records of which the whole payload has become a line, in the order of the calls, each as its
payload is read back. A payload of which a crash left a part only is skipped, whether the
part stands on a line by itself or not at all. So a recovery gives what was acknowledged, and
what a crash left whole, exactly when all of these are read back as what they are.
-/

namespace SchemaHistory

/-! ## What is read from pieces -/

theorem whole_readings (ps : List Piece) : (ps.map Piece.reading).filterMap id =
    ((ps.filter Piece.isWhole).map Piece.record).filterMap Record.returned := by
  induction ps with
  | nil => rfl
  | cons p ps ih =>
      rw [List.map_cons, Piece.reading]
      by_cases hp : p.isWhole = true
      · rw [if_pos hp, List.filter_cons_of_pos hp, List.map_cons, List.filterMap_cons,
          List.filterMap_cons, ih]
        rfl
      · rw [if_neg hp, List.filter_cons_of_neg hp, List.filterMap_cons, ih]
        rfl

theorem skipped_readings (ps : List Piece) : (ps.map Piece.reading).countP Option.isNone =
    ps.countP (fun p => !p.isWhole) +
      ((ps.filter Piece.isWhole).map Piece.record).countP (fun r => r.returned.isNone) := by
  induction ps with
  | nil => rfl
  | cons p ps ih =>
      rw [List.map_cons, List.countP_cons, List.countP_cons, ih, Piece.reading]
      by_cases hp : p.isWhole = true
      · rw [if_pos hp, List.filter_cons_of_pos hp, List.map_cons, List.countP_cons, hp]
        simp only [Bool.not_true, Bool.false_eq_true, if_false]
        omega
      · rw [if_neg hp, List.filter_cons_of_neg hp]
        simp only [hp, Option.isNone_none, if_true, Bool.not_false]
        omega

namespace Record

/-- The second records have the contents of the first, one after another and none left out. -/
def sameAll : List Record → List Record → Bool
  | [], [] => true
  | r :: rs, r' :: rs' => r'.same r && sameAll rs rs'
  | _, _ => false

theorem length_of_sameAll {rs rs' : List Record} (h : sameAll rs rs' = true) :
    rs.length = rs'.length := by
  induction rs generalizing rs' with
  | nil =>
      cases rs' with
      | nil => rfl
      | cons r' rs' => cases h
  | cons r rs ih =>
      cases rs' with
      | nil => cases h
      | cons r' rs' =>
          rw [sameAll, Bool.and_eq_true] at h
          rw [List.length_cons, List.length_cons, ih h.2]

/-- **Records come back with their contents exactly when they are faithful.** -/
theorem sameAll_returned {rs : List Record} (hkeys : ∀ r ∈ rs, r.WellKeyed) :
    sameAll rs (rs.filterMap returned) = true ↔ ∀ r ∈ rs, r.Faithful := by
  induction rs with
  | nil => simp [sameAll]
  | cons r rs ih =>
      have ih := ih fun s hs => hkeys s (by simp [hs])
      have hr := hkeys r (by simp)
      rw [List.forall_mem_cons, ← ih]
      cases hback : r.returned with
      | none =>
          -- a record that does not come back leaves too few
          rw [List.filterMap_cons, hback]
          constructor
          · intro h
            have hlength := length_of_sameAll h
            have := List.length_filterMap_le returned rs
            rw [List.length_cons] at hlength
            dsimp only at hlength
            omega
          · rintro ⟨hf, -⟩
            rw [returned_of_faithful hr hf] at hback
            cases hback
      | some r' =>
          rw [List.filterMap_cons, hback, ← returned_iff_faithful hr, hback]
          dsimp only
          rw [sameAll, Bool.and_eq_true]
          simp

theorem filterMap_returned {rs : List Record} (hkeys : ∀ r ∈ rs, r.WellKeyed)
    (hf : ∀ r ∈ rs, r.Faithful) :
    rs.filterMap returned = rs ∧ rs.countP (fun r => r.returned.isNone) = 0 := by
  induction rs with
  | nil => exact ⟨rfl, rfl⟩
  | cons r rs ih =>
      obtain ⟨hback, hnone⟩ :=
        ih (fun s hs => hkeys s (by simp [hs])) fun s hs => hf s (by simp [hs])
      have hr := returned_of_faithful (hkeys r (by simp)) (hf r (by simp))
      rw [List.filterMap_cons, List.countP_cons, hr, hback, hnone]
      exact ⟨rfl, rfl⟩

end Record

namespace FileRun

variable {root rp : Path} {topic : String} {before made : FileTree} {run : FileRun}

/-- A recovery after a run reads the lines of the ledger. -/
theorem Good.recovers (hgood : run.Good root topic before rp)
    (hsite : Site root topic before made rp) {h : History} (htopic : h.settings.topic = topic)
    {m limit : Nat} (hoptions : ConsumerOptions.ofSettings h.settings.consumer = .ok ⟨m, .earliest⟩)
    (hattempts : 0 < h.settings.attempts)
    (hlimit : Replay.batches run.ledger.lines.length m + h.settings.attempts ≤ limit) :
    ∃ events w', h.recover FileLog.host limit run.party.world =
      some (.ok (.ofReadings h.settings.attempts m (run.ledger.lines.map Piece.reading)), events,
        w') := by
  have hread : (run.ledger.lines.map Piece.line).map Record.ofLine =
      run.ledger.lines.map Piece.reading := by
    rw [List.map_map]
    exact List.map_congr_left fun p _ => p.ofLine_line
  rw [← hread]
  refine FileLog.recovers_seen hgood.atRoot hsite.legal (hgood.seen hsite) run.ledger.lined htopic
    hoptions hattempts ?_
  rwa [List.length_map]

/-- What is whole was to be stored. -/
theorem Good.whole_keyed (hgood : run.Good root topic before rp) :
    ∀ r ∈ run.ledger.whole, r.WellKeyed := by
  intro r hr
  -- every record that is whole comes from a write of the journal
  have hmem := ((Ledger.whole_sublist_records _).trans (Ledger.records_sublist _)).subset hr
  obtain ⟨w, hw, rfl⟩ := List.mem_map.mp hmem
  exact hgood.keyed w hw

/--
**Crash consistency.** After any run of histories on a topic, whose processes may have died
anywhere between two calls or in the middle of a store, a recovery reads the ledger. It hands
over what is read from the records that are there whole, in the order of the calls, and
nothing for those that were cut off. All that was acknowledged is there whole, nothing is there
that was not to be stored, and the order is that of the calls. The records come back as they
were, and what is skipped is what was cut off, exactly when every record that is there whole is
faithful.
-/
theorem recovery_of_file_run (root : Path) (topic : String) (before made : FileTree) (rp : Path)
    (hsite : Site root topic before made rp) (signals : Registry Bool) (steps : List FileStep)
    (hsteps : ∀ s ∈ steps, s.On topic) (h : History) (htopic : h.settings.topic = topic) (m : Nat)
    (hoptions : ConsumerOptions.ofSettings h.settings.consumer = .ok ⟨m, .earliest⟩)
    (hattempts : 0 < h.settings.attempts) (run : FileRun)
    (hrun : (FileRun.start root before signals).exec steps = run) (limit : Nat)
    (hlimit : (run.ledger.lines.length + m - 1) / m + h.settings.attempts ≤ limit) :
    (run.journal.filterMap FileWrite.acknowledged?).Sublist run.ledger.whole ∧
    run.ledger.whole.Sublist (run.journal.map FileWrite.record) ∧
    ∃ recovery events w',
      h.recover FileLog.host limit run.party.world = some (.ok recovery, events, w') ∧
      recovery.records = run.ledger.whole.filterMap Record.returned ∧
      recovery.summary.skipped = run.ledger.lines.countP (fun p => !p.isWhole) +
        run.ledger.whole.countP (fun r => r.returned.isNone) ∧
      ((∀ r ∈ run.ledger.whole, r.Faithful) → recovery.records = run.ledger.whole) ∧
      ((Record.sameAll run.ledger.whole recovery.records = true ∧
          recovery.summary.skipped = run.ledger.lines.countP fun p => !p.isWhole) ↔
        ∀ r ∈ run.ledger.whole, r.Faithful) := by
  have hgood : run.Good root topic before rp := by
    rw [← hrun]
    exact (good_start root topic before rp signals).exec hsite hsteps
  obtain ⟨events, w', hrecover⟩ := hgood.recovers hsite htopic hoptions hattempts hlimit
  have hwhole : ((run.ledger.lines.map Piece.reading).filterMap id) =
      run.ledger.whole.filterMap Record.returned := whole_readings _
  have hskipped : (run.ledger.lines.map Piece.reading).countP Option.isNone =
      run.ledger.lines.countP (fun p => !p.isWhole) +
        run.ledger.whole.countP (fun r => r.returned.isNone) := skipped_readings _
  refine ⟨Ledger.acknowledged_sublist _,
    (Ledger.whole_sublist_records _).trans (Ledger.records_sublist _), _, events, w', hrecover,
    hwhole, hskipped, fun hf => ?_, ?_⟩
  · exact hwhole.trans (Record.filterMap_returned hgood.whole_keyed hf).1
  · constructor
    · rintro ⟨hsame, -⟩
      rw [Recovery.ofReadings, hwhole] at hsame
      exact (Record.sameAll_returned hgood.whole_keyed).mp hsame
    · intro hf
      refine ⟨?_, ?_⟩
      · rw [Recovery.ofReadings, hwhole]
        exact (Record.sameAll_returned hgood.whole_keyed).mpr hf
      · refine hskipped.trans ?_
        rw [(Record.filterMap_returned hgood.whole_keyed hf).2, Nat.add_zero]

/-- One process dies with the first bytes of a payload on disk, the next one with all of a payload but
its line feed. The third process ends both lines with what it stores. -/
def brokenSteps : List FileStep :=
  [.act (.make (.ofTopic "t" "b" "n") 0), .act (.start 0), .store 0 (.ofStatements "A"),
   .crash 0 (.ofStatements "B") (.kept 9),
   .act (.make (.ofTopic "t" "b" "n") 0), .act (.start 0), .store 0 (.ofStatements "C"),
   .crash 0 (.ofStatements "D") (.kept (Text.utf8 (Record.ofStatements "D").payload).length),
   .act (.make (.ofTopic "t" "b" "n") 0), .act (.start 0), .store 0 (.ofStatements "E"),
   .act (.stop 0), .die]

/-- The theorem at this run. -/
theorem recovery_of_brokenSteps :
    ∃ recovery events w', (History.make (.ofTopic "t" "b" "n") 1).recover FileLog.host 10
        ((FileRun.start ["log"] .empty .empty).exec brokenSteps).party.world =
          some (.ok recovery, events, w') ∧
      recovery.records.map Record.payload =
        ["A", "C", "D", "E"].map (fun ddl => (Record.ofStatements ddl).payload) ∧
      recovery.summary.skipped = 1 := by
  have hsite : Site ["log"] "t" .empty ⟨[(["log"], .directory)], .empty⟩ ["log"] := by
    refine ⟨by decide, rfl, rfl, ?_⟩
    simp [FileTree.Vacant]
  have hsteps : ∀ s ∈ brokenSteps, s.On "t" := by
    simp only [brokenSteps, List.forall_mem_cons, FileStep.On, Record.wellKeyed_ofStatements]
    simp
    rfl
  generalize hrun : (FileRun.start ["log"] .empty .empty).exec brokenSteps = run
  obtain ⟨hlimit, hcut, hwhole⟩ : (run.ledger.lines.length + 500 - 1) / 500 +
        (History.make (.ofTopic "t" "b" "n") 1).settings.attempts ≤ 10 ∧
      run.ledger.lines.countP (fun p => !p.isWhole) +
        run.ledger.whole.countP (fun r => r.returned.isNone) = 1 ∧
      (run.ledger.whole.filterMap Record.returned).map Record.payload =
        ["A", "C", "D", "E"].map fun ddl => (Record.ofStatements ddl).payload := by
    rw [← hrun]
    decide +kernel
  obtain ⟨-, -, recovery, events, w', hrecover, hrecords, hskipped, -, -⟩ :=
    recovery_of_file_run ["log"] "t" .empty _ ["log"] hsite .empty brokenSteps hsteps
      (History.make (.ofTopic "t" "b" "n") 1) rfl 500 rfl (by decide) run hrun 10 hlimit
  exact ⟨recovery, events, w', hrecover, by rw [hrecords, hwhole], hskipped.trans hcut⟩

end FileRun

end SchemaHistory
