import SchemaHistory.Proofs.File.Recovery
import SchemaHistory.Proofs.Memory.Recovery

/-!
# What becomes of an acknowledged record

An acknowledgment says that the payload of the record is on the log, in memory or on disk,
and nothing that happens later takes it away. So every later recovery reads that payload, and
what it makes of it depends on the record alone: the record itself if that is faithful, and
otherwise no record or one with other contents. The log that writes does not look at this.
-/

namespace SchemaHistory

/-- The history recovers the topic from its start, with `m` entries in a poll at most. -/
structure History.Recovers (h : History) (topic : String) (m : Nat) : Prop where
  topic : h.settings.topic = topic
  /-- Its consumer starts at the start. -/
  options : ConsumerOptions.ofSettings h.settings.consumer = .ok ⟨m, .earliest⟩
  attempts : 0 < h.settings.attempts

/-- With enough polls, a recovery reads one of its entries as `reading`. -/
def History.Reads {τ : Type} (host : Host τ) (h : History) (m : Nat) (s : τ)
    (reading : Option Record) : Prop :=
  ∃ polls earlier later, ∀ limit, polls ≤ limit → ∃ events s', h.recover host limit s =
    some (.ok (.ofReadings h.settings.attempts m (earlier ++ reading :: later)), events, s')

/-- Whenever a store of the record on a log in memory was acknowledged, every recovery after that
during which nothing is appended reads `reading` for it. -/
def ReadBackFromMemory (r : Record) (reading : Option Record) : Prop :=
  ∀ (topic : String) (signals : Registry Bool) (steps : List MemoryStep),
    (∀ s ∈ steps, s.On topic) → ∀ run, (MemoryRun.start signals).exec steps = run →
  ∀ (n : Nat) (c : StoreCall) (place : Placement), run.journal[n]? = some (.stored c) →
    c.record = r → c.result = .ok (.acknowledged place) →
  ∀ others : List (List MemoryStep), (∀ batch ∈ others, ∀ s ∈ batch, s.On topic) →
    (run.exec others.flatten).payloads topic = run.payloads topic →
  ∀ (h : History) (m : Nat), h.Recovers topic m → h.Reads Amid.host m ⟨run, others⟩ reading

/-- Whenever a store of the record on a log in files was acknowledged, every recovery after that
reads `reading` for it, whatever processes died before and since. -/
def ReadBackFromFiles (r : Record) (reading : Option Record) : Prop :=
  ∀ (root : Path) (topic : String) (before made : FileTree) (rp : Path),
    Site root topic before made rp → ∀ (signals : Registry Bool) (steps : List FileStep),
    (∀ s ∈ steps, s.On topic) → ∀ run, (FileRun.start root before signals).exec steps = run →
  ∀ (n : Nat) (place : Placement),
    run.journal[n]? = some (.stored r (.ok (.acknowledged place))) →
  ∀ (h : History) (m : Nat), h.Recovers topic m →
    h.Reads FileLog.host m run.party.world reading

/-- The payload of an acknowledged record stays in its partition. -/
theorem readBackFromMemory (r : Record) : ReadBackFromMemory r r.returned := by
  intro topic signals steps hsteps run hrun n c place hn hc hresult others hothers hquiet h m hh
  obtain ⟨es, hgood, -, -, -⟩ := (MemoryRun.good_start topic signals).exec hsteps
  rw [hrun, List.nil_append] at hgood
  have hstored := List.mem_of_getElem? hn
  -- an acknowledged call has put its payload on the partition
  have hreached := (hgood.sound c hstored).reached hresult
  have hpayload : r.payload ∈ run.payloads topic := by
    rw [hgood.payloads, hgood.written, ← hc]
    exact List.mem_filterMap.mpr ⟨_, hstored, by rw [Write.text?, if_pos hreached]⟩
  obtain ⟨earlier, later, hsplit⟩ := List.append_of_mem hpayload
  refine ⟨Replay.batches (run.payloads topic).length m + h.settings.attempts,
    earlier.map textRecord, later.map textRecord, fun limit hlimit => ?_⟩
  obtain ⟨events, s', hrecover⟩ :=
    hgood.recovers hothers hquiet hh.topic hh.options hh.attempts hlimit
  refine ⟨events, s', ?_⟩
  rw [hrecover, hsplit, List.map_append, List.map_cons]
  rfl

/-- The payload of an acknowledged record stays on a line of its own. -/
theorem readBackFromFiles (r : Record) : ReadBackFromFiles r r.returned := by
  intro root topic before made rp hsite signals steps hsteps run hrun n place hn h m hh
  have hgood : run.Good root topic before rp := by
    rw [← hrun]
    exact (FileRun.good_start root topic before rp signals).exec hsite hsteps
  have hack : r ∈ run.journal.filterMap FileWrite.acknowledged? :=
    List.mem_filterMap.mpr ⟨_, List.mem_of_getElem? hn, rfl⟩
  -- an acknowledged record is whole in the ledger, on a line of its own
  obtain ⟨p, hp, rfl⟩ := List.mem_map.mp ((Ledger.acknowledged_sublist _).subset hack)
  obtain ⟨hline, hwhole⟩ := List.mem_filter.mp hp
  have hline : p ∈ run.ledger.lines := hline
  obtain ⟨earlier, later, hsplit⟩ := List.append_of_mem hline
  refine ⟨Replay.batches run.ledger.lines.length m + h.settings.attempts,
    earlier.map Piece.reading, later.map Piece.reading, fun limit hlimit => ?_⟩
  obtain ⟨events, w', hrecover⟩ :=
    hgood.recovers hsite hh.topic hh.options hh.attempts hlimit
  refine ⟨events, w', ?_⟩
  rw [hrecover, hsplit, List.map_append, List.map_cons, Piece.reading, if_pos hwhole]

/--
**An acknowledged record comes back exactly when it is faithful.** Once a store of it was
acknowledged, every recovery of the topic reads its payload, on a log in memory and on one in
files. What is read is the record if that is faithful. If it is not, then what is read is no
record, which counts as skipped, or one with other contents.
-/
theorem acknowledged_record_read_back {source position : Members} (database ddl : Option String)
    (hsource : (Json.object source).WellKeyed) (hposition : (Json.object position).WellKeyed)
    {r : Record} (hr : r = .ofChange source position database ddl) :
    ReadBackFromMemory r r.returned ∧ ReadBackFromFiles r r.returned ∧
      (r.Faithful → r.returned = some r) ∧
      ((∃ r', r.returned = some r' ∧ r'.same r = true) ↔ r.Faithful) := by
  have hkeys : r.WellKeyed := by
    rw [hr]
    exact Record.wellKeyed_ofChange database ddl hsource hposition
  exact ⟨readBackFromMemory r, readBackFromFiles r, Record.returned_of_faithful hkeys,
    Record.returned_iff_faithful hkeys⟩

/-- The theorem for a record with a source, at a run in memory and at one with deaths on files. -/
theorem statements_read_back :
    (History.make (.ofTopic "t" "b" "n") 1).Reads Amid.host 500
      ⟨(MemoryRun.start .empty).exec mixedSteps, []⟩ (some (.ofStatements "A")) ∧
    (History.make (.ofTopic "t" "b" "n") 1).Reads FileLog.host 500
      ((FileRun.start ["log"] .empty .empty).exec FileRun.brokenSteps).party.world
      (some (.ofStatements "A")) := by
  have hnone : (Json.object []).WellKeyed := by
    simp [Json.WellKeyed, Json.wellKeyedMembers_iff]
  obtain ⟨hmemory, hfiles, hfaithful, -⟩ :=
    acknowledged_record_read_back none (some "A") hnone hnone (r := .ofStatements "A") rfl
  rw [hfaithful ⟨by decide, by intro d hd; cases hd⟩] at hmemory hfiles
  have hrecovers : (History.make (.ofTopic "t" "b" "n") 1).Recovers "t" 500 :=
    ⟨rfl, rfl, by decide⟩
  have hsite : Site ["log"] "t" .empty ⟨[(["log"], .directory)], .empty⟩ ["log"] := by
    refine ⟨by decide, rfl, rfl, ?_⟩
    simp [FileTree.Vacant]
  have hmemorySteps : ∀ s ∈ mixedSteps, s.On "t" := by
    simp [mixedSteps, MemoryStep.On]
    rfl
  have hfileSteps : ∀ s ∈ FileRun.brokenSteps, s.On "t" := by
    simp only [FileRun.brokenSteps, List.forall_mem_cons, FileStep.On,
      Record.wellKeyed_ofStatements]
    simp
    rfl
  exact ⟨hmemory "t" .empty mixedSteps hmemorySteps _ rfl 1 _ _ rfl rfl rfl [] (by simp) rfl _ _
      hrecovers,
    hfiles ["log"] "t" .empty _ ["log"] hsite .empty FileRun.brokenSteps hfileSteps _ rfl 0
      ⟨"t", 0, 0⟩ rfl _ _ hrecovers⟩

end SchemaHistory
