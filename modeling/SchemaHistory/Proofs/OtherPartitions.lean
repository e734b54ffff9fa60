import SchemaHistory.Proofs.Beginning

/-!
# What a recovery reads besides partition 0

Histories are stored on partition 0, and a recovery says that this is the partition that it reads.
But its consumer is told the topic, not the partition, and goes on to the others when it is through
with the first. So the records that somebody put there are handed over as well, behind those of
partition 0. Two logs with the same partition 0 are told apart by what their other partitions hold,
and by nothing else.
-/

namespace SchemaHistory

/-- A recovery hands over one list of records. -/
theorem History.HandsOver.unique {τ : Type} {h : History} {host : Host τ} {w : τ}
    {records records' : List Record} (hone : h.HandsOver host w records)
    (hother : h.HandsOver host w records') : records = records' := by
  obtain ⟨polls, hone⟩ := hone
  obtain ⟨polls', hother⟩ := hother
  obtain ⟨recovery, events, w', hrecover, rfl⟩ := hone (polls + polls') (Nat.le_add_right _ _)
  obtain ⟨recovery', events', w'', hrecover', rfl⟩ :=
    hother (polls + polls') (Nat.le_add_left _ _)
  rw [hrecover] at hrecover'
  cases hrecover'
  rfl

/-- Recoveries that begin with the same records hand over the same if they go on with the same. -/
theorem History.HandsOver.same_iff {τ : Type} {h : History} {host : Host τ} {w w' : τ}
    {first others others' : List Record} (hw : h.HandsOver host w (first ++ others))
    (hw' : h.HandsOver host w' (first ++ others')) :
    (∃ records, h.HandsOver host w records ∧ h.HandsOver host w' records) ↔ others = others' := by
  constructor
  · rintro ⟨records, hone, hother⟩
    exact List.append_cancel_left ((hw.unique hone).trans (hother.unique hw'))
  · rintro rfl
    exact ⟨_, hw, hw'⟩

variable {h : History} {o : ConsumerOptions}

theorem MemoryLog.handsOver_all (hoptions : ConsumerOptions.ofSettings h.settings.consumer = .ok o)
    (hstart : o.start = .earliest) (hattempts : 0 < h.settings.attempts) (w : World MemoryLog) :
    h.HandsOver MemoryRun.host w
      (w.log.firstRecords h.settings.topic ++ w.log.otherRecords h.settings.topic) := by
  rw [← MemoryLog.records_toRead h.settings.topic w.log hstart]
  exact MemoryLog.handsOver w hoptions hattempts

theorem FileLog.handsOver_all (hoptions : ConsumerOptions.ofSettings h.settings.consumer = .ok o)
    (hstart : o.start = .earliest) (hattempts : 0 < h.settings.attempts)
    (hlegal : FileLog.isTopicName h.settings.topic = true) {w : World FileLog}
    (htidy : FileLog.Tidy w.log.root w.log.files h.settings.topic) :
    h.HandsOver FileLog.host w
      (w.log.firstRecords h.settings.topic ++ w.log.otherRecords h.settings.topic) := by
  rw [← FileLog.records_toRead hlegal htidy hstart]
  exact FileLog.handsOver w hlegal htidy hoptions hattempts

/--
**What a recovery depends on.** With an attempt at least, and a consumer that begins at the start, a
recovery succeeds on both logs and hands over the records of partition 0 and, behind them, those of
all other partitions, in the order of their numbers. So from two logs with the same records on
partition 0 it hands over the same if, and only if, the other partitions have the same records. In
files the topic has a name that it may have, and is as producers leave it.
-/
theorem recovery_reads_partitions
    (hoptions : ConsumerOptions.ofSettings h.settings.consumer = .ok o)
    (hstart : o.start = .earliest) (hattempts : 0 < h.settings.attempts) :
    (∀ w : World MemoryLog, h.HandsOver MemoryRun.host w
      (w.log.firstRecords h.settings.topic ++ w.log.otherRecords h.settings.topic)) ∧
    (∀ w w' : World MemoryLog,
      w.log.firstRecords h.settings.topic = w'.log.firstRecords h.settings.topic →
      ((∃ records, h.HandsOver MemoryRun.host w records ∧ h.HandsOver MemoryRun.host w' records) ↔
        w.log.otherRecords h.settings.topic = w'.log.otherRecords h.settings.topic)) ∧
    (FileLog.isTopicName h.settings.topic = true →
      (∀ w : World FileLog, FileLog.Tidy w.log.root w.log.files h.settings.topic →
        h.HandsOver FileLog.host w
          (w.log.firstRecords h.settings.topic ++ w.log.otherRecords h.settings.topic)) ∧
      ∀ w w' : World FileLog, FileLog.Tidy w.log.root w.log.files h.settings.topic →
        FileLog.Tidy w'.log.root w'.log.files h.settings.topic →
        w.log.firstRecords h.settings.topic = w'.log.firstRecords h.settings.topic →
        ((∃ records, h.HandsOver FileLog.host w records ∧ h.HandsOver FileLog.host w' records) ↔
          w.log.otherRecords h.settings.topic = w'.log.otherRecords h.settings.topic)) := by
  have hmemory := MemoryLog.handsOver_all hoptions hstart hattempts
  refine ⟨hmemory, ?_, fun hlegal => ⟨?_, ?_⟩⟩
  · intro w w' hfirst
    have hw := hmemory w
    rw [hfirst] at hw
    exact hw.same_iff (hmemory w')
  · intro w htidy
    exact FileLog.handsOver_all hoptions hstart hattempts hlegal htidy
  · intro w w' htidy htidy' hfirst
    have hw := FileLog.handsOver_all hoptions hstart hattempts hlegal htidy
    rw [hfirst] at hw
    exact hw.same_iff (FileLog.handsOver_all hoptions hstart hattempts hlegal htidy')

/-- The settings of a history on the topic `t`, with which its consumer begins at the start. -/
def plainSettings : HistorySettings :=
  .assemble "t" "b:9092" "n" HistorySettings.defaultPollInterval HistorySettings.defaultAttempts
    (.ofPairs [(HistorySettings.topicKey, "t"), (HistorySettings.serversKey, "b:9092")])

/-- A log in memory whose topic has two partitions, both without entries. -/
def bareInMemory : MemoryLog := MemoryLog.empty.createTopic "t" 2

/-- Then somebody puts a record on the second one. -/
def asideInMemory : MemoryLog :=
  (bareInMemory.appendRaw "t" 1 (Record.ofStatements "A").payload).2

/-- Files with a record on partition 0 and another one on partition 1. -/
def asideInFiles : FileLog :=
  .ofTree ["log"] ⟨[(["log"], .directory), (["log", "t"], .directory),
    (["log", "t", "0.log"], .file 0), (["log", "t", "1.log"], .file 1)],
    (Registry.empty.add (FileLog.ended [Text.utf8 (Record.ofStatements "A").payload])).add
      (FileLog.ended [Text.utf8 (Record.ofStatements "B").payload])⟩

theorem tidy_asideInFiles : FileLog.Tidy ["log"] asideInFiles.files "t" := by
  refine ⟨by decide, fun directory hdir name hname p hp => ?_⟩
  have hfind : asideInFiles.files.find (["log"] ++ ["t"]) = .ok (["log", "t"], .directory) := rfl
  rw [hfind] at hdir
  cases hdir
  have hnames : asideInFiles.files.namesIn ["log", "t"] = ["0.log", "1.log"] := rfl
  have hfirst : FileLog.partitionOf? "0.log" = some 0 := by decide
  have hsecond : FileLog.partitionOf? "1.log" = some 1 := by decide
  rw [hnames, List.mem_cons, List.mem_singleton] at hname
  rcases hname with rfl | rfl
  · rw [hfirst] at hp
    cases hp
    exact ⟨by decide, by decide, _, rfl⟩
  · rw [hsecond] at hp
    cases hp
    exact ⟨by decide, by decide, _, rfl⟩

theorem partitions_asideInFiles : FileLog.partitions ["log"] "t" asideInFiles.files =
    .ok [(0, ["log", "t", "0.log"]), (1, ["log", "t", "1.log"])] := by
  have hnames : asideInFiles.files.list ["log", "t"] = .ok ["0.log", "1.log"] := rfl
  rw [FileLog.partitions, FileLog.topicPath_eq (by decide)]
  dsimp only
  rw [show ["log"] ++ ["t"] = ["log", "t"] from rfl, hnames]
  dsimp only
  rw [FileLog.partitionsIn, List.mergeSort_of_pairwise]
  · rfl
  · decide

theorem partitions_oneInFiles : FileLog.partitions ["log"] "t" oneInFiles.log.files =
    .ok [(0, ["log", "t", "0.log"])] := by
  have hnames : oneInFiles.log.files.list ["log", "t"] = .ok ["0.log"] := rfl
  rw [FileLog.partitions, FileLog.topicPath_eq (by decide)]
  dsimp only
  rw [show ["log"] ++ ["t"] = ["log", "t"] from rfl, hnames]
  dsimp only
  rw [FileLog.partitionsIn, List.mergeSort_of_pairwise]
  · rfl
  · decide

/-- Two logs in memory with the same partition 0 do not give the same, and neither do two logs in
files. -/
theorem recovery_reads_partitions_aside :
    (bareInMemory.firstRecords "t" = asideInMemory.firstRecords "t" ∧
      ¬ ∃ records,
        (History.make plainSettings 1).HandsOver MemoryRun.host (.ofLog bareInMemory) records ∧
        (History.make plainSettings 1).HandsOver MemoryRun.host (.ofLog asideInMemory) records) ∧
    (oneInFiles.log.firstRecords "t" = asideInFiles.firstRecords "t" ∧
      ¬ ∃ records, (History.make plainSettings 1).HandsOver FileLog.host oneInFiles records ∧
        (History.make plainSettings 1).HandsOver FileLog.host (.ofLog asideInFiles) records) := by
  have hoptions : ConsumerOptions.ofSettings (History.make plainSettings 1).settings.consumer =
      .ok ⟨500, .earliest⟩ := rfl
  obtain ⟨-, hmemory, hfiles⟩ := recovery_reads_partitions hoptions rfl (by decide)
  obtain ⟨-, hfiles⟩ := hfiles rfl
  have hfirst : bareInMemory.firstRecords "t" = asideInMemory.firstRecords "t" := rfl
  have hbytes : FileLog.partitionBytes ["log"] oneInFiles.log.files ("t", historyPartition) =
      FileLog.partitionBytes ["log"] asideInFiles.files ("t", historyPartition) := by
    decide +kernel
  have hfirst' : oneInFiles.log.firstRecords "t" = asideInFiles.firstRecords "t" :=
    congrArg (fun bs => (FileLog.linesIn bs).filterMap Record.ofLine) hbytes
  refine ⟨⟨hfirst, ?_⟩, hfirst', ?_⟩
  · intro hrecords
    have hothers := congrArg List.length ((hmemory (.ofLog bareInMemory) (.ofLog asideInMemory)
      hfirst).mp hrecords)
    exact absurd hothers (by decide +kernel)
  · intro hrecords
    have hothers : oneInFiles.log.otherRecords "t" = asideInFiles.otherRecords "t" :=
      (hfiles oneInFiles (.ofLog asideInFiles) tidy_oneInFiles tidy_asideInFiles hfirst').mp hrecords
    rw [FileLog.otherRecords, FileLog.otherRecords,
      show oneInFiles.log.root = ["log"] from rfl, show asideInFiles.root = ["log"] from rfl,
      partitions_oneInFiles, partitions_asideInFiles] at hothers
    exact absurd (congrArg List.length hothers) (by decide +kernel)

end SchemaHistory
