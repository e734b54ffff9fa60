import SchemaHistory.Proofs.File.Partitions
import SchemaHistory.Proofs.Memory.Serving
import SchemaHistory.Proofs.Settings.PassThrough

/-!
# Where a recovery begins

A recovery does not say where it begins: its consumer does, and the consumer goes by a setting
that the properties of the history may give. Without the property it is the start, which is the
default; so is it if the property says so, and no other property matters. But if the property
says `latest`, the consumer begins behind what is there, and the recovery hands over nothing of
it. On both logs what the consumer begins with is one list that starts with partition 0.
-/

namespace SchemaHistory

/-- The records on the partition of histories, from its first entry on. -/
def MemoryLog.firstRecords (topic : String) (s : MemoryLog) : List Record :=
  ((s.topics.entries? topic historyPartition).getD []).filterMap
    fun e => (Record.parse e.payload.toList).toOption

/-- The records on the partition of histories, from its first line on. -/
def FileLog.firstRecords (topic : String) (s : FileLog) : List Record :=
  (FileLog.linesIn (FileLog.partitionBytes s.root s.files (topic, historyPartition))).filterMap
    Record.ofLine

/-- The records on the other partitions, in the order of their numbers. -/
def MemoryLog.otherRecords (topic : String) (s : MemoryLog) : List Record :=
  recordsOf (MemoryConsumer.allFrom topic 1 ((Assoc.get? s.topics topic).getD []).tail)

/-- The records on the other partitions, in the order of their numbers. -/
def FileLog.otherRecords (topic : String) (s : FileLog) : List Record :=
  match partitions s.root topic s.files with
  | .ok ps => recordsOf (allOf s.files topic (otherPartitions ps))
  | .error _ => []

/-- Given polls enough, the recovery succeeds and hands over these records. -/
def History.HandsOver {τ : Type} (h : History) (host : Host τ) (w : τ) (records : List Record) : Prop :=
  ∃ polls, ∀ limit, polls ≤ limit → ∃ recovery events w',
    h.recover host limit w = some (.ok recovery, events, w') ∧ recovery.records = records

/-- The recovery hands the records over before all others, unless it was told to begin behind them:
then it hands over nothing. -/
def Recovery.BeginsWith (told : Option String) (first : List Record) (recovery : Recovery) : Prop :=
  if told = some "latest" then recovery.records = [] else first <+: recovery.records

/-- A recovery that read some entries begins with the records that these begin with. -/
theorem Recovery.beginsWith_of {told : Option String} {first : List Record} {start : StartAt}
    (htold : start = .latest ↔ told = some "latest") {recovery : Recovery} {es : List Entry}
    (hrecords : recovery.records = recordsOf es)
    (hearliest : start = .earliest → first <+: recordsOf es) (hlatest : start = .latest → es = []) :
    recovery.BeginsWith told first := by
  rw [BeginsWith, hrecords]
  cases start with
  | earliest =>
      rw [if_neg fun h => by cases htold.mpr h]
      exact hearliest rfl
  | latest =>
      rw [if_pos (htold.mp rfl), hlatest rfl]
      rfl

/-- A recovery hands over the records among what its consumer has before it. -/
theorem MemoryLog.handsOver (w : World MemoryLog) {h : History} {o : ConsumerOptions}
    (hoptions : ConsumerOptions.ofSettings h.settings.consumer = .ok o)
    (hattempts : 0 < h.settings.attempts) :
    h.HandsOver MemoryRun.host w (recordsOf (MemoryConsumer.toRead o h.settings.topic
      ((Assoc.get? w.log.topics h.settings.topic).getD []))) := by
  refine ⟨Replay.batches (MemoryConsumer.toRead o h.settings.topic
    ((Assoc.get? w.log.topics h.settings.topic).getD [])).length o.limit + h.settings.attempts,
    fun limit hlimit => ?_⟩
  obtain ⟨events, w', hrecover⟩ := MemoryLog.recovers w hoptions hattempts hlimit
  exact ⟨_, events, w', hrecover, (recordsOf_eq _).symm⟩

theorem FileLog.handsOver (w : World FileLog) {h : History} {o : ConsumerOptions}
    (hlegal : isTopicName h.settings.topic = true)
    (htidy : Tidy w.log.root w.log.files h.settings.topic)
    (hoptions : ConsumerOptions.ofSettings h.settings.consumer = .ok o)
    (hattempts : 0 < h.settings.attempts) :
    h.HandsOver FileLog.host w
      (recordsOf (toRead o w.log.root w.log.files h.settings.topic)) := by
  refine ⟨Replay.batches (toRead o w.log.root w.log.files h.settings.topic).length o.limit +
    h.settings.attempts, fun limit hlimit => ?_⟩
  obtain ⟨events, w', hrecover⟩ :=
    FileLog.recovers w hlegal (htidy.legible hlegal) hoptions hattempts hlimit
  exact ⟨_, events, w', hrecover, (recordsOf_eq _).symm⟩

/-- What is in memory before a consumer that begins at the start: first what is on partition 0. -/
theorem MemoryLog.records_toRead (topic : String) (s : MemoryLog) {o : ConsumerOptions}
    (hstart : o.start = .earliest) :
    recordsOf (MemoryConsumer.toRead o topic ((Assoc.get? s.topics topic).getD [])) =
      s.firstRecords topic ++ s.otherRecords topic := by
  rw [firstRecords, otherRecords, Topics.entries?, MemoryConsumer.toRead, hstart]
  cases Assoc.get? s.topics topic with
  | none => rfl
  | some ps =>
      cases ps with
      | nil => rfl
      | cons es rest =>
          rw [Option.getD_some, MemoryConsumer.allFrom, recordsOf_append, recordsOf_eq,
            MemoryConsumer.handOver_records, List.filterMap_map]
          rfl

/-- So it is with what is in the files of a tidy topic. -/
theorem FileLog.records_toRead {topic : String} (hlegal : isTopicName topic = true)
    {s : FileLog} (htidy : Tidy s.root s.files topic) {o : ConsumerOptions}
    (hstart : o.start = .earliest) :
    recordsOf (toRead o s.root s.files topic) = s.firstRecords topic ++ s.otherRecords topic := by
  rw [firstRecords, otherRecords, toRead, hstart]
  cases hps : partitions s.root topic s.files with
  | error e =>
      rw [Tidy.partitions_failed hlegal hps]
      rfl
  | ok ps =>
      obtain ⟨-, -, hsplit⟩ := htidy.partitions_listed hlegal hps
      dsimp only
      rw [hsplit, recordsOf_append, recordsOf_eq, records_entriesOf, List.filterMap_map]
      rfl

/-- A topic that cannot be named so has nothing in files. -/
theorem FileLog.firstRecords_illegal {topic : String} (h : ¬ isTopicName topic = true)
    (s : FileLog) : s.firstRecords topic = [] := by
  have hpath : partitionPath s.root topic historyPartition = .error (.invalidTopic topic) := by
    rw [partitionPath, if_neg (by decide), topicPath, if_neg h]
    rfl
  rw [firstRecords, partitionBytes, hpath]
  rfl

/--
**A recovery begins with the first record, unless the properties say `latest`.** For all
properties that are accepted, with an attempt at least, and with which a consumer can be made, a
recovery comes to an end on both logs, whatever the topic holds and however many partitions it
has. It hands over the records on partition 0 from the first one on, before all others. The one
property that changes this is the one for where a consumer starts: if it says `latest`, nothing
that is on the topic is handed over. In files a topic needs a name that it may have; under another
name there is nothing.
-/
theorem recovery_begins {props : Properties} {fresh : String} {h : History}
    (hsettings : HistorySettings.ofProperties props fresh = .ok h.settings)
    (hattempts : 0 < h.settings.attempts) {o : ConsumerOptions}
    (hoptions : ConsumerOptions.ofSettings h.settings.consumer = .ok o) :
    (∀ w : World MemoryLog, ∃ polls, ∀ limit, polls ≤ limit → ∃ recovery events w',
      h.recover MemoryRun.host limit w = some (.ok recovery, events, w') ∧
      recovery.BeginsWith (props.get? HistorySettings.startProperty)
        (w.log.firstRecords h.settings.topic)) ∧
    (∀ w : World FileLog, FileLog.isTopicName h.settings.topic = true →
      FileLog.Tidy w.log.root w.log.files h.settings.topic →
      ∃ polls, ∀ limit, polls ≤ limit → ∃ recovery events w',
        h.recover FileLog.host limit w = some (.ok recovery, events, w') ∧
        recovery.BeginsWith (props.get? HistorySettings.startProperty)
          (w.log.firstRecords h.settings.topic)) ∧
    ∀ s : FileLog, ¬ FileLog.isTopicName h.settings.topic = true →
      s.firstRecords h.settings.topic = [] := by
  have htold := HistorySettings.start_eq_latest hsettings hoptions
  refine ⟨fun w => ?_, fun w hlegal htidy => ?_,
    fun s hillegal => FileLog.firstRecords_illegal hillegal s⟩
  · obtain ⟨polls, hrecovers⟩ := MemoryLog.handsOver w hoptions hattempts
    refine ⟨polls, fun limit hlimit => ?_⟩
    obtain ⟨recovery, events, w', hrecover, hrecords⟩ := hrecovers limit hlimit
    refine ⟨recovery, events, w', hrecover, Recovery.beginsWith_of htold hrecords
      (fun hearliest => MemoryLog.records_toRead h.settings.topic w.log hearliest ▸
        List.prefix_append _ _) fun hlatest => ?_⟩
    rw [MemoryConsumer.toRead, hlatest]
  · obtain ⟨polls, hrecovers⟩ := FileLog.handsOver w hlegal htidy hoptions hattempts
    refine ⟨polls, fun limit hlimit => ?_⟩
    obtain ⟨recovery, events, w', hrecover, hrecords⟩ := hrecovers limit hlimit
    refine ⟨recovery, events, w', hrecover, Recovery.beginsWith_of htold hrecords
      (fun hearliest => FileLog.records_toRead hlegal htidy hearliest ▸
        List.prefix_append _ _) fun hlatest => ?_⟩
    rw [FileLog.toRead, hlatest]
    cases FileLog.partitions w.log.root h.settings.topic w.log.files <;> rfl

/-- Properties that say `latest`. -/
def latestProperties : Properties :=
  .ofPairs [(HistorySettings.topicKey, "t"), (HistorySettings.serversKey, "b:9092"),
    (HistorySettings.startProperty, "latest")]

/-- The settings that these give. -/
def latestSettings : HistorySettings :=
  .assemble "t" "b:9092" "n" HistorySettings.defaultPollInterval HistorySettings.defaultAttempts
    latestProperties

/-- A log in memory with a record on the topic. -/
def oneInMemory : World MemoryLog :=
  .ofLog (MemoryLog.empty.appendRaw "t" 0 (Record.ofStatements "A").payload).2

/-- The same record on a line of a file. -/
def oneInFiles : World FileLog :=
  .ofLog (.ofTree ["log"] ⟨[(["log"], .directory), (["log", "t"], .directory),
    (["log", "t", "0.log"], .file 0)],
    Registry.empty.add (FileLog.ended [Text.utf8 (Record.ofStatements "A").payload])⟩)

theorem tidy_oneInFiles : FileLog.Tidy ["log"] oneInFiles.log.files "t" := by
  refine ⟨by decide, fun directory hdir name hname p hp => ?_⟩
  have hfind : oneInFiles.log.files.find (["log"] ++ ["t"]) = .ok (["log", "t"], .directory) := rfl
  rw [hfind] at hdir
  cases hdir
  have hnames : oneInFiles.log.files.namesIn ["log", "t"] = ["0.log"] := rfl
  rw [hnames, List.mem_singleton] at hname
  subst hname
  have hnumber : FileLog.partitionOf? "0.log" = some 0 := by decide
  rw [hnumber] at hp
  cases hp
  exact ⟨by decide, by decide, _, rfl⟩

/-- With these properties the record that is on the topic is not handed over, by neither log. -/
theorem recovery_begins_latestProperties :
    ((oneInMemory.log.firstRecords "t").length = 1 ∧
      ∃ limit recovery events w', (History.make latestSettings 1).recover MemoryRun.host limit
        oneInMemory = some (.ok recovery, events, w') ∧ recovery.records = []) ∧
    ((oneInFiles.log.firstRecords "t").length = 1 ∧
      ∃ limit recovery events w', (History.make latestSettings 1).recover FileLog.host limit
        oneInFiles = some (.ok recovery, events, w') ∧ recovery.records = []) := by
  have hsettings : HistorySettings.ofProperties latestProperties "n" =
      .ok (History.make latestSettings 1).settings := rfl
  have hoptions : ConsumerOptions.ofSettings (History.make latestSettings 1).settings.consumer =
      .ok ⟨500, .latest⟩ := rfl
  have htold : latestProperties.get? HistorySettings.startProperty = some "latest" := by decide
  obtain ⟨hmemory, hfiles, -⟩ := recovery_begins hsettings (by decide) hoptions
  rw [htold] at hmemory hfiles
  obtain ⟨limit, hrecovers⟩ := hmemory oneInMemory
  obtain ⟨recovery, events, w', hrecover, hnothing⟩ := hrecovers limit (Nat.le_refl limit)
  obtain ⟨limit', hrecovers'⟩ := hfiles oneInFiles rfl tidy_oneInFiles
  obtain ⟨recovery', events', w'', hrecover', hnothing'⟩ := hrecovers' limit' (Nat.le_refl limit')
  exact ⟨⟨by decide +kernel, limit, recovery, events, w', hrecover, hnothing⟩,
    ⟨by decide +kernel, limit', recovery', events', w'', hrecover', hnothing'⟩⟩

end SchemaHistory
