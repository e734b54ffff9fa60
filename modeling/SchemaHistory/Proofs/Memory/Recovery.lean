import SchemaHistory.Proofs.Memory.Serving

/-!
# Recovery from a log in memory

A recovery takes many calls, and others may act between them. As long as they append
nothing to the topic, the recovery reads the partition as it was when it began: its
consumer is served the entries in their order, and neither new modes nor released
acknowledgments nor other recoveries get in its way.
-/

namespace SchemaHistory

/-- A run, and what others do before each of the next calls of a recovery. -/
structure Amid where
  run : MemoryRun
  /-- What others are about to do before each call. -/
  others : List (List MemoryStep)

namespace Amid

/-- The others act. -/
def turn (s : Amid) : Amid := ⟨s.run.exec (s.others.headD []), s.others.tail⟩

/-- A call to the log after the others have acted. -/
def onLog {α : Type} (f : World MemoryLog → α × World MemoryLog) (s : Amid) : α × Amid :=
  ((f s.turn.run.party.world).1,
    { s.turn with run := s.turn.run.withWorld (f s.turn.run.party.world).2 })

/-- A change of the log after the others have acted. -/
def mapLog (f : World MemoryLog → World MemoryLog) (s : Amid) : Amid :=
  { s.turn with run := s.turn.run.withWorld (f s.turn.run.party.world) }

/-- A log in memory on which others act before each call. -/
def host : Host Amid where
  createProducer settings := onLog (MemoryRun.host.createProducer settings)
  send p request := onLog (MemoryRun.host.send p request)
  flush p := onLog (MemoryRun.host.flush p)
  closeProducer p := onLog (MemoryRun.host.closeProducer p)
  dropProducer p := mapLog (MemoryRun.host.dropProducer p)
  answer? t s := MemoryRun.host.answer? t s.run.party.world
  createConsumer settings := onLog (MemoryRun.host.createConsumer settings)
  subscribe k topics := onLog (MemoryRun.host.subscribe k topics)
  poll k timeout := onLog (MemoryRun.host.poll k timeout)
  closeConsumer k := onLog (MemoryRun.host.closeConsumer k)
  dropConsumer k := mapLog (MemoryRun.host.dropConsumer k)
  raised i s := MemoryRun.host.raised i s.run.party.world
  idle s := s.turn

/-- Nothing that the others are about to do lands on the partition, which holds `es`. -/
structure Quiet (topic : String) (s : Amid) (es : List Stored) : Prop where
  good : s.run.Good topic es
  /-- The others keep to the topic. -/
  onTopic : ∀ steps ∈ s.others, ∀ t ∈ steps, t.On topic
  lands : s.run.stance.landsAll topic s.others.flatten = []

variable {topic : String} {es : List Stored} {s : Amid}

/-- While the others act, the partition and the consumers stay as they are. -/
theorem Quiet.turn (h : s.Quiet topic es) :
    s.turn.Quiet topic es ∧ MemoryRun.KeepsConsumers s.run.log s.turn.run.log := by
  obtain ⟨run, others⟩ := s
  cases others with
  | nil => exact ⟨h, MemoryRun.keepsConsumers_of_eq rfl⟩
  | cons steps rest =>
      have hlands := h.lands
      rw [List.flatten_cons, Stance.landsAll_append, List.append_eq_nil_iff] at hlands
      obtain ⟨new, hgood, hnew, hstance, hconsumers⟩ :=
        h.good.exec (h.onTopic steps (by simp))
      rw [hlands.1, List.map_eq_nil_iff] at hnew
      rw [hnew, List.append_nil] at hgood
      refine ⟨⟨hgood, fun more hmore => h.onTopic more (List.mem_cons_of_mem _ hmore), ?_⟩,
        hconsumers⟩
      show (run.exec steps).stance.landsAll topic rest.flatten = []
      rw [hstance]
      exact hlands.2

/-- The log was changed after the others have acted. -/
def behind (s : Amid) (log : MemoryLog) : Amid :=
  { s.turn with run := s.turn.run.withWorld { s.turn.run.party.world with log } }

theorem onLog_eq {α : Type} {f : MemoryLog → α × MemoryLog} {a : α} {log : MemoryLog}
    (h : f s.turn.run.log = (a, log)) : onLog (World.onLog f) s = (a, s.behind log) := by
  have hworld : World.onLog f s.turn.run.party.world =
      (a, { s.turn.run.party.world with log }) := by
    rw [World.onLog, show f s.turn.run.party.world.log = (a, log) from h]
  rw [onLog, hworld]
  rfl

/-- A call that changes consumers only. -/
theorem Quiet.behind (h : s.Quiet topic es) {log : MemoryLog}
    (hlog : log.topics = s.turn.run.log.topics ∧ log.mode = s.turn.run.log.mode ∧
      log.producers = s.turn.run.log.producers) : (s.behind log).Quiet topic es := by
  obtain ⟨hturn, -⟩ := h.turn
  refine ⟨⟨?_, ?_, hturn.good.onTopic, hturn.good.written, hturn.good.sound⟩, hturn.onTopic, ?_⟩
  · show log.topics.Holds topic es
    rw [hlog.1]
    exact hturn.good.holds
  · show Held s.turn.run.party.histories fun p => log.producers.get? p = some false
    rw [hlog.2.2]
    exact hturn.good.held
  · show (Stance.mk log.mode _).landsAll topic _ = []
    rw [hlog.2.1]
    exact hturn.lands

/-- The consumer `k` reads the topic from the start, and `xs` is what it has not read. -/
structure Reading (topic : String) (k : ConsumerId) (m : Nat) (es : List Stored) (xs : List Entry)
    (s : Amid) : Prop where
  quiet : s.Quiet topic es
  /-- The consumer is there, open, and told so. -/
  consumer : ∃ c, s.run.log.consumers.get? k = some c ∧ c.closed = false ∧ c.topics = [topic] ∧
    c.options = ⟨m, .earliest⟩ ∧ xs = c.unread topic es

/-- **A consumer is served the partition**, whatever others do that appends nothing. -/
theorem serves (topic : String) (k : ConsumerId) (m timeout : Nat) (es : List Stored) :
    Serves (host.poll k timeout) m (Reading topic k m es) := by
  intro xs s h
  obtain ⟨hquiet, hkeeps⟩ := h.quiet.turn
  obtain ⟨c, hc, hopen, htopics, hoptions, rfl⟩ := h.consumer
  have hc' := hkeeps k c hc
  obtain ⟨hentries, hunread⟩ :=
    MemoryConsumer.fetch_holds (m := m) hquiet.good.holds htopics (by rw [hoptions])
  have hpoll : host.poll k timeout s =
      (.ok (c.fetch s.turn.run.log.topics).entries, s.behind (s.turn.run.log.polled k c)) :=
    onLog_eq (MemoryLog.poll_eq hc' hopen (by rw [htopics]; rfl))
  rw [hpoll]
  exact ⟨hentries, h.quiet.behind ⟨rfl, rfl, rfl⟩, _, Registry.get?_set_self hc' _, hopen,
    htopics, hoptions, hunread.symm⟩

/-- A consumer that is new. -/
theorem Quiet.createConsumer (h : s.Quiet topic es) {settings : ClientSettings}
    {o : ConsumerOptions} (ho : ConsumerOptions.ofSettings settings = .ok o) :
    ∃ k s', host.createConsumer settings s = (.ok k, s') ∧ s'.Quiet topic es ∧
      s'.run.log.consumers.get? k = some ⟨o, [], [], false⟩ :=
  ⟨_, _, onLog_eq (MemoryLog.createConsumer_eq ho), h.behind ⟨rfl, rfl, rfl⟩,
    Registry.get?_add_self _⟩

/-- A new consumer that is told the topic has all of it before it. -/
theorem Quiet.subscribe (h : s.Quiet topic es) {k : ConsumerId} {m : Nat}
    (hc : s.run.log.consumers.get? k = some ⟨⟨m, .earliest⟩, [], [], false⟩) :
    ∃ s', host.subscribe k [topic] s = (.ok (), s') ∧
      Reading topic k m es (MemoryConsumer.handOver topic 0 0 es) s' := by
  have hc' := h.turn.2 k _ hc
  exact ⟨_, onLog_eq (MemoryLog.subscribe_eq hc' rfl), h.behind ⟨rfl, rfl, rfl⟩, _,
    Registry.get?_set_self hc' _, rfl, rfl, rfl, rfl⟩

end Amid

/-- The record that a text of a partition holds, if it holds one. -/
def textRecord (text : String) : Option Record := (Record.parse text.toList).toOption

/-- A recovery among others that append nothing reads the partition. -/
theorem MemoryRun.Good.recovers {topic : String} {run : MemoryRun} {es : List Stored}
    (hgood : run.Good topic es) {others : List (List MemoryStep)}
    (hothers : ∀ steps ∈ others, ∀ t ∈ steps, t.On topic)
    (hquiet : (run.exec others.flatten).payloads topic = run.payloads topic) {h : History}
    (htopic : h.settings.topic = topic) {m limit : Nat}
    (hoptions : ConsumerOptions.ofSettings h.settings.consumer = .ok ⟨m, .earliest⟩)
    (hattempts : 0 < h.settings.attempts)
    (hlimit : Replay.batches (run.payloads topic).length m + h.settings.attempts ≤ limit) :
    ∃ events s', h.recover Amid.host limit ⟨run, others⟩ =
      some (.ok (.ofReadings h.settings.attempts m ((run.payloads topic).map textRecord)),
        events, s') := by
  have hstart : Amid.Quiet topic ⟨run, others⟩ es := by
    refine ⟨hgood, hothers, ?_⟩
    have hflat : ∀ t ∈ others.flatten, t.On topic := by
      intro t ht
      obtain ⟨steps, hsteps, ht⟩ := List.mem_flatten.mp ht
      exact hothers steps hsteps t ht
    obtain ⟨new, hgood', hnew, -, -⟩ := hgood.exec hflat
    rw [hgood'.payloads, hgood.payloads, List.map_append] at hquiet
    -- the partition is as long as before, so nothing landed
    have hlength := congrArg List.length hquiet
    rw [List.length_append, List.length_map] at hlength
    show run.stance.landsAll topic others.flatten = []
    rw [← hnew]
    exact List.eq_nil_of_length_eq_zero (by omega)
  obtain ⟨k, s₁, hcreate, hquiet₁, hnew⟩ := hstart.createConsumer hoptions
  obtain ⟨s₂, hsubscribe, hreading⟩ := hquiet₁.subscribe hnew
  have hlength : (MemoryConsumer.handOver topic 0 0 es).length = (run.payloads topic).length := by
    rw [MemoryConsumer.length_handOver, hgood.payloads, List.length_map]
  have hrecords : (MemoryConsumer.handOver topic 0 0 es).map Entry.record? =
      (run.payloads topic).map textRecord := by
    rw [MemoryConsumer.handOver_records, hgood.payloads, List.map_map]
    rfl
  rw [← htopic] at hsubscribe
  rw [← hlength] at hlimit
  obtain ⟨events, s', -, hrecover⟩ := History.recover_serves hcreate hsubscribe
    (Amid.serves topic k m _ es) (limit_pos hoptions) hattempts hreading hlimit
  rw [← hrecords]
  exact ⟨events, _, hrecover⟩

/-- A call stored its record exactly if it went through to a log that stores. -/
theorem StoreCall.Sound.reached_iff {c : StoreCall} (h : c.Sound) :
    c.reached = true ↔ c.result ≠ .error .notStarted ∧ ∀ reason, c.mode ≠ .fail reason := by
  unfold StoreCall.reached
  rcases h.ended with hresult | ⟨o, hresult⟩
  · rw [hresult]
    simp
  · rw [hresult]
    cases c.mode <;> simp [AckMode.stores]

/--
**Append, then recover.** After any run of histories on one topic, the partition holds what
the journal says was stored, in the order of issue: each call that went through to a log that
stores once, every acknowledged call among them, and no other. A recovery during which nothing is
appended hands over the records among these texts, in their order and with repeats, counts every
text once, and polls as often as the batches need and `attempts` times more. A batch has as many
entries as the settings of the history say, but one at least.
-/
theorem recovery_of_memory_run (topic : String) (signals : Registry Bool)
    (steps : List MemoryStep) (hsteps : ∀ s ∈ steps, s.On topic) (h : History)
    (htopic : h.settings.topic = topic) (m : Nat)
    (hmost : h.settings.consumer.getOr (Text.natural? ConsumerOptions.maxLimit)
      ConsumerOptions.limitKey ConsumerOptions.defaultLimit = .ok m)
    (hstart : h.settings.consumer.get? ConsumerOptions.startKey = some "earliest")
    (hattempts : 0 < h.settings.attempts) (others : List (List MemoryStep))
    (hothers : ∀ batch ∈ others, ∀ s ∈ batch, s.On topic) (run : MemoryRun)
    (hrun : (MemoryRun.start signals).exec steps = run)
    (hquiet : (run.exec others.flatten).payloads topic = run.payloads topic) (limit : Nat)
    (hlimit : ((run.payloads topic).length + max 1 m - 1) / max 1 m + h.settings.attempts ≤ limit) :
    (∃ recovery events s',
      h.recover Amid.host limit ⟨run, others⟩ = some (.ok recovery, events, s') ∧
      recovery.records = (run.payloads topic).filterMap textRecord ∧
      recovery.summary.entries = (run.payloads topic).length ∧
      recovery.summary.recovered = recovery.records.length ∧
      recovery.summary.recovered + recovery.summary.skipped = (run.payloads topic).length ∧
      recovery.summary.polls =
        ((run.payloads topic).length + max 1 m - 1) / max 1 m + h.settings.attempts) ∧
    run.payloads topic = run.journal.filterMap (Write.text? topic) ∧
    ∀ c, .stored c ∈ run.journal →
      (c.reached = true ↔ c.result ≠ .error .notStarted ∧ ∀ reason, c.mode ≠ .fail reason) ∧
      ∀ p, c.result = .ok (.acknowledged p) → c.reached = true := by
  have hoptions := ConsumerOptions.ofSettings_eq hmost
    (show ConsumerOptions.startOf _ = .ok .earliest by rw [hstart]; rfl)
  obtain ⟨es, hgood, -, -, -⟩ := (MemoryRun.good_start topic signals).exec hsteps
  rw [hrun, List.nil_append] at hgood
  refine ⟨?_, ?_, fun c hc => ⟨(hgood.sound c hc).reached_iff, fun p hp => ?_⟩⟩
  · obtain ⟨events, s', hrecover⟩ :=
      hgood.recovers hothers hquiet htopic hoptions hattempts hlimit
    refine ⟨_, events, s', hrecover, ?_, ?_, ?_, ?_, ?_⟩
    · rw [Recovery.ofReadings, List.filterMap_map]
      rfl
    · rw [Recovery.ofReadings, List.length_map]
    · rw [Recovery.ofReadings, List.length_filterMap_eq_countP]
      rfl
    · rw [Recovery.ofReadings, countP_isSome_add_countP_isNone, List.length_map]
    · rw [Recovery.ofReadings, List.length_map]
      rfl
  · rw [hgood.payloads, hgood.written]
  · exact (hgood.sound c hc).reached hp

/-- Two records are stored, one of them with its acknowledgment kept back for a while, and a text
that is no record stands between them. A third store is refused. -/
def mixedSteps : List MemoryStep :=
  [.act (.make (.ofTopic "t" "b" "n") 0), .store 0 (.ofStatements "X"), .act (.start 0),
   .store 0 (.ofStatements "A"), .raw "t" 0 "junk", .mode .withhold, .store 0 (.ofStatements "B"),
   .release, .look 3, .mode (.fail "no"), .store 0 (.ofStatements "C")]

/-- Settings of a history that recovers with two entries in a poll. -/
def pairwiseSettings : HistorySettings :=
  .assemble "t" "b" "n" HistorySettings.defaultPollInterval HistorySettings.defaultAttempts
    (.ofPairs [(HistorySettings.consumerPrefix ++ ConsumerOptions.limitKey, "2")])

/-- The theorem at this run, with the log told to answer again while the recovery goes on. Three
entries take two polls, and four more find nothing. -/
theorem recovery_of_mixedSteps :
    ∃ recovery events s', (History.make pairwiseSettings 1).recover Amid.host 10
        ⟨(MemoryRun.start .empty).exec mixedSteps, [[], [], [.mode .immediate]]⟩ =
          some (.ok recovery, events, s') ∧
      recovery.records = (((MemoryRun.start .empty).exec mixedSteps).payloads "t").filterMap
        textRecord ∧
      recovery.summary.entries = 3 ∧ recovery.summary.polls = 6 := by
  have hmost : pairwiseSettings.consumer.getOr (Text.natural? ConsumerOptions.maxLimit)
      ConsumerOptions.limitKey ConsumerOptions.defaultLimit = .ok 2 := by decide +kernel
  have hstart : pairwiseSettings.consumer.get? ConsumerOptions.startKey = some "earliest" := by
    decide +kernel
  obtain ⟨⟨recovery, events, s', hrecover, hrecords, hentries, -, -, hpolls⟩, -, -⟩ :=
    recovery_of_memory_run "t" .empty mixedSteps (by simp [mixedSteps, MemoryStep.On]; rfl)
      (History.make pairwiseSettings 1) rfl 2 hmost hstart (by decide)
      [[], [], [.mode .immediate]] (by simp [MemoryStep.On]) _ rfl (by decide +kernel) 10
      (by decide +kernel)
  exact ⟨recovery, events, s', hrecover, hrecords, hentries.trans (by decide +kernel),
    hpolls.trans (by decide +kernel)⟩

end SchemaHistory
