import SchemaHistory.Proofs.Memory.Recovery
import SchemaHistory.Proofs.Mirrored

/-!
# A consumer of either log

A producer appends to partition 0 of a topic and flushes, a consumer subscribes and polls, in any
order. The same is done to a log in memory and to a log in files that hold the same topics.

What the polls hand over is the same as long as it does not matter when a consumer decides where
it starts. One that starts behind the entries does so in memory when it subscribes, and in files
when it polls for the first time. What is appended in between it gets from memory, and never from
files. So the answers of the logs are the same exactly if no such consumer polls so late.
-/

namespace SchemaHistory

open FileLog FileTree Text

/-! ## What is done to a log -/

/-- What a consumer and a producer of a log do. -/
inductive ClientStep
  /-- A consumer is made, in place of the one before. -/
  | create (settings : ClientSettings)
  | subscribe (topics : List String)
  | poll (timeout : Nat)
  /-- An entry is appended to partition 0 of the topic, and the producer is flushed. -/
  | append (key : Option String) (payload : String)

/-- What comes of it. -/
inductive ClientAnswer
  /-- There is no consumer. -/
  | nobody
  | made (result : Except BrokerError Unit)
  | told (result : Except BrokerError Unit)
  /-- The entries are told without their keys. -/
  | polled (result : Except BrokerError (List Entry))
  | appended (sent flushed : Except BrokerError Unit)
  deriving DecidableEq

/-- A log with a producer and, once it is made, a consumer. -/
structure Bench (σ : Type) where
  log : σ
  producer : ProducerId
  consumer : Option ConsumerId

namespace Bench

variable {σ : Type}

/-- Does one thing. -/
def perform (c : LogClients σ) (topic : String) (b : Bench σ) : ClientStep → ClientAnswer × Bench σ
  | .create settings =>
    match c.createConsumer settings b.log with
    | (.error e, log) => (.made (.error e), { b with log })
    | (.ok k, log) => (.made (.ok ()), { b with log, consumer := some k })
  | .subscribe topics =>
    match b.consumer with
    | none => (.nobody, b)
    | some k =>
      let (result, log) := c.subscribe k topics b.log
      (.told result, { b with log })
  | .poll timeout =>
    match b.consumer with
    | none => (.nobody, b)
    | some k =>
      let (result, log) := c.poll k timeout b.log
      (.polled (result.map fun es => es.map Entry.keyless), { b with log })
  | .append key payload =>
    let (sent, log) := c.send b.producer ⟨topic, historyPartition, key, payload⟩ b.log
    let (flushed, log) := c.flush b.producer log
    (.appended (sent.map fun _ => ()) flushed, { b with log })

/-- What comes of some steps, one after another. -/
def answers (c : LogClients σ) (topic : String) : Bench σ → List ClientStep → List ClientAnswer
  | _, [] => []
  | b, step :: steps => (b.perform c topic step).1 :: answers c topic (b.perform c topic step).2 steps

end Bench

/-- What comes of some steps on a log, once a producer is made. -/
def LogClients.answers {σ : Type} (c : LogClients σ) (settings : ClientSettings) (topic : String)
    (s : σ) (steps : List ClientStep) : Except BrokerError (List ClientAnswer) :=
  match c.createProducer settings s with
  | (.error e, _) => .error e
  | (.ok p, s) => .ok (Bench.answers c topic ⟨s, p, none⟩ steps)

/-- A payload is one line, and topics have names that they can have in files. -/
def ClientStep.Plain : ClientStep → Prop
  | .create _ => True
  | .subscribe topics => ∀ name ∈ topics, Nameable name
  | .poll _ => True
  | .append _ payload => '\n' ∉ payload.toList

/-- A consumer that is made starts at the first entries. -/
def ClientStep.Early : ClientStep → Prop
  | .create settings => ∀ o, ConsumerOptions.ofSettings settings = .ok o → o.start = .earliest
  | _ => True

/-- The step is a poll. -/
def ClientStep.isPoll : ClientStep → Bool
  | .poll _ => true
  | _ => false

/-- The step is an append. -/
def ClientStep.isAppend : ClientStep → Bool
  | .append _ _ => true
  | _ => false

/-- Nothing was refused that was appended. -/
def ClientAnswer.Accepted : ClientAnswer → Prop
  | .appended sent flushed => sent = .ok () ∧ flushed = .ok ()
  | _ => True

/-! ## When it is too late -/

/-- How far apart the places are that a consumer has in the partition, in memory and in files. -/
inductive Gap
  /-- They are the same. -/
  | closed
  /-- In memory the place was noted, and in files it would still be the same. -/
  | noted
  /-- The place was noted, and entries came behind it. -/
  | missed
  deriving DecidableEq

/-- Where the consumer starts, and the gap. -/
structure Course where
  start : StartAt
  gap : Gap
  deriving DecidableEq

namespace Course

/-- Before a consumer is made. -/
def initial : Course := ⟨.earliest, .closed⟩

/-- After one step. A subscription to the topic opens a gap if reading starts behind the entries, and
a poll closes it. -/
def next (topic : String) (c : Course) : ClientStep → Course
  | .create settings =>
    match ConsumerOptions.ofSettings settings with
    | .error _ => c
    | .ok o => ⟨o.start, .closed⟩
  | .subscribe topics =>
    { c with gap := if c.start = .latest ∧ topic ∈ topics then .noted else .closed }
  | .poll _ => { c with gap := .closed }
  | .append _ _ => { c with gap := if c.gap = .closed then .closed else .missed }

/-- No poll comes after entries were missed. -/
def Timely (topic : String) : Course → List ClientStep → Prop
  | _, [] => True
  | c, step :: steps =>
    (c.gap = .missed → step.isPoll = false) ∧ Timely topic (c.next topic step) steps

instance (topic : String) : (c : Course) → (steps : List ClientStep) →
    Decidable (c.Timely topic steps)
  | _, [] => inferInstanceAs (Decidable True)
  | c, step :: steps =>
    have := instDecidableTimely topic (c.next topic step) steps
    inferInstanceAs (Decidable (_ ∧ Timely topic (c.next topic step) steps))

/-- No gap opens if all consumers start at the first entries. -/
theorem timely_of_early {topic : String} {c : Course} {steps : List ClientStep}
    (hstart : c.start = .earliest) (hgap : c.gap = .closed)
    (hsteps : ∀ action ∈ steps, action.Early) : c.Timely topic steps := by
  induction steps generalizing c with
  | nil => trivial
  | cons action steps ih =>
      obtain ⟨hearly, hrest⟩ := List.forall_mem_cons.mp hsteps
      have hnext : (c.next topic action).start = .earliest ∧
          (c.next topic action).gap = .closed := by
        cases action with
        | create settings =>
            rw [next]
            cases ho : ConsumerOptions.ofSettings settings with
            | error e => exact ⟨hstart, hgap⟩
            | ok o => exact ⟨hearly o ho, rfl⟩
        | subscribe topics => simp [next, hstart]
        | poll timeout => exact ⟨hstart, rfl⟩
        | append key payload => simp [next, hstart, hgap]
      refine ⟨fun hmissed => ?_, ih hnext.1 hnext.2 hrest⟩
      rw [hgap] at hmissed
      cases hmissed

end Course

/-! ## Logs that hold the same -/

/-- The logs hold the same topics, and the topic has partition 0. The log in memory stores what is
appended, and the tree is as a system of files keeps it. -/
structure SameLogs (rp : Path) (topic : String) (s : MemoryLog) (f : FileLog) : Prop where
  stores : s.mode.stores = true
  found : f.files.find f.root = .ok (rp, .directory)
  sound : f.files.Sound
  nameable : Nameable topic
  mirrored : ∀ name, Nameable name → Mirrored f.root f.files s.topics name
  there : ∃ es, s.topics.entries? topic historyPartition = some es

/-- Besides, both producers can append. -/
structure Ready (rp : Path) (topic : String) (b : Bench MemoryLog) (b' : Bench FileLog) :
    Prop where
  logs : SameLogs rp topic b.log b'.log
  inMemory : b.log.producers.get? b.producer = some false
  inFiles : ∃ pr, b'.log.producers.get? b'.producer = some pr ∧ pr.Flushed b'.log.files rp

namespace MemoryLog

variable {s : MemoryLog} {p : ProducerId} {es : List Stored}

/-- An append to a partition that is there is accepted. -/
theorem append_stored (request : AppendRequest) (hp : s.producers.get? p = some false) (hstores : s.mode.stores = true)
    (hes : s.topics.entries? request.topic request.partition = some es) :
    ∃ ticket s', s.send p request = (.ok ticket, s') ∧ s'.flush p = (.ok (), s') ∧
      s'.mode = s.mode ∧ s'.producers = s.producers ∧ s'.consumers = s.consumers ∧
      (∀ name q, s'.topics.entries? name q = if (name, q) = (request.topic, request.partition)
        then some (es ++ [⟨request.key, request.payload⟩]) else s.topics.entries? name q) ∧
      ∀ name, s'.topics.partitionCount name = s.topics.partitionCount name := by
  have hopen : s.isClosed p = false := by
    rw [isClosed, hp]
    rfl
  obtain ⟨T, happend, hentries, hcount⟩ :=
    Topics.append_there hes ⟨request.key, request.payload⟩
  rcases send_eq s p request with ⟨hclosed, -⟩ | ⟨-, reason, hmode, -⟩ | ⟨-, -, hsend⟩
  · rw [hopen] at hclosed
    cases hclosed
  · rw [hmode] at hstores
    cases hstores
  · rw [happend] at hsend
    have hflush : ∀ s' : MemoryLog, s'.producers = s.producers → s'.flush p = (.ok (), s') := by
      intro s' hs'
      rw [flush, isClosed, hs', hp]
      rfl
    dsimp only at hsend
    split at hsend
    · exact ⟨_, _, hsend, hflush _ rfl, rfl, rfl, rfl, hentries, hcount⟩
    · exact ⟨_, _, hsend, hflush _ rfl, rfl, rfl, rfl, hentries, hcount⟩

end MemoryLog

section Append

variable {rp : Path} {topic : String} {b : Bench MemoryLog} {b' : Bench FileLog}

/-- **An append** is accepted by both logs, and comes to the same partition of both. -/
theorem Ready.append (h : Ready rp topic b b') (key : Option String) {payload : String}
    (hline : '\n' ∉ payload.toList) :
    ∃ es s f, b.perform MemoryLog.clients topic (.append key payload) =
        (.appended (.ok ()) (.ok ()), { b with log := s }) ∧
      b'.perform FileLog.clients topic (.append key payload) =
        (.appended (.ok ()) (.ok ()), { b' with log := f }) ∧
      s.consumers = b.log.consumers ∧ f.consumers = b'.log.consumers ∧ f.root = b'.log.root ∧
      Appended b'.log.root (topic, historyPartition) es ⟨key, payload⟩ b'.log.files f.files
        b.log.topics s.topics ∧ Ready rp topic { b with log := s } { b' with log := f } := by
  obtain ⟨hlogs, hmemory, pr, hpr, hflushed⟩ := h
  obtain ⟨es, hes⟩ := hlogs.there
  have hmirrored := hlogs.mirrored topic hlogs.nameable
  have hread := hmirrored.read 0 es hes
  have hbytes : partitionBytes b'.log.root b'.log.files (topic, historyPartition) = _ :=
    partitionBytes_of_read hlogs.nameable.legal hread
  have hfits : Fits (topic, historyPartition) :=
    ⟨hlogs.nameable.legal, Int.le_refl _, hlogs.nameable.short, short_partitionFile⟩
  obtain ⟨k, hspot⟩ := onSpot_of_readable hlogs.found hlogs.sound hfits hread
  -- the file ends behind a line, so the new one is not put behind half a line
  have hwhole : isTorn (partitionBytes b'.log.root b'.log.files (topic, historyPartition)) = false := by
    rw [hbytes, (lined_storedLines (hmirrored.oneLine 0 es hes)).isTorn_eq]
    rfl
  obtain ⟨ticket, s, hsend, hflush, hmode, hproducers, hconsumers, hentries, hcount⟩ :=
    MemoryLog.append_stored ⟨topic, historyPartition, key, payload⟩ hmemory hlogs.stores
      hes
  obtain ⟨ticket', f₁, f, pr', hsend', hflush', hroot, hconsumers', hpr', hflushed', hnodes, hadded⟩ :=
    append_flushed ⟨topic, historyPartition, key, payload⟩ hpr hflushed hlogs.found
      hlogs.sound hline hspot hwhole
  have happended : Appended b'.log.root (topic, historyPartition) es ⟨key, payload⟩ b'.log.files
      f.files b.log.topics s.topics := ⟨hes, hentries, hcount, hnodes, hadded.bytes⟩
  refine ⟨es, s, f, ?_, ?_, hconsumers, hconsumers', hroot, happended, ⟨?_, ?_, hadded.sound,
    hlogs.nameable, fun name hname => ?_, ?_⟩, ?_, pr', hpr', hflushed'⟩
  · simp only [Bench.perform, MemoryLog.clients, hsend, hflush]
    rfl
  · simp only [Bench.perform, FileLog.clients, hsend', hflush']
    rfl
  · exact (congrArg AckMode.stores hmode).trans hlogs.stores
  · show f.files.find f.root = _
    rw [hroot]
    exact hadded.found
  · show Mirrored f.root f.files s.topics name
    rw [hroot]
    exact happended.mirrored hline hname.legal (hlogs.mirrored name hname)
  · exact ⟨_, (hentries topic historyPartition).trans (if_pos rfl)⟩
  · rw [hproducers]
    exact hmemory

end Append

/-! ## The consumers -/

/-- Where the consumers are apart in partition 0 of the topic, and that they are beside each other
everywhere else. -/
inductive Apart (topic : String) (T : Topics) (c : MemoryConsumer) (d : Consumer) : Gap → Prop
  /-- A consumer that starts behind the entries has begun to read the partition, or does not read it. -/
  | closed (beside : BesideAll c.options T c.positions d.cursors)
      (begun : c.options.start = .latest → Assoc.get? d.cursors (topic, historyPartition) = none →
        topic ∉ c.topics ∧ Assoc.get? c.positions (topic, 0) = none) : Apart topic T c d .closed
  /-- Just now the consumer was told the topic. -/
  | noted (latest : c.options.start = .latest) (mem : topic ∈ c.topics)
      (positions : c.positions = MemoryConsumer.endPositions T c.topics) (cursors : d.cursors = []) :
      Apart topic T c d .noted
  /-- There are more entries than the consumer in memory has noted. -/
  | missed (latest : c.options.start = .latest) (mem : topic ∈ c.topics) {n : Nat} {es : List Stored}
      (there : T.entries? topic historyPartition = some es)
      (position : Assoc.get? c.positions (topic, 0) = some n) (more : n < es.length)
      (cursors : d.cursors = []) : Apart topic T c d .missed

/-- Consumers of two logs that hold the same, of which the first has the topics `T`. -/
structure Pair (topic : String) (T : Topics) (course : Course) (c : MemoryConsumer) (d : Consumer) :
    Prop where
  options : d.options = c.options
  topics : d.topics = c.topics
  inMemory : c.closed = false
  inFiles : d.closed = false
  limit : 0 < c.options.limit
  start : c.options.start = course.start
  nameable : ∀ name ∈ c.topics, Nameable name
  apart : Apart topic T c d course.gap

section Pair

variable {topic : String} {T T' : Topics} {course : Course} {c : MemoryConsumer} {d : Consumer}
  {root : Path} {t t' : FileTree}

theorem besideAll_nil (o : ConsumerOptions) (T : Topics) : BesideAll o T [] [] :=
  fun _ _ _ _ => .unread

theorem pair_made (topic : String) (T : Topics) {settings : ClientSettings} {o : ConsumerOptions}
    (ho : ConsumerOptions.ofSettings settings = .ok o) :
    Pair topic T ⟨o.start, .closed⟩ ⟨o, [], [], false⟩ ⟨o, [], [], false⟩ :=
  ⟨rfl, rfl, rfl, rfl, limit_pos ho, rfl, fun _ h => (List.not_mem_nil h).elim,
    .closed (besideAll_nil o T) fun _ _ => ⟨List.not_mem_nil, rfl⟩⟩

/-- Consumers that were just told their topics are beside each other everywhere. -/
theorem besideAll_told (hlatest : c.options.start = .latest) (T : Topics) (names : List String) :
    BesideAll c.options T (MemoryConsumer.endPositions T names) [] := by
  intro name p es hes
  rw [MemoryConsumer.get?_endPositions, MemoryConsumer.lengths]
  split
  · have hfirst : c.options.first es.length = es.length := by
      rw [ConsumerOptions.first, hlatest]
    rw [hes, Option.map_some, ← hfirst]
    exact .noted
  · exact .unread

/-- **A subscription** opens a gap if reading starts behind the entries of the topic. -/
theorem Pair.told (h : Pair topic T course c d) {names : List String}
    (hnames : ∀ name ∈ names, Nameable name) :
    Pair topic T (course.next topic (.subscribe names)) (c.subscribe T names)
      { d with topics := names, cursors := [] } := by
  refine ⟨h.options, rfl, h.inMemory, h.inFiles, h.limit, h.start, hnames, ?_⟩
  rw [Course.next, ← h.start]
  dsimp only
  cases hstart : c.options.start with
  | earliest =>
      -- both begin at the first entries of whatever they come to
      have htold : (c.subscribe T names).positions = [] := by
        rw [MemoryConsumer.subscribe, hstart]
      have hearly : ¬(StartAt.earliest = .latest ∧ topic ∈ names) := by simp
      rw [if_neg hearly]
      refine .closed ?_ fun hlatest => ?_
      · rw [htold]
        exact besideAll_nil c.options T
      · exact absurd (hstart.symm.trans hlatest) (by decide)
  | latest =>
      have htold : (c.subscribe T names).positions = MemoryConsumer.endPositions T names := by
        rw [MemoryConsumer.subscribe, hstart]
      by_cases hmem : topic ∈ names
      · rw [if_pos ⟨rfl, hmem⟩]
        exact .noted hstart hmem htold rfl
      · rw [if_neg fun h => hmem h.2]
        refine .closed ?_ fun _ _ => ⟨hmem, ?_⟩
        · rw [htold]
          exact besideAll_told hstart T names
        · rw [htold, MemoryConsumer.get?_endPositions, MemoryConsumer.lengths, if_neg hmem]

/-- **An append** widens a gap. -/
theorem Pair.appended (h : Pair topic T course c d) {es : List Stored} {e : Stored}
    (happended : Appended root (topic, historyPartition) es e t t' T T') (key : Option String)
    (payload : String) : Pair topic T' (course.next topic (.append key payload)) c d := by
  obtain ⟨hoptions, htopics, hmemory, hfiles, hlimit, hstart, hnameable, hapart⟩ := h
  refine ⟨hoptions, htopics, hmemory, hfiles, hlimit, hstart, hnameable, ?_⟩
  have hthere : T'.entries? topic historyPartition = some (es ++ [e]) :=
    (happended.entries topic historyPartition).trans (if_pos rfl)
  obtain ⟨start, gap⟩ := course
  rw [Course.next]
  dsimp only at hapart ⊢
  cases hapart with
  | closed beside begun =>
      refine .closed (happended.beside beside fun p hp hlatest hcursor => ?_) begun
      obtain rfl : p = 0 := (Int.ofNat.inj hp).symm
      exact (begun hlatest hcursor).2
  | noted latest mem positions cursors =>
      -- what was noted is where the partition ended before the append
      refine .missed latest mem hthere (n := es.length) ?_ (by simp) cursors
      rw [positions, MemoryConsumer.get?_endPositions, MemoryConsumer.lengths, if_pos mem]
      exact congrArg (Option.map List.length) happended.there
  | missed latest mem there position more cursors =>
      obtain rfl := Option.some.inj (there.symm.trans happended.there)
      exact .missed latest mem hthere position (by rw [List.length_append]; omega) cursors

/-- A consumer that stands at the end of every partition. -/
theorem fetch_told (hlatest : c.options.start = .latest) (hpositions : c.positions = [] ∨
    c.positions = MemoryConsumer.endPositions T c.topics) : (c.fetch T).entries = [] := by
  refine MemoryConsumer.fetch_eq_nil fun name p => ?_
  have hfirst : ∀ n, c.options.first n = n := fun n => by rw [ConsumerOptions.first, hlatest]
  rw [MemoryConsumer.positionIn, hfirst]
  rcases hpositions with hnone | hends
  · rw [hnone]
    rfl
  · rw [hends, MemoryConsumer.get?_endPositions, MemoryConsumer.lengths]
    split
    · rw [Topics.held]
      cases T.entries? name p <;> rfl
    · rfl

/-- **A poll** hands over the same, unless entries were missed, and closes the gap. -/
theorem Pair.polled (h : Pair topic T course c d) (hintime : course.gap ≠ .missed)
    (hmirrored : ∀ name, Nameable name → Mirrored root t T name)
    (hthere : ∃ es, T.entries? topic historyPartition = some es) :
    (d.fetch root t).result = .ok ((c.fetch T).entries.map Entry.keyless) ∧
      Pair topic T ⟨course.start, .closed⟩ { c with positions := (c.fetch T).positions }
        { d with cursors := (d.fetch root t).cursors } := by
  obtain ⟨hoptions, htopics, hmemory, hfiles, hlimit, hstart, hnameable, hapart⟩ := h
  have hsame : ∀ name ∈ c.topics, Mirrored root t T name :=
    fun name hname => hmirrored name (hnameable name hname)
  obtain ⟨start, gap⟩ := course
  dsimp only at hintime hapart
  cases hapart with
  | missed => exact absurd rfl hintime
  | closed beside begun =>
      have hstep := inStep_fetch hoptions htopics hsame beside
      refine ⟨hstep.result, hoptions, htopics, hmemory, hfiles, hlimit, hstart, hnameable,
        .closed hstep.beside fun hlatest hnone => ?_⟩
      -- a cursor does not go away, so there was none before
      have hbefore : Assoc.get? d.cursors (topic, historyPartition) = none := by
        cases hcursor : Assoc.get? d.cursors (topic, historyPartition) with
        | none => rfl
        | some cursor =>
            obtain ⟨cursor', hcursor', -⟩ := (Consumer.between_fetch root t d).onward _ _ hcursor
            exact absurd (hcursor'.symm.trans hnone) nofun
      obtain ⟨hmem, hposition⟩ := begun hlatest hbefore
      refine ⟨hmem, ?_⟩
      rw [← hposition]
      exact MemoryConsumer.position_fetch_other fun hkey =>
        hmem (MemoryConsumer.mem_keys_visits.mp hkey).1
  | noted latest mem positions cursors =>
      have hbeside : BesideAll c.options T c.positions d.cursors := by
        rw [positions, cursors]
        exact besideAll_told latest T c.topics
      have hstep := inStep_fetch hoptions htopics hsame hbeside
      obtain ⟨es, hes⟩ := hthere
      refine ⟨hstep.result, hoptions, htopics, hmemory, hfiles, hlimit, hstart, hnameable,
        .closed hstep.beside fun _ hnone => ?_⟩
      -- there was nothing to hand over, so the poll came to the partition
      exact absurd hnone (hstep.begun hoptions htopics hsame hlimit
        (fetch_told latest (.inr positions)) mem hes)

/-- **A poll after entries were missed** hands them over in memory, and nothing in files. -/
theorem Pair.polled_missed (h : Pair topic T course c d) (hmissed : course.gap = .missed)
    (hmirrored : ∀ name, Nameable name → Mirrored root t T name) :
    topic ∈ c.topics ∧ (d.fetch root t).result = .ok [] ∧ (c.fetch T).entries ≠ [] := by
  obtain ⟨hoptions, htopics, -, -, hlimit, -, hnameable, hapart⟩ := h
  rw [hmissed] at hapart
  cases hapart with
  | missed latest mem there position more cursors =>
      -- in files the consumer begins to read now, as one in memory would that has noted nothing
      have hstep := inStep_fetch (c := { c with positions := [] }) hoptions htopics
        (fun name hname => hmirrored name (hnameable name hname))
        (by rw [cursors]; exact besideAll_nil c.options T)
      refine ⟨mem, ?_, MemoryConsumer.fetch_ne_nil hlimit mem there position more⟩
      rw [hstep.result, fetch_told (c := { c with positions := [] }) latest (.inl rfl)]
      rfl

end Pair

/-! ## One step -/

/-- No consumer was made yet, or the consumers are a pair. -/
inductive Seated (topic : String) (course : Course) (b : Bench MemoryLog) (b' : Bench FileLog) :
    Prop
  | nobody (hb : b.consumer = none) (hb' : b'.consumer = none) (hcourse : course = .initial)
  | both {k k' : ConsumerId} {c : MemoryConsumer} {d : Consumer} (hb : b.consumer = some k)
      (hb' : b'.consumer = some k') (hk : b.log.consumers.get? k = some c)
      (hk' : b'.log.consumers.get? k' = some d) (pair : Pair topic b.log.topics course c d)

section Step

variable {rp : Path} {topic : String} {course : Course} {b : Bench MemoryLog} {b' : Bench FileLog}
  {action : ClientStep}

/-- Only an append is accepted or not. -/
theorem Bench.accepted {σ : Type} (c : LogClients σ) (topic : String) (b : Bench σ)
    (haction : action.isAppend = false) : (b.perform c topic action).1.Accepted := by
  cases action with
  | append key payload => cases haction
  | create settings =>
      rw [perform]
      split <;> exact trivial
  | subscribe topics =>
      rw [perform]
      split <;> exact trivial
  | poll timeout =>
      rw [perform]
      split <;> exact trivial

/-- What is not an append changes nothing but consumers. -/
theorem perform_memory (b : Bench MemoryLog) (topic : String) (haction : action.isAppend = false) :
    ∃ consumers openConsumers consumer, (b.perform MemoryLog.clients topic action).2 =
      ⟨{ b.log with consumers, openConsumers }, b.producer, consumer⟩ := by
  cases action with
  | append key payload => cases haction
  | create settings =>
      obtain ⟨consumers, openConsumers, hcall⟩ :=
        MemoryLog.call_ofConsumer (s := b.log) (c := .createConsumer settings) rfl
      refine ⟨consumers, openConsumers, ?_⟩
      rw [← hcall, Bench.perform, MemoryLog.call]
      dsimp only [MemoryLog.clients]
      split
      · rename_i hcreate
        rw [hcreate]
        exact ⟨_, rfl⟩
      · rename_i hcreate
        rw [hcreate]
        exact ⟨_, rfl⟩
  | subscribe topics =>
      rw [Bench.perform]
      cases b.consumer with
      | none => exact ⟨b.log.consumers, b.log.openConsumers, b.consumer, rfl⟩
      | some k =>
          obtain ⟨consumers, openConsumers, hcall⟩ :=
            MemoryLog.call_ofConsumer (s := b.log) (c := .subscribe k topics) rfl
          refine ⟨consumers, openConsumers, some k, ?_⟩
          rw [← hcall, MemoryLog.call]
          rfl
  | poll timeout =>
      rw [Bench.perform]
      cases b.consumer with
      | none => exact ⟨b.log.consumers, b.log.openConsumers, b.consumer, rfl⟩
      | some k =>
          obtain ⟨consumers, openConsumers, hcall⟩ :=
            MemoryLog.call_ofConsumer (s := b.log) (c := .poll k) rfl
          refine ⟨consumers, openConsumers, some k, ?_⟩
          rw [← hcall, MemoryLog.call]
          rfl

theorem perform_files (b' : Bench FileLog) (topic : String) (haction : action.isAppend = false) :
    ∃ consumers consumer, (b'.perform FileLog.clients topic action).2 =
      ⟨{ b'.log with consumers }, b'.producer, consumer⟩ := by
  cases action with
  | append key payload => cases haction
  | create settings =>
      rw [Bench.perform]
      dsimp only [FileLog.clients]
      rw [FileLog.createConsumer]
      cases ConsumerOptions.ofSettings settings with
      | error e => exact ⟨b'.log.consumers, _, rfl⟩
      | ok o => exact ⟨_, _, rfl⟩
  | subscribe topics =>
      rw [Bench.perform]
      cases b'.consumer with
      | none => exact ⟨b'.log.consumers, b'.consumer, rfl⟩
      | some k => exact ⟨_, _, rfl⟩
  | poll timeout =>
      rw [Bench.perform]
      cases b'.consumer with
      | none => exact ⟨b'.log.consumers, b'.consumer, rfl⟩
      | some k => exact ⟨_, _, rfl⟩

/-- **Every step** leaves logs that hold the same, and what is appended is accepted. -/
theorem Ready.step (h : Ready rp topic b b') (haction : action.Plain) :
    (b.perform MemoryLog.clients topic action).1.Accepted ∧
      (b'.perform FileLog.clients topic action).1.Accepted ∧
      Ready rp topic (b.perform MemoryLog.clients topic action).2
        (b'.perform FileLog.clients topic action).2 := by
  cases happend : action.isAppend with
  | true =>
      cases action with
      | append key payload =>
          obtain ⟨es, s, f, hmemory, hfiles, -, -, -, -, hready⟩ := h.append key haction
          rw [hmemory, hfiles]
          exact ⟨⟨rfl, rfl⟩, ⟨rfl, rfl⟩, hready⟩
      | _ => cases happend
  | false =>
      obtain ⟨consumers, openConsumers, consumer, hmemory⟩ := perform_memory b topic happend
      obtain ⟨consumers', consumer', hfiles⟩ := perform_files b' topic happend
      refine ⟨b.accepted _ topic happend, b'.accepted _ topic happend, ?_⟩
      rw [hmemory, hfiles]
      exact ⟨⟨h.logs.stores, h.logs.found, h.logs.sound, h.logs.nameable, h.logs.mirrored,
        h.logs.there⟩, h.inMemory, h.inFiles⟩

end Step

/-! ### Consumers -/

namespace FileLog

variable {f : FileLog} {k : ConsumerId} {d : Consumer}

theorem consumer_of_get? (hd : f.consumers.get? k = some d) : f.consumer k = d := by
  rw [consumer, hd]
  rfl

theorem mapM_topicPath (root : Path) {names : List String}
    (hlegal : ∀ name ∈ names, isTopicName name = true) :
    ∃ paths, names.mapM (topicPath root) = .ok paths := by
  induction names with
  | nil => exact ⟨[], rfl⟩
  | cons name names ih =>
      obtain ⟨paths, hpaths⟩ := ih fun other hother => hlegal other (List.mem_cons_of_mem name hother)
      rw [List.mapM_cons, topicPath_eq (hlegal name List.mem_cons_self), hpaths]
      exact ⟨_, rfl⟩

/-- A consumer that is open can be told topics with names that they can have. -/
theorem subscribe_eq (hd : f.consumers.get? k = some d) (hopen : d.closed = false)
    {names : List String} (hlegal : ∀ name ∈ names, isTopicName name = true) :
    f.subscribe k names = (.ok (), { f with
      consumers := f.consumers.set k { d with topics := names, cursors := [] } }) := by
  obtain ⟨paths, hpaths⟩ := mapM_topicPath f.root hlegal
  rw [subscribe, consumer_of_get? hd, Consumer.subscribe, if_neg (ne_true_of_eq_false hopen), hpaths]

end FileLog

section Consumers

variable {rp : Path} {topic : String} {course : Course} {b : Bench MemoryLog} {b' : Bench FileLog}
  {action : ClientStep}

/-- The step has the same answer from both logs, and the consumers go on. -/
def Agree (topic : String) (course : Course) (b : Bench MemoryLog) (b' : Bench FileLog)
    (action : ClientStep) : Prop :=
  (b.perform MemoryLog.clients topic action).1 = (b'.perform FileLog.clients topic action).1 ∧
    Seated topic (course.next topic action) (b.perform MemoryLog.clients topic action).2
      (b'.perform FileLog.clients topic action).2

theorem Seated.create (h : Seated topic course b b') (settings : ClientSettings) :
    Agree topic course b b' (.create settings) := by
  rw [Agree, Bench.perform, Bench.perform]
  dsimp only [MemoryLog.clients, FileLog.clients]
  rw [MemoryLog.createConsumer, FileLog.createConsumer, Course.next]
  cases ho : ConsumerOptions.ofSettings settings with
  | error e => exact ⟨rfl, h⟩
  | ok o =>
      exact ⟨rfl, .both rfl rfl (Registry.get?_add_self _) (Registry.get?_add_self _)
        (pair_made topic b.log.topics ho)⟩

theorem Seated.subscribe (h : Seated topic course b b') {names : List String}
    (hnames : ∀ name ∈ names, Nameable name) : Agree topic course b b' (.subscribe names) := by
  rw [Agree, Bench.perform, Bench.perform]
  cases h with
  | nobody hb hb' hcourse =>
      rw [hb, hb']
      exact ⟨rfl, .nobody hb hb' (by rw [hcourse]; rfl)⟩
  | both hb hb' hk hk' pair =>
      rw [hb, hb']
      dsimp only [MemoryLog.clients, FileLog.clients]
      rw [MemoryLog.subscribe_eq hk pair.inMemory,
        FileLog.subscribe_eq hk' pair.inFiles fun name hname => (hnames name hname).legal]
      exact ⟨rfl, .both rfl rfl (Registry.get?_set_self hk _) (Registry.get?_set_self hk' _)
        (pair.told hnames)⟩

theorem Seated.append (hseated : Seated topic course b b') (h : Ready rp topic b b')
    (key : Option String) {payload : String} (hline : '\n' ∉ payload.toList) :
    Agree topic course b b' (.append key payload) := by
  obtain ⟨es, s, f, hmemory, hfiles, hconsumers, hconsumers', -, happended, -⟩ := h.append key hline
  rw [Agree, hmemory, hfiles]
  refine ⟨rfl, ?_⟩
  cases hseated with
  | nobody hb hb' hcourse => exact .nobody hb hb' (by rw [hcourse]; rfl)
  | @both k k' c d hb hb' hk hk' pair =>
      refine .both hb hb' ?_ ?_ (pair.appended happended key payload)
      · show s.consumers.get? k = some c
        rw [hconsumers]
        exact hk
      · show f.consumers.get? k' = some d
        rw [hconsumers']
        exact hk'

theorem Seated.poll (hseated : Seated topic course b b') (h : Ready rp topic b b') (timeout : Nat)
    (hintime : course.gap ≠ .missed) : Agree topic course b b' (.poll timeout) := by
  rw [Agree, Bench.perform, Bench.perform]
  cases hseated with
  | nobody hb hb' hcourse =>
      rw [hb, hb']
      exact ⟨rfl, .nobody hb hb' (by rw [hcourse]; rfl)⟩
  | @both k k' c d hb hb' hk hk' pair =>
      rw [hb, hb']
      dsimp only [MemoryLog.clients, FileLog.clients]
      obtain ⟨hresult, hpair⟩ := pair.polled hintime h.logs.mirrored h.logs.there
      by_cases htopics : c.topics = []
      · -- neither consumer reads anything, and both say so
        have hmemory : b.log.poll k = (.error .notSubscribed, b.log) := by
          rw [MemoryLog.poll, hk]
          dsimp only
          rw [if_neg (ne_true_of_eq_false pair.inMemory), if_pos (by rw [htopics]; rfl)]
        have hfiles : d.poll b'.log.root b'.log.files = (.error .notSubscribed, d) := by
          rw [Consumer.poll, if_neg (ne_true_of_eq_false pair.inFiles),
            if_pos (by rw [pair.topics, htopics]; rfl)]
        have hpositions : (c.fetch b.log.topics).positions = c.positions := by
          rw [MemoryConsumer.fetch, htopics]
          rfl
        have hcursors : (d.fetch b'.log.root b'.log.files).cursors = d.cursors := by
          rw [Consumer.fetch, pair.topics, htopics]
          rfl
        rw [hpositions, hcursors] at hpair
        rw [hmemory, FileLog.poll, consumer_of_get? hk', hfiles]
        exact ⟨rfl, .both rfl rfl hk (Registry.get?_set_self hk' _) hpair⟩
      · have hsome : c.topics.isEmpty = false := by simpa using htopics
        have hsome' : d.topics.isEmpty = false := pair.topics ▸ hsome
        rw [MemoryLog.poll_eq hk pair.inMemory hsome, FileLog.poll, consumer_of_get? hk',
          Consumer.poll_eq pair.inFiles hsome', hresult]
        refine ⟨?_, .both rfl rfl (Registry.get?_set_self hk _) (Registry.get?_set_self hk' _) hpair⟩
        exact congrArg (fun es => ClientAnswer.polled (.ok es)) (keyless_keyless _).symm

/-- **A step that is no late poll** has the same answer from both logs. -/
theorem Seated.agree (hseated : Seated topic course b b') (h : Ready rp topic b b')
    (haction : action.Plain) (hintime : course.gap = .missed → action.isPoll = false) :
    Agree topic course b b' action := by
  cases action with
  | create settings => exact hseated.create settings
  | subscribe names => exact hseated.subscribe haction
  | append key payload => exact hseated.append h key haction
  | poll timeout => exact hseated.poll h timeout fun hmissed => nomatch hintime hmissed

/-- **A late poll** has not. -/
theorem Seated.late (hseated : Seated topic course b b') (h : Ready rp topic b b')
    (hmissed : course.gap = .missed) (hpoll : action.isPoll = true) :
    (b.perform MemoryLog.clients topic action).1 ≠ (b'.perform FileLog.clients topic action).1 := by
  cases action with
  | create _ | subscribe _ | append _ _ => cases hpoll
  | poll timeout =>
      rw [Bench.perform, Bench.perform]
      cases hseated with
      | nobody _ _ hcourse =>
          rw [hcourse] at hmissed
          cases hmissed
      | @both k k' c d hb hb' hk hk' pair =>
          obtain ⟨hmem, hresult, hsome⟩ := pair.polled_missed hmissed h.logs.mirrored
          have htopics : c.topics.isEmpty = false := by
            rw [List.isEmpty_eq_false_iff]
            exact List.ne_nil_of_mem hmem
          have htopics' : d.topics.isEmpty = false := pair.topics ▸ htopics
          rw [hb, hb']
          dsimp only [MemoryLog.clients, FileLog.clients]
          rw [MemoryLog.poll_eq hk pair.inMemory htopics, FileLog.poll, consumer_of_get? hk',
            Consumer.poll_eq pair.inFiles htopics', hresult]
          intro hsame
          have hentries := Except.ok.inj (ClientAnswer.polled.inj hsame)
          exact hsome (List.map_eq_nil_iff.mp hentries)

end Consumers

/-! ## All steps -/

section Steps

variable {rp : Path} {topic : String} {course : Course} {b : Bench MemoryLog} {b' : Bench FileLog}
  {steps : List ClientStep}

theorem Ready.accepted (h : Ready rp topic b b') (hsteps : ∀ action ∈ steps, action.Plain) :
    (∀ a ∈ b.answers MemoryLog.clients topic steps, a.Accepted) ∧
      ∀ a ∈ b'.answers FileLog.clients topic steps, a.Accepted := by
  induction steps generalizing b b' with
  | nil => exact ⟨fun _ h => (List.not_mem_nil h).elim, fun _ h => (List.not_mem_nil h).elim⟩
  | cons action steps ih =>
      obtain ⟨hmemory, hfiles, hready⟩ := h.step (hsteps action List.mem_cons_self)
      obtain ⟨hmemory', hfiles'⟩ := ih hready fun a ha => hsteps a (List.mem_cons_of_mem action ha)
      exact ⟨List.forall_mem_cons.mpr ⟨hmemory, hmemory'⟩, List.forall_mem_cons.mpr ⟨hfiles, hfiles'⟩⟩

theorem Seated.answers (hseated : Seated topic course b b') (h : Ready rp topic b b')
    (hsteps : ∀ action ∈ steps, action.Plain) :
    b.answers MemoryLog.clients topic steps = b'.answers FileLog.clients topic steps ↔
      course.Timely topic steps := by
  induction steps generalizing course b b' with
  | nil => exact ⟨fun _ => trivial, fun _ => rfl⟩
  | cons action steps ih =>
      have haction := hsteps action List.mem_cons_self
      rw [Bench.answers, Bench.answers, Course.Timely]
      by_cases hintime : course.gap = .missed → action.isPoll = false
      · obtain ⟨hanswer, hnext⟩ := hseated.agree h haction hintime
        obtain ⟨-, -, hready⟩ := h.step haction
        have hrest := ih hnext hready fun a ha => hsteps a (List.mem_cons_of_mem action ha)
        rw [hanswer, ← hrest]
        exact ⟨fun heq => ⟨hintime, (List.cons.inj heq).2⟩, fun heq => congrArg _ heq.2⟩
      · obtain ⟨hmissed, hpoll⟩ := Classical.not_imp.mp hintime
        have hlate := hseated.late h hmissed (by simpa using hpoll)
        exact ⟨fun heq => absurd (List.cons.inj heq).1 hlate, fun heq => absurd heq.1 hintime⟩

end Steps

/-! ## What both logs answer -/

/-- A producer can be made for each of the logs. -/
theorem SameLogs.ready {rp : Path} {topic : String} {s : MemoryLog} {f : FileLog}
    (h : SameLogs rp topic s f) : ∃ p s' q f', s.createProducer = (.ok p, s') ∧
      f.createProducer = (.ok q, f') ∧ Ready rp topic ⟨s', p, none⟩ ⟨f', q, none⟩ := by
  have hmake := makeDirectories_again (isDirectory_of_find h.found)
  refine ⟨_, _, f.producers.size, { f with producers := f.producers.add .fresh }, rfl, ?_,
    ⟨h.stores, h.found, h.sound, h.nameable, h.mirrored, h.there⟩, Registry.get?_add_self _,
    .fresh, Registry.get?_add_self _, Producer.flushed_fresh _ _⟩
  rw [createProducer, hmake]

/--
**A consumer of either log.** A producer appends to partition 0 of a topic and flushes each append,
and a consumer is made, subscribes and polls, all in any order and with whatever settings. A log in
memory and a log in files that hold the same accept what is appended, and their answers are the same,
the batches entry by entry, exactly if no poll of a consumer that starts behind the entries is the
first one since it subscribed to the topic and comes after an append. So they are the same whenever
all consumers start at the first entries.
-/
theorem consumers_agree_iff_timely {rp : Path} {topic : String} {s : MemoryLog} {f : FileLog}
    (h : SameLogs rp topic s f) (settings : ClientSettings) {steps : List ClientStep}
    (hsteps : ∀ action ∈ steps, action.Plain) :
    ∃ as bs, MemoryLog.clients.answers settings topic s steps = .ok as ∧
      FileLog.clients.answers settings topic f steps = .ok bs ∧
      (∀ a ∈ as, a.Accepted) ∧ (∀ a ∈ bs, a.Accepted) ∧
      (as = bs ↔ Course.initial.Timely topic steps) ∧
      ((∀ action ∈ steps, action.Early) → as = bs) := by
  obtain ⟨p, s', q, f', hmemory, hfiles, hready⟩ := h.ready
  obtain ⟨haccepted, haccepted'⟩ := hready.accepted hsteps
  have hseated : Seated topic .initial ⟨s', p, none⟩ ⟨f', q, none⟩ := .nobody rfl rfl rfl
  have hagree := hseated.answers hready hsteps
  refine ⟨_, _, ?_, ?_, haccepted, haccepted', hagree,
    fun hearly => hagree.mpr (Course.timely_of_early rfl rfl hearly)⟩
  · rw [LogClients.answers]
    dsimp only [MemoryLog.clients]
    rw [hmemory]
  · rw [LogClients.answers]
    dsimp only [FileLog.clients]
    rw [hfiles]

/-! ## One late poll -/

/-- A log in memory with an entry on the topic. -/
def lateInMemory : MemoryLog := (MemoryLog.empty.appendRaw "t" 0 "a").2

/-- The same entry on a line of a file. -/
def lateInFiles : FileLog :=
  .ofTree ["log"] ⟨[(["log"], .directory), (["log", "t"], .directory),
    (["log", "t", "0.log"], .file 0)], Registry.empty.add (ended [utf8 "a"])⟩

theorem sameLogs_late : SameLogs ["log"] "t" lateInMemory lateInFiles := by
  have hroot : lateInFiles.files.find ["log"] = .ok (["log"], .directory) := rfl
  refine ⟨rfl, hroot, sound_of_listed (by decide), ⟨by decide, by decide⟩, fun name hname => ?_, _,
    rfl⟩
  by_cases hother : name = "t"
  · subst hother
    have hentry : ∀ (p : Nat) es, lateInMemory.topics.entries? "t" p = some es →
        p = 0 ∧ es = [⟨none, "a"⟩] := by
      intro p es hes
      match p with
      | 0 => exact ⟨rfl, (Option.some.inj hes).symm⟩
      | p + 1 => cases hes
    refine ⟨by decide +kernel, fun p es hes => ?_, fun p es hes => ?_⟩
    · obtain ⟨rfl, rfl⟩ := hentry p es hes
      rfl
    · obtain ⟨rfl, rfl⟩ := hentry p es hes
      intro e he
      rw [List.mem_singleton.mp he]
      decide
  · have hapart : "t" ≠ name := fun h => hother h.symm
    refine mirrored_absent hroot hname ?_ ?_
    · simp [lateInFiles, ofTree, Assoc.get?, hapart]
    · exact if_neg hapart

/-- A consumer of the default settings subscribes, and polls after an entry was appended. -/
def lateSteps : List ClientStep := [.create ⟨.empty⟩, .subscribe ["t"], .append none "b", .poll 0]

/-- The theorem at these steps, of which the logs tell different batches. -/
theorem consumers_agree_iff_timely_lateSteps : ∃ as bs,
    MemoryLog.clients.answers ⟨.empty⟩ "t" lateInMemory lateSteps = .ok as ∧
      FileLog.clients.answers ⟨.empty⟩ "t" lateInFiles lateSteps = .ok bs ∧
      as.getLast? = some (.polled (.ok [⟨"t", 0, 1, none, "b"⟩])) ∧
      bs.getLast? = some (.polled (.ok [])) ∧ as ≠ bs := by
  have hsubscribe : (ClientStep.subscribe ["t"]).Plain := by
    intro name hname
    rw [List.mem_singleton.mp hname]
    exact ⟨by decide, by decide⟩
  have happend : (ClientStep.append none "b").Plain := show '\n' ∉ "b".toList by decide
  have hsteps : ∀ action ∈ lateSteps, action.Plain := by
    simp only [lateSteps, List.forall_mem_cons]
    exact ⟨trivial, hsubscribe, happend, trivial, fun _ h => (List.not_mem_nil h).elim⟩
  obtain ⟨as, bs, has, hbs, -, -, hagree, -⟩ :=
    consumers_agree_iff_timely sameLogs_late ⟨.empty⟩ hsteps
  have hlate : ¬Course.initial.Timely "t" lateSteps := by decide
  refine ⟨as, bs, has, hbs, ?_, ?_, fun heq => hlate (hagree.mp heq)⟩
  · cases has.symm.trans (show _ = Except.ok _ from rfl)
    decide +kernel
  · cases hbs.symm.trans (show _ = Except.ok _ from rfl)
    decide +kernel

end SchemaHistory
