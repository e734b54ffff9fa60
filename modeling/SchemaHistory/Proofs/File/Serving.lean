import Mathlib.Data.List.Nodup
import SchemaHistory.Proofs.File.Session

/-!
# Serving a topic in files

A topic in files may have several partitions. While nobody writes, what a consumer has before it
is one list, the lines of the partitions in the order of their numbers: a poll hands over the
first of them and leaves the others. The induction is over the partitions, each of which the
consumer reads from a place of its own. No partition is listed twice, so reading one moves no
other place. A topic of which only the partition of histories is there is a case of this: then
the list is what a new consumer has not read of its lines.
-/

namespace SchemaHistory.FileLog

open FileTree Text

/-! ## What is before a consumer -/

/-- The bytes of the file under a path; one that cannot be read has none. -/
def bytesAt (t : FileTree) (path : Path) : Bytes := (t.read path).toOption.getD []

theorem bytesAt_eq {t : FileTree} {path : Path} {bs : Bytes} (h : t.read path = .ok bs) :
    bytesAt t path = bs := by
  rw [bytesAt, h]
  rfl

/-- What a consumer with these cursors has before it in one partition. -/
def aheadIn (o : ConsumerOptions) (t : FileTree) (topic : String) (cursors : Cursors)
    (p : Int × Path) : List Entry :=
  let start := Fetch.startIn o cursors (topic, p.1) (bytesAt t p.2)
  entriesOf topic p.1 start.offset (linesIn ((bytesAt t p.2).drop start.byte))

/-- What a consumer with these cursors has before it in some partitions. -/
def ahead (o : ConsumerOptions) (t : FileTree) (topic : String) (cursors : Cursors)
    (ps : List (Int × Path)) : List Entry := ps.flatMap (aheadIn o t topic cursors)

/-- All entries of some partitions. -/
def allOf (t : FileTree) (topic : String) (ps : List (Int × Path)) : List Entry :=
  ps.flatMap fun p => entriesOf topic p.1 0 (linesIn (bytesAt t p.2))

section Poll

variable {o : ConsumerOptions} {t : FileTree} {topic : String}

theorem aheadIn_congr {cursors cursors' : Cursors} {p : Int × Path}
    (h : Assoc.get? cursors (topic, p.1) = Assoc.get? cursors' (topic, p.1)) :
    aheadIn o t topic cursors p = aheadIn o t topic cursors' p := by
  rw [aheadIn, aheadIn, Fetch.startIn, Fetch.startIn, h]

namespace Fetch

/-- The poll has not failed, and if it does not go on it has enough. -/
def Fine (o : ConsumerOptions) (f : Fetch) : Prop :=
  f.entries.length ≤ o.limit ∧
    (f.verdict = .goOn ∨ (f.verdict = .full ∧ f.entries.length = o.limit))

/-- A poll that has enough takes nothing more. -/
theorem readPartition_enough {f : Fetch} (hfine : f.Fine o) (henough : f.entries.length = o.limit)
    (topic : String) (p : Int × Path) :
    (f.readPartition o t topic p).verdict = .full ∧
      (f.readPartition o t topic p).entries = f.entries ∧
      (f.readPartition o t topic p).cursors = f.cursors := by
  rcases hfine.2 with hgo | ⟨hfull, -⟩
  · rw [readPartition, hgo]
    dsimp only
    rw [if_pos (Nat.le_of_eq henough.symm)]
    exact ⟨rfl, rfl, rfl⟩
  · rw [readPartition, hfull]
    dsimp only
    exact ⟨hfull, rfl, rfl⟩

/-- **Reading one partition** adds the first entries before the consumer there, as many as there is
room for, and leaves the others; where it stands in other partitions stays as it is. -/
theorem readPartition_ahead (topic : String) {f : Fetch} (hfine : f.Fine o) {p : Int × Path}
    {bs : Bytes} (hread : t.read p.2 = .ok bs) :
    (f.readPartition o t topic p).Fine o ∧
      (f.readPartition o t topic p).entries =
        f.entries ++ (aheadIn o t topic f.cursors p).take (o.limit - f.entries.length) ∧
      aheadIn o t topic (f.readPartition o t topic p).cursors p =
        (aheadIn o t topic f.cursors p).drop (o.limit - f.entries.length) ∧
      ∀ n, n ≠ p.1 → Assoc.get? (f.readPartition o t topic p).cursors (topic, n) =
        Assoc.get? f.cursors (topic, n) := by
  by_cases henough : f.entries.length = o.limit
  · have hleft : o.limit - f.entries.length = 0 := by omega
    obtain ⟨hfull, hentries, hcursors⟩ := readPartition_enough hfine henough topic p
    refine ⟨⟨?_, .inr ⟨hfull, ?_⟩⟩, ?_, ?_, fun n _ => by rw [hcursors]⟩
    · rw [hentries]
      exact hfine.1
    · rw [hentries]
      exact henough
    · rw [hentries, hleft, List.take_zero, List.append_nil]
    · rw [hcursors, hleft, List.drop_zero]
  · obtain ⟨hroom, hverdict⟩ := hfine
    obtain ⟨number, path⟩ := p
    have hgo : f.verdict = .goOn := by
      rcases hverdict with hgo | ⟨-, hfull⟩
      · exact hgo
      · exact absurd hfull henough
    have hsome : f.entries.length < o.limit := Nat.lt_of_le_of_ne hroom henough
    have hbytes : bytesAt t path = bs := bytesAt_eq hread
    rw [readPartition_taken hgo hsome hread, taken]
    dsimp only
    rw [aheadIn]
    dsimp only
    rw [hbytes, lines_readFrom, ← take_entriesOf]
    refine ⟨⟨?_, .inl hgo⟩, rfl, ?_, fun n hn => ?_⟩
    · dsimp only
      rw [List.length_append, List.length_take]
      omega
    · rw [aheadIn]
      dsimp only
      rw [hbytes, startIn, Assoc.get?_put, if_pos rfl, Option.getD_some, linesIn_readFrom,
        drop_entriesOf, readFrom_cursor, lines_readFrom]
    · rw [Assoc.get?_put, if_neg]
      intro heq
      exact hn (Prod.mk.inj heq).2.symm

/-- **Going through partitions** adds the first entries before the consumer in all of them. -/
theorem foldl_readPartition_ahead (topic : String) {ps : List (Int × Path)}
    (hread : ∀ p ∈ ps, ∃ bs, t.read p.2 = .ok bs) (hapart : (ps.map Prod.fst).Nodup) {f : Fetch}
    (hfine : f.Fine o) :
    (ps.foldl (readPartition o t topic) f).Fine o ∧
      (ps.foldl (readPartition o t topic) f).entries =
        f.entries ++ (ahead o t topic f.cursors ps).take (o.limit - f.entries.length) ∧
      ahead o t topic (ps.foldl (readPartition o t topic) f).cursors ps =
        (ahead o t topic f.cursors ps).drop (o.limit - f.entries.length) ∧
      ∀ n, n ∉ ps.map Prod.fst → Assoc.get? (ps.foldl (readPartition o t topic) f).cursors
        (topic, n) = Assoc.get? f.cursors (topic, n) := by
  induction ps generalizing f with
  | nil => exact ⟨hfine, by simp [ahead], by simp [ahead], fun _ _ => rfl⟩
  | cons p ps ih =>
      obtain ⟨bs, hbs⟩ := hread p List.mem_cons_self
      rw [List.map_cons, List.nodup_cons] at hapart
      obtain ⟨hp, hapart⟩ := hapart
      obtain ⟨hfine', hentries, hbehind, hothers⟩ := readPartition_ahead topic hfine hbs
      obtain ⟨hfine'', hrest, hahead, hlater⟩ :=
        ih (fun q hq => hread q (List.mem_cons_of_mem _ hq)) hapart hfine'
      -- the partitions behind are where they were, and reading them leaves this one alone
      have hunmoved : ahead o t topic (f.readPartition o t topic p).cursors ps =
          ahead o t topic f.cursors ps := by
        refine List.flatMap_congr fun q hq => aheadIn_congr (hothers q.1 ?_)
        rintro heq
        exact hp (heq ▸ List.mem_map_of_mem hq)
      have hlength := congrArg List.length hentries
      rw [List.length_append, List.length_take] at hlength
      have hleft : o.limit - (f.readPartition o t topic p).entries.length =
          o.limit - f.entries.length - (aheadIn o t topic f.cursors p).length := by
        have := hfine.1
        omega
      rw [hunmoved, hleft] at hrest hahead
      rw [List.foldl_cons]
      refine ⟨hfine'', ?_, ?_, fun n hn => ?_⟩
      · rw [hrest, hentries, ahead, ahead, List.flatMap_cons, List.take_append, List.append_assoc]
      · rw [ahead, List.flatMap_cons, aheadIn_congr (hlater p.1 hp), hbehind]
        rw [ahead] at hahead
        rw [hahead, ahead, ahead, List.flatMap_cons, List.drop_append]
      · rw [List.map_cons, List.mem_cons, not_or] at hn
        rw [hlater n hn.2, hothers n hn.1]

end Fetch

/-! ## Where a new consumer starts -/

theorem ahead_earliest (hstart : o.start = .earliest) (ps : List (Int × Path)) :
    ahead o t topic [] ps = allOf t topic ps := by
  refine List.flatMap_congr fun p _ => ?_
  have hzero : Fetch.startIn o [] (topic, p.1) (bytesAt t p.2) = .zero := by
    rw [Fetch.startIn, hstart]
    rfl
  rw [aheadIn, hzero]
  rfl

theorem ahead_latest (hstart : o.start = .latest) (ps : List (Int × Path)) :
    ahead o t topic [] ps = [] := by
  refine List.flatMap_eq_nil_iff.mpr fun p _ => ?_
  obtain ⟨tail, hlined⟩ := lined_linesIn (bytesAt t p.2)
  have hend : Fetch.startIn o [] (topic, p.1) (bytesAt t p.2) =
      behindLines (linesIn (bytesAt t p.2)) := by
    rw [Fetch.startIn, hstart]
    exact hlined.endOf_eq
  have hnothing : (bytesAt t p.2).drop (behindLines (linesIn (bytesAt t p.2))).byte = tail := by
    conv => lhs; arg 2; rw [hlined.split]
    exact List.drop_left
  rw [aheadIn, hend, hnothing, linesIn_eq_nil.mpr hlined.tail, entriesOf_nil]

end Poll

/-! ## Topics that can be read -/

/-- Each partition of the topic that is listed can be read, and none is listed twice. -/
structure Legible (root : Path) (t : FileTree) (topic : String) : Prop where
  read : ∀ ps, partitions root topic t = .ok ps → ∀ p ∈ ps, ∃ bs, t.read p.2 = .ok bs
  /-- No number is listed twice. -/
  apart : ∀ ps, partitions root topic t = .ok ps → (ps.map Prod.fst).Nodup

section Seen

variable {root : Path} {t : FileTree} {topic : String} {bs : Bytes}

theorem Seen.legible (h : Seen t root topic bs) : Legible root t topic := by
  rcases h with ⟨hpartitions, hread⟩ | ⟨hnone | ⟨e, hfailed⟩, -⟩
  · refine ⟨fun ps hps p hp => ?_, fun ps hps => ?_⟩
    · cases hpartitions.symm.trans hps
      -- what is listed is the partition of histories alone
      cases List.mem_singleton.mp hp
      exact ⟨bs, hread⟩
    · cases hpartitions.symm.trans hps
      exact List.nodup_singleton _
  · refine ⟨fun ps hps p hp => ?_, fun ps hps => ?_⟩
    · cases hnone.symm.trans hps
      cases hp
    · cases hnone.symm.trans hps
      exact List.nodup_nil
  · refine ⟨fun ps hps => ?_, fun ps hps => ?_⟩
    · cases hfailed.symm.trans hps
    · cases hfailed.symm.trans hps

end Seen

/-! ## Serving a topic -/

/-- What a consumer of a topic has before it; a topic that cannot be listed has nothing. -/
def Before (root : Path) (t : FileTree) (topic : String) (c : Consumer) (xs : List Entry) : Prop :=
  (∃ ps, partitions root topic t = .ok ps ∧ xs = ahead c.options t topic c.cursors ps) ∨
    ((∃ e, partitions root topic t = .error e) ∧ xs = [])

/-- The consumer `k` reads the topic, and `xs` is what it has before it in all partitions. -/
structure Reading (root : Path) (t : FileTree) (topic : String) (k : ConsumerId) (m : Nat)
    (xs : List Entry) (w : World FileLog) : Prop where
  atRoot : w.log.root = root
  files : w.log.files = t
  /-- The consumer is there, open, and told the topic. -/
  consumer : ∃ c, w.log.consumers.get? k = some c ∧ c.closed = false ∧ c.topics = [topic] ∧
    c.options.limit = m ∧ Before root t topic c xs

/-- **A poll hands over the first entries before the consumer**, as many as the limit allows. -/
theorem Consumer.poll_before {root : Path} {t : FileTree} {topic : String} {c : Consumer}
    {xs : List Entry} (hlegible : Legible root t topic) (hopen : c.closed = false)
    (htopics : c.topics = [topic]) (h : Before root t topic c xs) :
    Replay.entriesOf (c.poll root t).1 = xs.take c.options.limit ∧
      (c.poll root t).2.closed = false ∧ (c.poll root t).2.topics = [topic] ∧
      (c.poll root t).2.options = c.options ∧
      Before root t topic (c.poll root t).2 (xs.drop c.options.limit) := by
  rw [Consumer.poll_topic hopen htopics, Fetch.readTopic]
  dsimp only
  rcases h with ⟨ps, hps, rfl⟩ | ⟨⟨e, he⟩, rfl⟩
  · obtain ⟨hfine, hentries, hahead, -⟩ := Fetch.foldl_readPartition_ahead topic
      (hlegible.read ps hps) (hlegible.apart ps hps) (show Fetch.Fine c.options ⟨[], c.cursors, .goOn⟩ from ⟨Nat.zero_le _, .inl rfl⟩)
    rw [hps]
    dsimp only at hentries hahead ⊢
    rw [List.nil_append, List.length_nil, Nat.sub_zero] at hentries
    rw [List.length_nil, Nat.sub_zero] at hahead
    refine ⟨?_, hopen, htopics, rfl, .inl ⟨ps, hps, hahead.symm⟩⟩
    rw [← hentries, Fetch.result]
    rcases hfine.2 with hgo | ⟨hfull, -⟩
    · rw [hgo]
      rfl
    · rw [hfull]
      rfl
  · rw [he]
    exact ⟨List.take_nil.symm, hopen, htopics, rfl, .inr ⟨⟨e, he⟩, List.drop_nil⟩⟩

/-- A consumer is served all partitions, while nobody else acts. -/
theorem serves {root : Path} {t : FileTree} {topic : String} (hlegible : Legible root t topic)
    (k : ConsumerId) (m timeout : Nat) :
    Serves (host.poll k timeout) m (Reading root t topic k m) := by
  intro xs w h
  obtain ⟨rfl, rfl, c, hc, hopen, htopics, rfl, hbefore⟩ := h
  have hconsumer : w.log.consumer k = c := by
    rw [FileLog.consumer, hc]
    rfl
  obtain ⟨hentries, hopen', htopics', hoptions, hbefore'⟩ :=
    Consumer.poll_before hlegible hopen htopics hbefore
  have hpoll : host.poll k timeout w = ((c.poll w.log.root w.log.files).1,
      { w with log := { w.log with
        consumers := w.log.consumers.set k (c.poll w.log.root w.log.files).2 } }) := by
    show World.onLog (FileLog.poll k) w = _
    rw [World.onLog, FileLog.poll, hconsumer]
  rw [hpoll]
  exact ⟨hentries, rfl, rfl, _, Registry.get?_set_self hc _, hopen', htopics', by rw [hoptions],
    hbefore'⟩

/-- What a new consumer of a topic has before it: everything or nothing. -/
def toRead (o : ConsumerOptions) (root : Path) (t : FileTree) (topic : String) : List Entry :=
  match partitions root topic t, o.start with
  | .ok ps, .earliest => allOf t topic ps
  | _, _ => []

/-- Where only the partition of histories is there, it is what the settings leave of its lines. -/
theorem Seen.toRead_eq {root : Path} {t : FileTree} {topic : String} {bs : Bytes}
    (h : Seen t root topic bs) {lines : List Bytes} {tail : Bytes} (hlined : Lined bs lines tail)
    (o : ConsumerOptions) : toRead o root t topic = entriesOf topic historyPartition
      (o.first lines.length) (lines.drop (o.first lines.length)) := by
  rw [toRead, ConsumerOptions.first]
  cases o.start with
  | latest =>
      rw [List.drop_length, entriesOf_nil]
      cases partitions root topic t <;> rfl
  | earliest =>
      rw [List.drop_zero, ← hlined.linesIn_eq]
      -- a topic that lists nothing, or cannot be listed, has no bytes and so no lines
      rcases h with ⟨hpartitions, hread⟩ | ⟨hnone | ⟨e, hfailed⟩, rfl⟩
      · rw [hpartitions]
        show allOf t topic [_] = _
        rw [allOf, List.flatMap_singleton, bytesAt_eq hread]
      · rw [hnone]
        rfl
      · rw [hfailed]
        rfl

/-- A new consumer that is told a topic. -/
theorem told {topic : String} (hlegal : isTopicName topic = true) (w : World FileLog)
    {settings : ClientSettings} {o : ConsumerOptions}
    (ho : ConsumerOptions.ofSettings settings = .ok o) : ∃ k w₁ w₂,
      host.createConsumer settings w = (.ok k, w₁) ∧ host.subscribe k [topic] w₁ = (.ok (), w₂) ∧
      w₂.log.root = w.log.root ∧ w₂.log.files = w.log.files ∧
      w₂.log.consumers.get? k = some ⟨o, [topic], [], false⟩ := by
  have hcreate : host.createConsumer settings w = (.ok w.log.consumers.size,
      { w with log := { w.log with consumers := w.log.consumers.add ⟨o, [], [], false⟩ } }) := by
    show World.onLog (FileLog.createConsumer settings) w = _
    rw [World.onLog, FileLog.createConsumer, ho]
  have hget := Registry.get?_add_self (r := w.log.consumers) (⟨o, [], [], false⟩ : FileLog.Consumer)
  have hsubscribe : host.subscribe w.log.consumers.size [topic]
      { w with log := { w.log with consumers := w.log.consumers.add ⟨o, [], [], false⟩ } } =
      (.ok (), { w with log := { w.log with
        consumers := (w.log.consumers.add ⟨o, [], [], false⟩).set w.log.consumers.size
          ⟨o, [topic], [], false⟩ } }) := by
    show World.onLog (FileLog.subscribe w.log.consumers.size [topic]) _ = _
    rw [World.onLog, FileLog.subscribe, FileLog.consumer, hget, Option.getD_some,
      Consumer.subscribe, if_neg (by simp), List.mapM_cons, topicPath_eq hlegal]
    rfl
  exact ⟨_, _, _, hcreate, hsubscribe, rfl, rfl, Registry.get?_set_self hget _⟩

/-- A new consumer that is told a topic starts to read it where its settings say. -/
theorem begins {topic : String} (hlegal : isTopicName topic = true) (w : World FileLog)
    {settings : ClientSettings} {o : ConsumerOptions}
    (ho : ConsumerOptions.ofSettings settings = .ok o) : ∃ k w₁ w₂,
      host.createConsumer settings w = (.ok k, w₁) ∧ host.subscribe k [topic] w₁ = (.ok (), w₂) ∧
      Reading w.log.root w.log.files topic k o.limit (toRead o w.log.root w.log.files topic)
        w₂ := by
  obtain ⟨k, w₁, w₂, hcreate, hsubscribe, hroot, hfiles, hget⟩ := told hlegal w ho
  refine ⟨k, w₁, w₂, hcreate, hsubscribe, hroot, hfiles, _, hget, rfl, rfl, rfl, ?_⟩
  -- it has no cursors yet, so only its settings decide
  rw [toRead]
  cases hps : partitions w.log.root topic w.log.files with
  | error e => exact .inr ⟨⟨e, hps⟩, rfl⟩
  | ok ps =>
      refine .inl ⟨ps, hps, ?_⟩
      cases hstart : o.start with
      | earliest => exact (ahead_earliest hstart ps).symm
      | latest => exact (ahead_latest hstart ps).symm

/-! ## Recoveries -/

/-- **A recovery reads all partitions** of the topic, or none of their lines. -/
theorem recovers (w : World FileLog) {h : History}
    (hlegal : isTopicName h.settings.topic = true)
    (hlegible : Legible w.log.root w.log.files h.settings.topic) {o : ConsumerOptions}
    (ho : ConsumerOptions.ofSettings h.settings.consumer = .ok o)
    (hattempts : 0 < h.settings.attempts) {limit : Nat}
    (hlimit : Replay.batches (toRead o w.log.root w.log.files h.settings.topic).length o.limit +
      h.settings.attempts ≤ limit) : ∃ events w',
      h.recover host limit w = some (.ok (.ofReadings h.settings.attempts o.limit
        ((toRead o w.log.root w.log.files h.settings.topic).map Entry.record?)), events, w') := by
  obtain ⟨k, w₁, w₂, hcreate, hsubscribe, hreading⟩ := begins hlegal w ho
  obtain ⟨events, s', -, hrecover⟩ := History.recover_serves hcreate hsubscribe
    (serves hlegible k o.limit h.settings.pollInterval) (limit_pos ho) hattempts hreading hlimit
  exact ⟨events, _, hrecover⟩

/-- So it reads the lines where only the partition of histories is there; each of them holds a
record or none. -/
theorem recovers_seen {root : Path} {topic : String} {bs : Bytes} {lines : List Bytes}
    {tail : Bytes} {w : World FileLog} (hroot : w.log.root = root) (hlegal : isTopicName topic = true)
    (hseen : Seen w.log.files root topic bs) (hlined : Lined bs lines tail) {h : History}
    (htopic : h.settings.topic = topic) {m limit : Nat}
    (hoptions : ConsumerOptions.ofSettings h.settings.consumer = .ok ⟨m, .earliest⟩)
    (hattempts : 0 < h.settings.attempts)
    (hlimit : Replay.batches lines.length m + h.settings.attempts ≤ limit) :
    ∃ events w', h.recover host limit w =
      some (.ok (.ofReadings h.settings.attempts m (lines.map Record.ofLine)), events, w') := by
  subst hroot htopic
  have htoRead := hseen.toRead_eq hlined ⟨m, .earliest⟩
  rw [ConsumerOptions.first, List.drop_zero] at htoRead
  have hlength : (toRead ⟨m, .earliest⟩ w.log.root w.log.files h.settings.topic).length =
      lines.length := by
    rw [htoRead, length_entriesOf]
  obtain ⟨events, w', hrecover⟩ :=
    recovers w hlegal hseen.legible hoptions hattempts (hlength ▸ hlimit)
  rw [htoRead, records_entriesOf] at hrecover
  exact ⟨events, w', hrecover⟩

end SchemaHistory.FileLog
