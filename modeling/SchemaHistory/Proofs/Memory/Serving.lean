import SchemaHistory.Proofs.Memory.Run

/-!
# Serving a topic in memory

A topic may have several partitions, each with entries of its own. What a new consumer has
before it is then all of them, partition after partition, or nothing: which of the two is up to
its settings. It is served that list as one, so a recovery reads all of the topic or nothing of
what is there. A topic of which only partition 0 is written is a case of this.
-/

namespace SchemaHistory

namespace MemoryConsumer

variable {o : ConsumerOptions} {topic : String}

/-! ## Where a new consumer starts -/

/-- All entries of partitions of which the first has the number `p`. -/
def allFrom (topic : String) : Nat → List (List Stored) → List Entry
  | _, [] => []
  | p, es :: rest => handOver topic p 0 es ++ allFrom topic (p + 1) rest

theorem ahead_earliest (hstart : o.start = .earliest) (p : Nat) (ps : List (List Stored)) :
    ahead o topic [] p ps = allFrom topic p ps := by
  induction ps generalizing p with
  | nil => rfl
  | cons es ps ih =>
      have hposition : positionIn o topic [] p es = 0 := by
        rw [positionIn, Assoc.get?, Option.getD_none, ConsumerOptions.first, hstart]
      rw [ahead, allFrom, ih, aheadIn, hposition, List.drop_zero]

theorem ahead_latest (hstart : o.start = .latest) {positions : Positions} (p : Nat)
    (ps : List (List Stored)) (h : ∀ i es, ps[i]? = some es →
      (Assoc.get? positions (topic, p + i)).getD es.length = es.length) :
    ahead o topic positions p ps = [] := by
  induction ps generalizing p with
  | nil => rfl
  | cons es ps ih =>
      have hposition : positionIn o topic positions p es = es.length := by
        rw [positionIn, ConsumerOptions.first, hstart]
        exact h 0 es rfl
      have hrest : ahead o topic positions (p + 1) ps = [] := by
        refine ih (p + 1) fun i es' hes' => ?_
        rw [Nat.add_assoc, Nat.add_comm 1 i]
        exact h (i + 1) es' hes'
      rw [ahead, hrest, aheadIn, hposition, List.drop_length]
      rfl

/-- What a new consumer of a topic has before it: everything or nothing. -/
def toRead (o : ConsumerOptions) (topic : String) (ps : List (List Stored)) : List Entry :=
  match o.start with
  | .earliest => allFrom topic 0 ps
  | .latest => []

theorem ahead_subscribe {c : MemoryConsumer} {t : Topics} {ps : List (List Stored)}
    (hps : (Assoc.get? t topic).getD [] = ps) :
    ahead c.options topic (c.subscribe t [topic]).positions 0 ps = toRead c.options topic ps := by
  rw [subscribe, toRead]
  cases hstart : c.options.start with
  | earliest => exact ahead_earliest hstart 0 ps
  | latest => exact ahead_latest hstart 0 ps (getD_endPositions hps)

/-- Where partition 0 is all that is written, it is what the settings leave of its entries. -/
theorem toRead_holds {t : Topics} {es : List Stored} (ht : t.Holds topic es)
    (o : ConsumerOptions) : toRead o topic ((Assoc.get? t topic).getD []) =
      handOver topic 0 (o.first es.length) (es.drop (o.first es.length)) := by
  -- what a new consumer has before it, computed in two ways
  have hposition := position_subscribe (c := ⟨o, [], [], false⟩) ht
  have hahead := ahead_holds ht ((⟨o, [], [], false⟩ : MemoryConsumer).subscribe t [topic])
  rw [unread, hposition] at hahead
  exact (ahead_subscribe (c := ⟨o, [], [], false⟩) rfl).symm.trans hahead

end MemoryConsumer

namespace MemoryLog

open MemoryConsumer

variable {s : MemoryLog} {k : ConsumerId} {c : MemoryConsumer}

/-- A log that a consumer has polled. -/
def polled (s : MemoryLog) (k : ConsumerId) (c : MemoryConsumer) : MemoryLog :=
  { s with consumers := s.consumers.set k { c with positions := (c.fetch s.topics).positions } }

theorem poll_eq (hc : s.consumers.get? k = some c) (hopen : c.closed = false)
    (htopics : c.topics.isEmpty = false) :
    s.poll k = (.ok (c.fetch s.topics).entries, s.polled k c) := by
  rw [poll, hc]
  dsimp only
  rw [if_neg (ne_true_of_eq_false hopen), if_neg (ne_true_of_eq_false htopics)]
  rfl

theorem subscribe_eq {topics : List String} (hc : s.consumers.get? k = some c)
    (hopen : c.closed = false) : s.subscribe k topics =
      (.ok (), { s with consumers := s.consumers.set k (c.subscribe s.topics topics) }) := by
  rw [subscribe, hc]
  dsimp only
  rw [if_neg (ne_true_of_eq_false hopen)]

/-- A log with a new consumer. -/
def withConsumer (s : MemoryLog) (o : ConsumerOptions) : MemoryLog :=
  { s with
    consumers := s.consumers.add ⟨o, [], [], false⟩
    openConsumers := s.openConsumers + 1 }

theorem createConsumer_eq {settings : ClientSettings} {o : ConsumerOptions}
    (ho : ConsumerOptions.ofSettings settings = .ok o) :
    s.createConsumer settings = (.ok s.consumers.size, s.withConsumer o) := by
  rw [createConsumer, ho]
  rfl

/-- A new consumer that is told a topic. -/
theorem told (topic : String) (w : World MemoryLog) {settings : ClientSettings}
    {o : ConsumerOptions} (ho : ConsumerOptions.ofSettings settings = .ok o) : ∃ k w₁ w₂,
      MemoryRun.host.createConsumer settings w = (.ok k, w₁) ∧
      MemoryRun.host.subscribe k [topic] w₁ = (.ok (), w₂) ∧ w₂.log.topics = w.log.topics ∧
      w₂.log.consumers.get? k =
        some ((⟨o, [], [], false⟩ : MemoryConsumer).subscribe w.log.topics [topic]) := by
  have hcreate : MemoryRun.host.createConsumer settings w =
      (.ok w.log.consumers.size, { w with log := w.log.withConsumer o }) := by
    show World.onLog (MemoryLog.createConsumer settings) w = _
    rw [World.onLog, createConsumer_eq ho]
  have hc : (w.log.withConsumer o).consumers.get? w.log.consumers.size =
      some ⟨o, [], [], false⟩ := Registry.get?_add_self _
  have hsubscribe : MemoryRun.host.subscribe w.log.consumers.size [topic]
      { w with log := w.log.withConsumer o } = (.ok (), { w with
        log := { w.log.withConsumer o with
          consumers := (w.log.withConsumer o).consumers.set w.log.consumers.size
            ((⟨o, [], [], false⟩ : MemoryConsumer).subscribe w.log.topics [topic]) } }) := by
    show World.onLog (MemoryLog.subscribe w.log.consumers.size [topic]) _ = _
    rw [World.onLog, subscribe_eq hc rfl]
    rfl
  exact ⟨_, _, _, hcreate, hsubscribe, rfl, Registry.get?_set_self hc _⟩

/-- The consumer `k` reads the topic, which has the partitions `ps`, and `xs` is what it has before
it in all of them. -/
structure Reading (topic : String) (k : ConsumerId) (m : Nat) (ps : List (List Stored))
    (xs : List Entry) (w : World MemoryLog) : Prop where
  partitions : (Assoc.get? w.log.topics topic).getD [] = ps
  /-- The consumer is there, open, and told the topic. -/
  consumer : ∃ c, w.log.consumers.get? k = some c ∧ c.closed = false ∧ c.topics = [topic] ∧
    c.options.limit = m ∧ xs = ahead c.options topic c.positions 0 ps

/-- A consumer is served all partitions, while nobody else acts. -/
theorem serves (topic : String) (k : ConsumerId) (m timeout : Nat) (ps : List (List Stored)) :
    Serves (MemoryRun.host.poll k timeout) m (Reading topic k m ps) := by
  intro xs w h
  obtain ⟨hps, c, hc, hopen, htopics, rfl, rfl⟩ := h
  obtain ⟨hentries, hahead⟩ := fetch_ahead htopics hps
  have hpoll : MemoryRun.host.poll k timeout w =
      (.ok (c.fetch w.log.topics).entries, { w with log := w.log.polled k c }) := by
    show World.onLog (MemoryLog.poll k) w = _
    rw [World.onLog, poll_eq hc hopen (by rw [htopics]; rfl)]
  rw [hpoll]
  exact ⟨hentries, hps, _, Registry.get?_set_self hc _, hopen, htopics, rfl, hahead.symm⟩

/-- A new consumer that is told a topic starts to read it where its settings say. -/
theorem begins (topic : String) (w : World MemoryLog) {settings : ClientSettings}
    {o : ConsumerOptions} (ho : ConsumerOptions.ofSettings settings = .ok o) : ∃ k w₁ w₂,
      MemoryRun.host.createConsumer settings w = (.ok k, w₁) ∧
      MemoryRun.host.subscribe k [topic] w₁ = (.ok (), w₂) ∧
      Reading topic k o.limit ((Assoc.get? w.log.topics topic).getD [])
        (toRead o topic ((Assoc.get? w.log.topics topic).getD [])) w₂ := by
  obtain ⟨k, w₁, w₂, hcreate, hsubscribe, htopics, hget⟩ := told topic w ho
  exact ⟨k, w₁, w₂, hcreate, hsubscribe, by rw [htopics], _, hget, rfl, rfl, rfl,
    (ahead_subscribe (c := ⟨o, [], [], false⟩) rfl).symm⟩

/-- **A recovery reads all partitions** of the topic, or none of their entries. -/
theorem recovers (w : World MemoryLog) {h : History} {o : ConsumerOptions}
    (ho : ConsumerOptions.ofSettings h.settings.consumer = .ok o)
    (hattempts : 0 < h.settings.attempts) {limit : Nat}
    (hlimit : Replay.batches (toRead o h.settings.topic
      ((Assoc.get? w.log.topics h.settings.topic).getD [])).length o.limit +
        h.settings.attempts ≤ limit) : ∃ events w',
      h.recover MemoryRun.host limit w = some (.ok (.ofReadings h.settings.attempts o.limit
        ((toRead o h.settings.topic
          ((Assoc.get? w.log.topics h.settings.topic).getD [])).map Entry.record?)), events, w') := by
  obtain ⟨k, w₁, w₂, hcreate, hsubscribe, hreading⟩ := begins h.settings.topic w ho
  obtain ⟨events, s', -, hrecover⟩ := History.recover_serves hcreate hsubscribe
    (serves h.settings.topic k o.limit h.settings.pollInterval _) (limit_pos ho) hattempts
    hreading hlimit
  exact ⟨events, _, hrecover⟩

end MemoryLog

end SchemaHistory
