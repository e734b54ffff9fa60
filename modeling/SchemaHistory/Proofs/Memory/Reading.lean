import SchemaHistory.Proofs.Memory.Recovery
import SchemaHistory.Proofs.Memory.Visits

/-!
# Reading a log in memory

A consumer polls, and is told its topics anew, while anybody else calls the log: topics are made,
entries are appended, other consumers come and go. Where the consumer stands in each partition is
all that ties what it was handed to what the log holds, and no call of anybody else touches that.

A poll that waits looks at the topics again and again until it finds something or its time is
over. So it is a number of polls with the calls of others between them, of which all but the last
hand over nothing, and what holds for polls in any order holds for it.
-/

namespace SchemaHistory

namespace MemoryLog

open MemoryConsumer

/-! ## A poll that waits -/

/-- **A poll that waits** is a poll that finds nothing, what others call in the meantime, and another
poll. -/
theorem poll_busy {w : World MemoryLog} {k : ConsumerId} (hnothing : (w.log.poll k).1 = .ok [])
    {timeout : Nat} (htimeout : 0 < timeout) (others : List MemoryCall) :
    (Host.busy clients.host).poll k timeout ⟨w, some fun w => { w with log := w.log.exec others }⟩ =
      (((w.log.exec (.poll k :: others)).poll k).1,
        ⟨{ w with log := w.log.exec (.poll k :: others ++ [.poll k]) }, none⟩) := by
  have hfirst : Busy.onState (clients.host.poll k timeout)
      ⟨w, some fun w => { w with log := w.log.exec others }⟩ =
        (.ok [], ⟨{ w with log := w.log.call (.poll k) },
          some fun w => { w with log := w.log.exec others }⟩) := by
    rw [← hnothing]
    rfl
  have hwaits : ¬ (timeout = 0 ∨ (some fun w : World MemoryLog =>
      { w with log := w.log.exec others }).isNone = true) := by
    rintro (hzero | hnone)
    · omega
    · cases hnone
  show Busy.poll (clients.host.poll k) timeout _ = _
  rw [Busy.poll, hfirst]
  dsimp only
  rw [if_neg hwaits, exec_concat]
  rfl

/-! ## A consumer and what it was handed -/

/-- A log, and what one of its consumers was handed. -/
structure Reader where
  log : MemoryLog
  /-- The consumer. -/
  consumer : ConsumerId
  /-- What the consumer was told to read last. -/
  topics : List String
  /-- The topics of the log as they were then. -/
  told : Topics
  /-- How many entries a partition had when the consumer found it: when it was told its topics, or
  at the first poll at which the partition was there. -/
  found : String × Nat → Option Nat
  /-- What the polls handed over since then. -/
  handed : List Entry
  closed : Bool

namespace Reader

/-- A consumer is made. -/
def start (settings : ClientSettings) (s : MemoryLog) : Reader :=
  ⟨s.call (.createConsumer settings), s.consumers.size, [], [], fun _ => none, [], false⟩

/-- The consumer was told its topics. -/
def telling (r : Reader) (topics : List String) : Reader :=
  { r with topics, told := r.log.topics, found := lengths r.log.topics topics, handed := [] }

/-- The consumer was handed entries by a poll. -/
def handing (r : Reader) (es : List Entry) : Reader :=
  { r with
    found := fun key => (r.found key).or (lengths r.log.topics r.topics key)
    handed := r.handed ++ es }

/-- What a call of the consumer means to it. -/
def seen (r : Reader) : MemoryCall → Reader
  | .subscribe k topics =>
    match (r.log.subscribe k topics).1 with
    | .ok () => r.telling topics
    | .error _ => r
  | .poll k =>
    match (r.log.poll k).1 with
    | .ok es => r.handing es
    | .error _ => r
  | .closeConsumer _ => { r with closed := true }
  | _ => r

/-- A call to the log, by the consumer or by anybody else. -/
def step (r : Reader) (call : MemoryCall) : Reader :=
  if call.consumer? = some r.consumer then { r.seen call with log := r.log.call call }
  else { r with log := r.log.call call }

theorem step_own {r : Reader} {call : MemoryCall} (h : call.consumer? = some r.consumer) :
    r.step call = { r.seen call with log := r.log.call call } := if_pos h

/-- Some calls to the log. -/
def exec (r : Reader) (calls : List MemoryCall) : Reader := calls.foldl step r

/-! ## The invariant -/

/-- Where reading a partition begins that the consumer found with so many entries: with its first
entry, or behind those that it had. -/
def Begins (o : ConsumerOptions) (found first : Option Nat) : Prop :=
  match o.start with
  | .earliest => ∀ n, first = some n → n = 0
  | .latest => first = found

/-- The consumer stands, in each partition, behind what it was handed of it. -/
structure Reads (o : ConsumerOptions) (r : Reader) (c : MemoryConsumer) : Prop where
  get : r.log.consumers.get? r.consumer = some c
  options : c.options = o
  topics : c.topics = r.topics
  closed : c.closed = r.closed
  /-- Only topics that it reads were handed over. -/
  source : ∀ e ∈ r.handed, e.topic ∈ r.topics ∧ 0 ≤ e.partition
  stands : ∀ topic p, ∃ first, Begins o (r.found (topic, p)) first ∧
    Stands topic p (r.log.topics.held (topic, (p : Int))) r.handed first
      (Assoc.get? c.positions (topic, p))

variable {o : ConsumerOptions} {r : Reader} {c : MemoryConsumer}

/-- What anybody calls who is not the consumer. -/
theorem Reads.elsewhere (h : r.Reads o c) {call : MemoryCall}
    (hcall : call.consumer? ≠ some r.consumer) : (r.step call).Reads o c := by
  rw [step, if_neg hcall]
  refine ⟨consumer_call h.get hcall, h.options, h.topics, h.closed, h.source, ?_⟩
  intro topic p
  obtain ⟨first, hbegins, hstands⟩ := h.stands topic p
  refine ⟨first, hbegins, ?_⟩
  dsimp only
  rw [(grew_call r.log call).held]
  exact hstands.grown _

/-- Where a consumer stands that was told its topics. -/
theorem stands_subscribe (ho : c.options = o) (t : Topics) (topics : List String) (topic : String)
    (p : Nat) : ∃ first, Begins o (lengths t topics (topic, p)) first ∧
      Stands topic p (t.held (topic, (p : Int))) []
        first (Assoc.get? (c.subscribe t topics).positions (topic, p)) := by
  unfold Begins MemoryConsumer.subscribe
  rw [ho]
  cases o.start with
  | earliest =>
      refine ⟨none, ?_, .unread rfl⟩
      intro n hn
      cases hn
  | latest =>
      refine ⟨_, rfl, ?_⟩
      dsimp only
      rw [get?_endPositions]
      by_cases hmem : (topic, p) ∈ (visits t topics).map Visit.key
      · rw [lengths_of_mem hmem]
        exact .at_once (Nat.le_refl _) rfl
      · rw [lengths_of_notMem hmem]
        exact .unread rfl

theorem Reads.subscribe (h : r.Reads o c) (topics : List String) :
    ∃ c', (r.step (.subscribe r.consumer topics)).Reads o c' := by
  rw [step_own rfl, seen]
  cases hclosed : c.closed with
  | true =>
      have hsubscribe : r.log.subscribe r.consumer topics = (.error .closed, r.log) := by
        rw [MemoryLog.subscribe, h.get]
        dsimp only
        rw [if_pos hclosed]
      rw [MemoryLog.call, hsubscribe]
      exact ⟨c, h⟩
  | false =>
      rw [MemoryLog.call, subscribe_eq h.get hclosed]
      exact ⟨c.subscribe r.log.topics topics, Registry.get?_set_self h.get _, h.options, rfl, h.closed,
        fun _ he => (List.not_mem_nil he).elim,
        fun topic p => stands_subscribe h.options r.log.topics topics topic p⟩

/-- Reading a partition begins when the consumer finds it. -/
theorem Begins.visited {found first : Option Nat} (h : Begins o found first) (n : Nat) :
    Begins o (found.or (some n)) (some (first.getD (o.first n))) := by
  unfold Begins at h ⊢
  unfold ConsumerOptions.first
  cases hstart : o.start with
  | earliest =>
      rw [hstart] at h
      intro m hm
      cases first with
      | none => exact (Option.some.inj hm).symm
      | some i => exact (Option.some.inj hm) ▸ h i rfl
  | latest =>
      rw [hstart] at h
      rw [h]
      cases found <;> rfl

/-- **One poll**: in every partition that is there the consumer moves on by what it is handed of it. -/
theorem Reads.handing (h : r.Reads o c) :
    Reads o { r.handing (c.fetch r.log.topics).entries with log := r.log.polled r.consumer c }
      { c with positions := (c.fetch r.log.topics).positions } := by
  refine ⟨Registry.get?_set_self h.get _, h.options, h.topics, h.closed, ?_, ?_⟩
  · intro e he
    rcases List.mem_append.mp he with he | he
    · exact h.source e he
    · exact h.topics ▸ mem_fetch he
  · intro topic p
    obtain ⟨first, hbegins, hstands⟩ := h.stands topic p
    have hvisited := hstands.fetch
    rw [h.options, h.topics] at hvisited
    refine ⟨_, ?_, hvisited⟩
    dsimp only [Reader.handing]
    by_cases hmem : (topic, p) ∈ (visits r.log.topics r.topics).map Visit.key
    · rw [if_pos hmem, lengths_of_mem hmem]
      exact hbegins.visited _
    · rw [if_neg hmem, lengths_of_notMem hmem, Option.or_none]
      exact hbegins

theorem Reads.poll (h : r.Reads o c) : ∃ c', (r.step (.poll r.consumer)).Reads o c' := by
  rw [step_own rfl, seen]
  cases hclosed : c.closed with
  | true =>
      have hpoll : r.log.poll r.consumer = (.error .closed, r.log) := by
        rw [MemoryLog.poll, h.get]
        dsimp only
        rw [if_pos hclosed]
      rw [MemoryLog.call, hpoll]
      exact ⟨c, h⟩
  | false =>
      cases htopics : c.topics.isEmpty with
      | true =>
          have hpoll : r.log.poll r.consumer = (.error .notSubscribed, r.log) := by
            rw [MemoryLog.poll, h.get]
            dsimp only
            rw [if_neg (ne_true_of_eq_false hclosed), if_pos htopics]
          rw [MemoryLog.call, hpoll]
          exact ⟨c, h⟩
      | false =>
          rw [MemoryLog.call, poll_eq h.get hclosed htopics]
          exact ⟨_, h.handing⟩

theorem Reads.close (h : r.Reads o c) : ∃ c', (r.step (.closeConsumer r.consumer)).Reads o c' := by
  rw [step_own rfl, MemoryLog.call, closeConsumer, h.get]
  dsimp only [seen]
  split
  · rename_i hclosed
    exact ⟨c, h.get, h.options, h.topics, hclosed, h.source, h.stands⟩
  · exact ⟨{ c with closed := true }, Registry.get?_set_self h.get _, h.options, h.topics, rfl,
      h.source, h.stands⟩

/-- **One call**, of whomever. -/
theorem Reads.step (h : r.Reads o c) (call : MemoryCall) : ∃ c', (r.step call).Reads o c' := by
  by_cases hcall : call.consumer? = some r.consumer
  · cases call with
    | subscribe k topics => cases hcall; exact h.subscribe topics
    | poll k => cases hcall; exact h.poll
    | closeConsumer k => cases hcall; exact h.close
    | _ => cases hcall
  · exact ⟨c, h.elsewhere hcall⟩

theorem Reads.exec (h : r.Reads o c) (calls : List MemoryCall) :
    ∃ c', (r.exec calls).Reads o c' := by
  induction calls generalizing r c with
  | nil => exact ⟨c, h⟩
  | cons call calls ih =>
      obtain ⟨c', h'⟩ := h.step call
      exact ih h'

/-- What the consumer gets that reads and is open. -/
theorem Reads.poll_ok (h : r.Reads o c) (hopen : r.closed = false) (htopics : r.topics ≠ []) :
    r.log.poll r.consumer =
      (.ok (c.fetch r.log.topics).entries, r.log.polled r.consumer c) := by
  refine poll_eq h.get (h.closed.trans hopen) ?_
  rw [h.topics, List.isEmpty_eq_false_iff]
  exact htopics

/-- It is never more than the limit. -/
theorem Reads.length_fetch (h : r.Reads o c) : (c.fetch r.log.topics).entries.length ≤ o.limit := by
  rw [← h.options]
  exact MemoryConsumer.length_fetch c r.log.topics

/-- If it is nothing, the consumer was handed everything of a partition that is there, from where
reading began. -/
theorem Reads.fetch_nothing (h : r.Reads o c) (hlimit : 0 < o.limit)
    (hnothing : (c.fetch r.log.topics).entries = []) {topic : String} (htopic : topic ∈ r.topics)
    {p : Nat} {es : List Stored} (hes : r.log.topics.entries? topic p = some es) :
    ∃ n, Begins o ((r.found (topic, p)).or (some es.length)) (some n) ∧
      onPartition (topic, (p : Int)) r.handed = handOver topic p n (es.drop n) := by
  have hmem : (topic, p) ∈ (visits r.log.topics r.topics).map Visit.key :=
    mem_keys_visits.mpr ⟨htopic, es, hes⟩
  have hheld : r.log.topics.held (topic, (p : Int)) = es := Topics.held_of_entries? hes
  obtain ⟨first, hbegins, hstands⟩ := h.handing.stands topic p
  have hthrough := through_fetch (h.options.symm ▸ hlimit) hnothing (h.topics.symm ▸ hmem)
  obtain ⟨n, rfl, hhanded⟩ := hstands.through hthrough
  refine ⟨n, ?_, ?_⟩
  · have hfound := lengths_of_mem hmem
    rw [hheld] at hfound
    rw [← hfound]
    exact hbegins
  · have hall : onPartition (topic, (p : Int)) (r.handed ++ (c.fetch r.log.topics).entries) =
        handOver topic p n ((r.log.topics.held (topic, (p : Int))).drop n) := hhanded
    rwa [hnothing, List.append_nil, hheld] at hall

/-- Of a partition that is not there nothing was handed over. -/
theorem Reads.nothing_there (h : r.Reads o c) {topic : String} {p : Nat}
    (hnone : r.log.topics.entries? topic p = none) :
    r.log.topics.held (topic, (p : Int)) = [] ∧ onPartition (topic, (p : Int)) r.handed = [] := by
  have hheld : r.log.topics.held (topic, (p : Int)) = [] := by
    rw [Topics.held, hnone]
    rfl
  obtain ⟨first, -, hstands⟩ := h.stands topic p
  rw [hheld] at hstands
  exact ⟨hheld, hstands.nothing⟩

theorem reads_start {settings : ClientSettings} (ho : ConsumerOptions.ofSettings settings = .ok o)
    (s : MemoryLog) : (start settings s).Reads o ⟨o, [], [], false⟩ := by
  refine ⟨?_, rfl, rfl, rfl, fun _ he => (List.not_mem_nil he).elim, ?_⟩
  · rw [start, MemoryLog.call, createConsumer_eq ho]
    exact Registry.get?_add_self _
  · intro topic p
    refine ⟨none, ?_, .unread rfl⟩
    unfold Begins
    cases o.start with
    | earliest =>
        intro n hn
        cases hn
    | latest => rfl

/-! ## From the first entry -/

/--
**Reading a log from its first entries.** A consumer that is to begin with the first entries is told
its topics and polls, in any order and as often as it likes, while anybody calls the log. What it
was handed of each partition since it was told its topics are the first entries of it, each at its
offset and once; of other topics it was handed nothing. Until it is closed its next poll hands over no
more entries than the setting says, but one at least; and if it hands over none, everything that is
on the topics was handed over.
-/
theorem first_entries_read {settings : ClientSettings} {m : Nat}
    (hlimit : settings.getOr (Text.natural? ConsumerOptions.maxLimit) ConsumerOptions.limitKey
      ConsumerOptions.defaultLimit = .ok m)
    (hstart : settings.get? ConsumerOptions.startKey = some "earliest") (s : MemoryLog)
    (calls : List MemoryCall) :
    let r := (start settings s).exec calls
    (∀ topic, ∀ p : Nat, ∃ n, onPartition (topic, (p : Int)) r.handed =
      (handOver topic p 0 (r.log.topics.held (topic, (p : Int)))).take n) ∧
    (∀ e ∈ r.handed, e.topic ∈ r.topics ∧ 0 ≤ e.partition) ∧
    (r.closed = false → r.topics ≠ [] → ∃ es, (r.log.poll r.consumer).1 = .ok es ∧
      es.length ≤ max 1 m ∧
      (es = [] → ∀ topic ∈ r.topics, ∀ p : Nat, onPartition (topic, (p : Int)) r.handed =
        handOver topic p 0 (r.log.topics.held (topic, (p : Int))))) := by
  have ho := ConsumerOptions.ofSettings_eq hlimit
    (show ConsumerOptions.startOf _ = .ok .earliest by rw [hstart]; rfl)
  obtain ⟨c, h⟩ := (reads_start ho s).exec calls
  refine ⟨?_, h.source, ?_⟩
  · intro topic p
    obtain ⟨first, hbegins, hstands⟩ := h.stands topic p
    cases first with
    | none => exact ⟨0, hstands.before⟩
    | some n =>
        obtain rfl : n = 0 := hbegins n rfl
        exact hstands.taken.2
  · intro hopen htopics
    refine ⟨_, congrArg Prod.fst (h.poll_ok hopen htopics), h.length_fetch, ?_⟩
    intro hnothing topic htopic p
    cases hes : ((start settings s).exec calls).log.topics.entries? topic p with
    | some es =>
        obtain ⟨n, hbegins, hhanded⟩ := h.fetch_nothing (limit_pos ho) hnothing htopic hes
        obtain rfl : n = 0 := hbegins n rfl
        rw [hhanded, Topics.held_of_entries? hes]
        rfl
    | none =>
        obtain ⟨hheld, hhanded⟩ := h.nothing_there hes
        rw [hhanded, hheld]
        rfl

/-- Settings that ask for two entries at a time, from the first one on. -/
def twoByTwo : ClientSettings :=
  ⟨.ofPairs [(ConsumerOptions.startKey, "earliest"), (ConsumerOptions.limitKey, "2")]⟩

/-- A consumer of two topics, one of them named twice, polls before they are there; then both are
made, and the consumer polls twice. -/
def readingCalls : List MemoryCall :=
  [.subscribe 0 ["t", "u", "t"], .poll 0, .appendRaw "t" 0 "a", .createTopic "u" 2,
    .appendRaw "u" 1 "b", .appendRaw "t" 0 "c", .poll 0, .poll 0]

/-- The theorem at this run. -/
theorem first_entries_read_readingCalls :
    let r := (start twoByTwo empty).exec readingCalls
    r.handed = [⟨"t", 0, 0, none, "a"⟩, ⟨"t", 0, 1, none, "c"⟩, ⟨"u", 1, 0, none, "b"⟩] ∧
      ∃ es, (r.log.poll r.consumer).1 = .ok es ∧ es.length ≤ 2 := by
  have hlimit : twoByTwo.getOr (Text.natural? ConsumerOptions.maxLimit) ConsumerOptions.limitKey
      ConsumerOptions.defaultLimit = .ok 2 := rfl
  have hstart : twoByTwo.get? ConsumerOptions.startKey = some "earliest" := by decide
  obtain ⟨-, -, hpoll⟩ := first_entries_read hlimit hstart empty readingCalls
  obtain ⟨es, hes, hfew, -⟩ := hpoll (by decide +kernel) (by decide +kernel)
  exact ⟨by decide +kernel, es, hes, hfew⟩

end Reader

end MemoryLog

end SchemaHistory
