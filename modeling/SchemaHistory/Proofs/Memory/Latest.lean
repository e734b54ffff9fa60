import SchemaHistory.Proofs.Memory.Reading

/-!
# Reading a log in memory from its end

A consumer that is to begin behind what is there begins, in each partition, where that partition
ends when the consumer finds it. It looks for the partitions of its topics when it is told them. So
of a topic that is there by then it reads what is appended afterwards, all of it and nothing else.
A topic that is made later is found by the first poll that comes to it, and not before: what was
appended to it until then lies behind the consumer, and is never handed over.
-/

namespace SchemaHistory.MemoryLog.Reader

open MemoryConsumer

variable {o : ConsumerOptions} {r : Reader} {c : MemoryConsumer}

/-! ## When partitions are found -/

/-- The partitions that were there when the consumer was told its topics were found then; nothing
is found with fewer entries than it had. -/
structure Finds (r : Reader) : Prop where
  there : ∀ topic ∈ r.topics, ∀ p : Nat, ∀ es, r.told.entries? topic p = some es →
    r.found (topic, p) = some es.length
  behind : ∀ topic, ∀ p n : Nat, r.found (topic, p) = some n →
    (r.told.held (topic, (p : Int))).length ≤ n
  /-- What was there then is there. -/
  kept : ∀ key, r.told.held key <+: r.log.topics.held key

theorem finds_start (settings : ClientSettings) (s : MemoryLog) : (start settings s).Finds :=
  ⟨fun _ htopic => (List.not_mem_nil htopic).elim, fun _ _ _ h => (nomatch h),
    fun _ => List.nil_prefix⟩

theorem lengths_eq_some {t : Topics} {topics : List String} {topic : String} {p n : Nat} :
    lengths t topics (topic, p) = some n ↔
      topic ∈ topics ∧ ∃ es, t.entries? topic p = some es ∧ es.length = n := by
  unfold lengths
  split
  · rename_i htopic
    rw [Option.map_eq_some_iff, and_iff_right htopic]
  · rename_i htopic
    constructor
    · intro h
      cases h
    · intro h
      exact absurd h.1 htopic

theorem finds_telling (r : Reader) (topics : List String) : (r.telling topics).Finds := by
  refine ⟨fun topic htopic p es hes => lengths_eq_some.mpr ⟨htopic, es, hes, rfl⟩, ?_,
    fun key => List.prefix_refl _⟩
  intro topic p n h
  obtain ⟨-, es, hes, rfl⟩ := lengths_eq_some.mp h
  exact Nat.le_of_eq (congrArg List.length (Topics.held_of_entries? hes))

theorem Finds.handing (h : r.Finds) (es : List Entry) : (r.handing es).Finds := by
  refine ⟨?_, ?_, h.kept⟩
  · intro topic htopic p es hes
    show (r.found (topic, p)).or _ = _
    rw [h.there topic htopic p es hes]
    rfl
  · intro topic p n hfound
    have hor : (r.found (topic, p)).or (lengths r.log.topics r.topics (topic, p)) = some n := hfound
    cases hold : r.found (topic, p) with
    | some m =>
        rw [hold] at hor
        cases hor
        exact h.behind topic p n hold
    | none =>
        rw [hold, Option.none_or] at hor
        obtain ⟨htopic, -⟩ := lengths_eq_some.mp hor
        -- the partition was not there when the consumer was told its topics
        have hnone : r.told.entries? topic p = none := by
          cases htold : r.told.entries? topic p with
          | none => rfl
          | some es =>
              rw [h.there topic htopic p es htold] at hold
              cases hold
        show (r.told.held (topic, (p : Int))).length ≤ n
        rw [Topics.held, hnone]
        exact Nat.zero_le n

theorem Finds.seen (h : r.Finds) (call : MemoryCall) : (r.seen call).Finds := by
  unfold Reader.seen
  split
  · split
    · exact finds_telling r _
    · exact h
  · split
    · exact h.handing _
    · exact h
  · exact ⟨h.there, h.behind, h.kept⟩
  · exact h

/-- Topics only grow. -/
theorem Finds.called (h : r.Finds) {log : MemoryLog} {call : MemoryCall}
    (hlog : r.log = log) : Finds { r with log := log.call call } := by
  refine ⟨h.there, h.behind, fun key => (h.kept key).trans ?_⟩
  rw [hlog, (grew_call log call).held]
  exact List.prefix_append _ _

theorem log_seen (r : Reader) (call : MemoryCall) : (r.seen call).log = r.log := by
  unfold Reader.seen
  split
  · split <;> rfl
  · split <;> rfl
  · rfl
  · rfl

theorem Finds.step (h : r.Finds) (call : MemoryCall) : (r.step call).Finds := by
  unfold Reader.step
  split
  · exact (h.seen call).called (log_seen r call)
  · exact h.called rfl

theorem Finds.exec (h : r.Finds) (calls : List MemoryCall) : (r.exec calls).Finds := by
  induction calls generalizing r with
  | nil => exact h
  | cons call calls ih => exact ih (h.step call)

/-! ## From the end -/

/--
**Reading a log from its end.** A consumer that is to begin behind what is there is told its topics
and polls, in any order and as often as it likes, while anybody calls the log. Of a partition that it
has not found it was handed nothing. Of one that it found with `n` entries it was handed the entries
from offset `n` on, each at its offset and once, and none before; if the partition was there when the
consumer was told its topics, these are all that were appended since. Until it is closed its next
poll hands over no more entries than the setting says, but one at least; and if it hands over none, it
was handed everything behind the first `n` entries of each partition that it has found.
-/
theorem entries_behind_read {settings : ClientSettings} {m : Nat}
    (hlimit : settings.getOr (Text.natural? ConsumerOptions.maxLimit) ConsumerOptions.limitKey
      ConsumerOptions.defaultLimit = .ok m)
    (hstart : (settings.get? ConsumerOptions.startKey).getD "latest" = "latest") (s : MemoryLog)
    (calls : List MemoryCall) :
    let r := (start settings s).exec calls
    (∀ topic, ∀ p : Nat, r.found (topic, p) = none →
      onPartition (topic, (p : Int)) r.handed = []) ∧
    (∀ key, r.told.held key <+: r.log.topics.held key) ∧
    (∀ topic, ∀ p n : Nat, r.found (topic, p) = some n →
      (r.told.held (topic, (p : Int))).length ≤ n ∧
      (∀ es, topic ∈ r.topics → r.told.entries? topic p = some es → n = es.length) ∧
      n ≤ (r.log.topics.held (topic, (p : Int))).length ∧
      ∃ i, onPartition (topic, (p : Int)) r.handed =
        (handOver topic p n ((r.log.topics.held (topic, (p : Int))).drop n)).take i) ∧
    (∀ e ∈ r.handed, e.topic ∈ r.topics ∧ 0 ≤ e.partition) ∧
    (r.closed = false → r.topics ≠ [] → ∃ es, (r.log.poll r.consumer).1 = .ok es ∧
      es.length ≤ max 1 m ∧
      (es = [] → ∀ topic ∈ r.topics, ∀ p n : Nat, r.found (topic, p) = some n →
        onPartition (topic, (p : Int)) r.handed =
          handOver topic p n ((r.log.topics.held (topic, (p : Int))).drop n))) := by
  have ho := ConsumerOptions.ofSettings_eq hlimit
    (show ConsumerOptions.startOf _ = .ok .latest by rw [hstart]; rfl)
  obtain ⟨c, h⟩ := (reads_start ho s).exec calls
  have hfinds := (finds_start settings s).exec calls
  refine ⟨?_, hfinds.kept, ?_, h.source, ?_⟩
  · intro topic p hnone
    obtain ⟨first, hbegins, hstands⟩ := h.stands topic p
    obtain rfl : first = none := Eq.trans hbegins hnone
    exact hstands.before
  · intro topic p n hfound
    obtain ⟨first, hbegins, hstands⟩ := h.stands topic p
    obtain rfl : first = some n := Eq.trans hbegins hfound
    refine ⟨hfinds.behind topic p n hfound, ?_, hstands.taken⟩
    intro es htopic hes
    have hlength := hfinds.there topic htopic p es hes
    rw [hfound] at hlength
    exact Option.some.inj hlength
  · intro hopen htopics
    refine ⟨_, congrArg Prod.fst (h.poll_ok hopen htopics), h.length_fetch, ?_⟩
    intro hnothing topic htopic p n hfound
    cases hes : ((start settings s).exec calls).log.topics.entries? topic p with
    | some es =>
        obtain ⟨n', hbegins, hhanded⟩ := h.fetch_nothing (limit_pos ho) hnothing htopic hes
        rw [hfound] at hbegins
        obtain rfl : n' = n := Option.some.inj hbegins
        rw [hhanded, Topics.held_of_entries? hes]
    | none =>
        obtain ⟨hheld, hhanded⟩ := h.nothing_there hes
        rw [hhanded, hheld, List.drop_nil]
        rfl

/-- A consumer is told two topics, of which one is there, and then one entry is appended to each. -/
def lateCalls : List MemoryCall :=
  [.subscribe 0 ["t", "u"], .appendRaw "t" 0 "b", .appendRaw "u" 0 "x", .poll 0, .poll 0,
    .appendRaw "u" 0 "y", .poll 0]

/-- The theorem at this run: the first entry of the topic that was made later is left out. -/
theorem entries_behind_read_lateCalls :
    let r := (start .empty (empty.appendRaw "t" 0 "a").2).exec lateCalls
    r.handed = [⟨"t", 0, 1, none, "b"⟩, ⟨"u", 0, 1, none, "y"⟩] ∧
      r.log.topics.held ("u", 0) = [⟨none, "x"⟩, ⟨none, "y"⟩] ∧
      onPartition ("u", 0) r.handed = handOver "u" 0 1 [⟨none, "y"⟩] := by
  have hlimit : ClientSettings.empty.getOr (Text.natural? ConsumerOptions.maxLimit)
      ConsumerOptions.limitKey ConsumerOptions.defaultLimit = .ok 500 := rfl
  have hstart : (ClientSettings.empty.get? ConsumerOptions.startKey).getD "latest" = "latest" := rfl
  obtain ⟨-, -, -, -, hpoll⟩ := entries_behind_read hlimit hstart (empty.appendRaw "t" 0 "a").2 lateCalls
  obtain ⟨es, hes, -, hnothing⟩ := hpoll (by decide +kernel) (by decide +kernel)
  have hempty : es = [] := by
    have hpolled : (((start .empty (empty.appendRaw "t" 0 "a").2).exec lateCalls).log.poll
        ((start .empty (empty.appendRaw "t" 0 "a").2).exec lateCalls).consumer).1 = .ok [] := by
      decide +kernel
    rw [hpolled] at hes
    exact (Except.ok.inj hes).symm
  refine ⟨by decide +kernel, by decide +kernel, ?_⟩
  exact hnothing hempty "u" (by decide +kernel) 0 1 (by decide +kernel)

end SchemaHistory.MemoryLog.Reader
