import SchemaHistory.Log.Memory
import SchemaHistory.Proofs.Collections
import SchemaHistory.Proofs.Replay

/-!
# The partition of a topic in memory

As long as nothing but partition 0 of a topic is written, the topic is a list: the entries
of that partition. An append puts one entry behind the others, everything else leaves the
list alone, and a consumer that reads from the start is served the list from where it
stands.

A poll goes through all partitions, one after another, and stops taking when it is full. Where
a consumer stands in one of them does not depend on the others, so what it has before it is one
list as well, that of the partitions in their order, and partitions without entries add nothing.
-/

namespace SchemaHistory

/-! ## What a topic holds -/

/-- The first partition of the topic has the entries `es` and the others have none. A topic that
was not made yet holds nothing. -/
def Topics.Holds (t : Topics) (topic : String) (es : List Stored) : Prop :=
  (Assoc.get? t topic = none ∧ es = []) ∨
    ∃ n, Assoc.get? t topic = some (es :: List.replicate n [])

namespace Topics

variable {t : Topics} {topic other : String} {es : List Stored}

theorem get?_create_other (t : Topics) (n : Nat) (h : other ≠ topic) :
    Assoc.get? (t.create other n) topic = Assoc.get? t topic := by
  unfold Topics.create
  split
  · rfl
  · rw [Assoc.get?_put, if_neg h]

theorem Holds.create (h : t.Holds topic es) (other : String) (n : Nat) :
    (t.create other n).Holds topic es := by
  by_cases ho : other = topic
  · subst ho
    rcases h with ⟨hnone, rfl⟩ | ⟨k, hsome⟩
    · right
      refine ⟨max n 1 - 1, ?_⟩
      unfold Topics.create
      rw [hnone]
      dsimp only
      rw [Assoc.get?_put, if_pos rfl, ← List.replicate_succ]
      congr 2
      omega
    · right
      refine ⟨k, ?_⟩
      unfold Topics.create
      rw [hsome]
      exact hsome
  · rw [Holds, get?_create_other t n ho]
    exact h

/-- Once a topic is made it has partition 0. -/
theorem Holds.created (h : t.Holds topic es) :
    ∃ n, Assoc.get? (t.create topic 1) topic = some (es :: List.replicate n []) := by
  rcases h with ⟨hnone, rfl⟩ | ⟨k, hsome⟩
  · refine ⟨0, ?_⟩
    unfold Topics.create
    rw [hnone]
    dsimp only
    rw [Assoc.get?_put, if_pos rfl]
    rfl
  · refine ⟨k, ?_⟩
    unfold Topics.create
    rw [hsome]
    exact hsome

theorem Holds.entries (h : t.Holds topic es) : (t.entries? topic 0).getD [] = es := by
  rcases h with ⟨hnone, rfl⟩ | ⟨k, hsome⟩
  · rw [entries?, hnone]
    rfl
  · rw [entries?, hsome]
    rfl

/-- **An append puts its entry behind the others** and gives the number of these as its offset. -/
theorem Holds.append (h : t.Holds topic es) (e : Stored) :
    ∃ t', t.append topic 0 e = (.ok es.length, t') ∧ t'.Holds topic (es ++ [e]) := by
  obtain ⟨n, hget⟩ := h.created
  have hentries : (t.create topic 1).entries? topic 0 = some es := by
    rw [entries?, hget]
    rfl
  refine ⟨Assoc.put topic ((es ++ [e]) :: List.replicate n []) (t.create topic 1), ?_, ?_⟩
  · unfold Topics.append
    dsimp only
    rw [hentries, hget]
    rfl
  · right
    exact ⟨n, by rw [Assoc.get?_put, if_pos rfl]⟩

theorem Holds.append_other (h : t.Holds topic es) (ho : other ≠ topic) (partition : Int)
    (e : Stored) : (t.append other partition e).2.Holds topic es := by
  have hcreate := h.create other 1
  unfold Topics.append
  dsimp only
  split
  · exact hcreate
  · rw [Holds, Assoc.get?_put, if_neg ho]
    exact hcreate

end Topics

/-! ## What a consumer is handed -/

namespace MemoryConsumer

variable {topic : String} {p o m : Nat} {es : List Stored}

theorem handOver_cons (e : Stored) :
    handOver topic p o (e :: es) =
      ⟨topic, p, o, e.key, e.payload⟩ :: handOver topic p (o + 1) es := by
  unfold handOver
  rw [List.mapIdx_cons]
  congr 1
  congr 1
  funext i e
  rw [Nat.add_assoc, Nat.add_comm 1 i]

theorem handOver_take : handOver topic p o (es.take m) = (handOver topic p o es).take m := by
  induction es generalizing o m with
  | nil => rw [List.take_nil]; exact (List.take_nil).symm
  | cons e es ih =>
      cases m with
      | zero => rfl
      | succ m => rw [List.take_succ_cons, handOver_cons, handOver_cons, List.take_succ_cons, ih]

theorem handOver_drop :
    (handOver topic p o es).drop m = handOver topic p (o + (es.take m).length) (es.drop m) := by
  induction es generalizing o m with
  | nil => rw [List.drop_nil]; exact List.drop_nil
  | cons e es ih =>
      cases m with
      | zero => rfl
      | succ m =>
          rw [handOver_cons, List.drop_succ_cons, List.drop_succ_cons, ih, List.take_succ_cons,
            List.length_cons]
          congr 1
          omega

theorem length_handOver : (handOver topic p o es).length = es.length := List.length_mapIdx

theorem handOver_records : (handOver topic p o es).map Entry.record? =
    es.map fun e => (Record.parse e.payload.toList).toOption := by
  induction es generalizing o with
  | nil => rfl
  | cons e es ih =>
      rw [handOver_cons, List.map_cons, List.map_cons, ih]
      rfl

section Ahead

variable {o : ConsumerOptions}

/-- Where a consumer goes on reading a partition that has the entries `es`. -/
def positionIn (o : ConsumerOptions) (topic : String) (positions : Positions) (p : Nat)
    (es : List Stored) : Nat :=
  (Assoc.get? positions (topic, p)).getD (o.first es.length)

/-- What a consumer has before it in one partition. -/
def aheadIn (o : ConsumerOptions) (topic : String) (positions : Positions) (p : Nat)
    (es : List Stored) : List Entry :=
  handOver topic p (positionIn o topic positions p es)
    (es.drop (positionIn o topic positions p es))

/-- What a consumer has before it in partitions of which the first has the number `p`. -/
def ahead (o : ConsumerOptions) (topic : String) (positions : Positions) :
    Nat → List (List Stored) → List Entry
  | _, [] => []
  | p, es :: rest => aheadIn o topic positions p es ++ ahead o topic positions (p + 1) rest

/-- What is put down for a partition does not matter to those behind it. -/
theorem ahead_put {positions : Positions} {p q n : Nat} (h : q < p) (ps : List (List Stored)) :
    ahead o topic (Assoc.put (topic, q) n positions) p ps = ahead o topic positions p ps := by
  induction ps generalizing p with
  | nil => rfl
  | cons es ps ih =>
      have hother : Assoc.get? (Assoc.put (topic, q) n positions) (topic, p) =
          Assoc.get? positions (topic, p) := by
        rw [Assoc.get?_put, if_neg]
        intro heq
        cases heq
        exact Nat.lt_irrefl _ h
      rw [ahead, ahead, ih (Nat.lt_succ_of_lt h), aheadIn, aheadIn, positionIn, positionIn, hother]

/-- Going through partitions leaves the positions in those before them. -/
theorem get?_fetchPartitions {p q : Nat} (h : q < p) (ps : List (List Stored)) (b : Batch) :
    Assoc.get? (fetchPartitions o topic p ps b).positions (topic, q) =
      Assoc.get? b.positions (topic, q) := by
  induction ps generalizing p b with
  | nil => rfl
  | cons es ps ih =>
      rw [fetchPartitions, ih (Nat.lt_succ_of_lt h), fetchPartition, Assoc.get?_put, if_neg]
      intro heq
      cases heq
      exact Nat.lt_irrefl _ h

/-- Reading one partition adds what there is room for. -/
theorem entries_fetchPartition (o : ConsumerOptions) (topic : String) (p : Nat) (es : List Stored)
    (b : Batch) :
    (fetchPartition o topic p es b).entries =
      b.entries ++ (aheadIn o topic b.positions p es).take (o.limit - b.entries.length) := by
  rw [aheadIn, ← handOver_take]
  rfl

/-- What is behind that is what the consumer has before it then. -/
theorem aheadIn_fetchPartition {positions : Positions} (p : Nat) (es : List Stored) (b : Batch)
    (h : Assoc.get? positions (topic, p) =
      Assoc.get? (fetchPartition o topic p es b).positions (topic, p)) :
    aheadIn o topic positions p es =
      (aheadIn o topic b.positions p es).drop (o.limit - b.entries.length) := by
  have hposition : positionIn o topic positions p es = positionIn o topic b.positions p es +
      ((es.drop (positionIn o topic b.positions p es)).take
        (o.limit - b.entries.length)).length := by
    rw [positionIn, h, fetchPartition, Assoc.get?_put, if_pos rfl]
    rfl
  rw [aheadIn, hposition, aheadIn, handOver_drop, List.drop_drop, List.length_take,
    List.length_drop]
  by_cases hroom : o.limit - b.entries.length ≤ es.length - positionIn o topic b.positions p es
  · rw [Nat.min_eq_left hroom]
  · rw [List.drop_eq_nil_of_le (by omega), List.drop_eq_nil_of_le (by omega)]

/-- **Going through partitions** adds the first entries before the consumer, as many as there is
room for, and leaves the others before it. -/
theorem fetchPartitions_ahead (p : Nat) (ps : List (List Stored)) {b : Batch}
    (hroom : b.entries.length ≤ o.limit) :
    (fetchPartitions o topic p ps b).entries =
        b.entries ++ (ahead o topic b.positions p ps).take (o.limit - b.entries.length) ∧
      ahead o topic (fetchPartitions o topic p ps b).positions p ps =
        (ahead o topic b.positions p ps).drop (o.limit - b.entries.length) := by
  induction ps generalizing p b with
  | nil => simp [fetchPartitions, ahead]
  | cons es ps ih =>
      have hentries := entries_fetchPartition o topic p es b
      have hlength := congrArg List.length hentries
      rw [List.length_append, List.length_take] at hlength
      have hroom' : (fetchPartition o topic p es b).entries.length ≤ o.limit := by omega
      have hleft : o.limit - (fetchPartition o topic p es b).entries.length =
          o.limit - b.entries.length - (aheadIn o topic b.positions p es).length := by omega
      have hbehind : ahead o topic (fetchPartition o topic p es b).positions (p + 1) ps =
          ahead o topic b.positions (p + 1) ps := ahead_put (Nat.lt_succ_self p) ps
      obtain ⟨hrest, hahead⟩ := ih (p + 1) hroom'
      rw [hbehind, hleft] at hrest hahead
      refine ⟨?_, ?_⟩
      · rw [fetchPartitions, hrest, hentries, ahead, List.take_append, List.append_assoc]
      · rw [fetchPartitions, ahead, hahead, ahead, List.drop_append,
          aheadIn_fetchPartition p es b (get?_fetchPartitions (Nat.lt_succ_self p) ps _)]

/-- **A poll hands over the first entries before the consumer**, as many as the limit allows. -/
theorem fetch_ahead {c : MemoryConsumer} {t : Topics} {ps : List (List Stored)}
    (htopics : c.topics = [topic]) (hps : (Assoc.get? t topic).getD [] = ps) :
    (c.fetch t).entries = (ahead c.options topic c.positions 0 ps).take c.options.limit ∧
      ahead c.options topic (c.fetch t).positions 0 ps =
        (ahead c.options topic c.positions 0 ps).drop c.options.limit := by
  have hfetch : c.fetch t = fetchPartitions c.options topic 0 ps ⟨[], c.positions⟩ := by
    rw [fetch, htopics, List.foldl_cons, List.foldl_nil, fetchTopic, ← hps]
    cases Assoc.get? t topic <;> rfl
  rw [hfetch]
  exact fetchPartitions_ahead 0 ps (b := ⟨[], c.positions⟩) (Nat.zero_le _)

/-- The positions behind all entries are those that a consumer starts at without any. -/
theorem getD_endPositions {t : Topics} {ps : List (List Stored)}
    (hps : (Assoc.get? t topic).getD [] = ps) (i : Nat) (es : List Stored) (hes : ps[i]? = some es) :
    (Assoc.get? (endPositions t [topic]) (topic, 0 + i)).getD es.length = es.length := by
  have hsame : ∀ pair ∈ ps.mapIdx fun i es => ((topic, i), es.length), pair.1 = (topic, 0 + i) →
      pair.2 = es.length := by
    intro pair hpair hkey
    obtain ⟨n, hn, rfl⟩ := List.mem_mapIdx.mp hpair
    obtain rfl : n = i := (Prod.mk.inj hkey).2.trans (Nat.zero_add i)
    rw [List.getElem?_eq_getElem hn] at hes
    exact congrArg List.length (Option.some.inj hes)
  rw [endPositions, List.foldl_cons, List.foldl_nil, hps, Assoc.get?_putAll hsame]
  split <;> rfl

end Ahead

/-! ## When partition 0 is all that is written -/

/-- How far a consumer has come in a topic that holds `es`. -/
def position (c : MemoryConsumer) (topic : String) (es : List Stored) : Nat :=
  (Assoc.get? c.positions (topic, 0)).getD (c.options.first es.length)

/-- What the consumer has before it. -/
def unread (c : MemoryConsumer) (topic : String) (es : List Stored) : List Entry :=
  handOver topic 0 (c.position topic es) (es.drop (c.position topic es))

/-- Where reading starts is known when the consumer is told the topic. -/
theorem position_subscribe {c : MemoryConsumer} {t : Topics} (ht : t.Holds topic es) :
    (c.subscribe t [topic]).position topic es = c.options.first es.length := by
  obtain ⟨⟨limit, start⟩, topics, positions, closed⟩ := c
  cases start with
  | earliest => rfl
  | latest =>
      rcases ht with ⟨hnone, rfl⟩ | ⟨n, hsome⟩
      · rw [subscribe, position]
        dsimp only
        rw [endPositions, List.foldl_cons, hnone]
        rfl
      · have hps : (Assoc.get? t topic).getD [] = es :: List.replicate n [] := by rw [hsome]; rfl
        exact getD_endPositions hps 0 es rfl

/-- Partitions without entries add nothing to what a consumer has before it. -/
theorem ahead_replicate (o : ConsumerOptions) (topic : String) (positions : Positions) (p n : Nat) :
    ahead o topic positions p (List.replicate n []) = [] := by
  induction n generalizing p with
  | zero => rfl
  | succ n ih =>
      rw [List.replicate_succ, ahead, ih, aheadIn, List.drop_nil]
      rfl

theorem ahead_holds {t : Topics} (ht : t.Holds topic es) (c : MemoryConsumer) :
    ahead c.options topic c.positions 0 ((Assoc.get? t topic).getD []) = c.unread topic es := by
  rcases ht with ⟨hnone, rfl⟩ | ⟨n, hsome⟩
  · rw [hnone, unread, List.drop_nil]
    rfl
  · rw [hsome, Option.getD_some, ahead, ahead_replicate, List.append_nil]
    rfl

/--
**A poll hands over the first entries that were not read**, as many as the limit allows, and
notes how far it came.
-/
theorem fetch_holds {c : MemoryConsumer} {t : Topics} (ht : t.Holds topic es)
    (htopics : c.topics = [topic]) (hlimit : c.options.limit = m) :
    (c.fetch t).entries = (c.unread topic es).take m ∧
      unread { c with positions := (c.fetch t).positions } topic es =
        (c.unread topic es).drop m := by
  obtain ⟨hentries, hahead⟩ := fetch_ahead htopics (rfl : (Assoc.get? t topic).getD [] = _)
  rw [ahead_holds ht c, hlimit] at hentries hahead
  exact ⟨hentries, (ahead_holds ht { c with positions := (c.fetch t).positions }).symm.trans hahead⟩

end MemoryConsumer

end SchemaHistory
