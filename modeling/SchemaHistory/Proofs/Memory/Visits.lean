import SchemaHistory.Proofs.Memory.Calls

/-!
# One visit after another

A poll comes to one partition after another, and to some of them more than once if a topic was
named more than once. It is full at some point, which may be inside any of them. What carries the
reading is said of each partition by itself: what was handed over of it lies between where
reading it began and where the consumer stands. A visit of the partition moves the consumer on
by what it hands over, and a visit of another partition changes nothing. So the order of the visits,
their number and the point at which the poll is full do not matter.
-/

namespace SchemaHistory

namespace MemoryConsumer

variable {o : ConsumerOptions} {topic : String} {p : Nat} {es : List Stored}

/-! ## Where a consumer stands in a partition -/

theorem handOver_append (topic : String) (p n : Nat) (es fs : List Stored) :
    handOver topic p n (es ++ fs) =
      handOver topic p n es ++ handOver topic p (n + es.length) fs := by
  have hsplit := List.take_append_drop es.length (handOver topic p n (es ++ fs))
  rw [← handOver_take, handOver_drop, List.take_left, List.drop_left] at hsplit
  exact hsplit.symm

/-- The first entries and those that are taken behind them. -/
theorem take_taken (es : List Stored) (n k : Nat) :
    es.take (n + ((es.drop n).take k).length) = es.take n ++ (es.drop n).take k := by
  have hsame : (es.drop n).take ((es.drop n).take k).length = (es.drop n).take k :=
    List.take_eq_take_iff.mpr (by rw [List.length_take]; omega)
  rw [List.take_add, hsame]

theorem mem_handOver {n : Nat} {e : Entry} (h : e ∈ handOver topic p n es) :
    e.topic = topic ∧ e.partition = p := by
  obtain ⟨i, hi, rfl⟩ := List.mem_mapIdx.mp h
  exact ⟨rfl, rfl⟩

theorem onPartition_handOver (key : String × Int) (topic : String) (p n : Nat) (es : List Stored) :
    onPartition key (handOver topic p n es) =
      if (topic, (p : Int)) = key then handOver topic p n es else [] := by
  refine onPartition_of fun e he => ?_
  obtain ⟨htopic, hpartition⟩ := mem_handOver he
  rw [htopic, hpartition]

/-- Of a partition with the entries `es` nothing was handed over, and the consumer stands nowhere in
it; or what was handed over lies between where reading it began and where the consumer stands. -/
inductive Stands (topic : String) (p : Nat) (es : List Stored) (handed : List Entry) :
    Option Nat → Option Nat → Prop
  | unread (h : onPartition (topic, (p : Int)) handed = []) : Stands topic p es handed none none
  | reading {first position : Nat} (hfirst : first ≤ position) (hposition : position ≤ es.length)
      (h : onPartition (topic, (p : Int)) handed =
        handOver topic p first ((es.take position).drop first)) :
      Stands topic p es handed (some first) (some position)

namespace Stands

variable {handed fs : List Entry} {first position : Option Nat}

/-- Reading begins where the consumer stands. -/
theorem at_once {n : Nat} (hn : n ≤ es.length) (h : onPartition (topic, (p : Int)) handed = []) :
    Stands topic p es handed (some n) (some n) := by
  refine .reading (Nat.le_refl n) hn ?_
  rw [h, List.drop_eq_nil_of_le (List.length_take_le n es)]
  rfl

/-- Entries come behind the others. -/
theorem grown (h : Stands topic p es handed first position) (new : List Stored) :
    Stands topic p (es ++ new) handed first position := by
  cases h with
  | unread h => exact .unread h
  | reading hfirst hposition h =>
      refine .reading hfirst ?_ ?_
      · rw [List.length_append]
        omega
      · rw [h, List.take_append_of_le_length hposition]

/-- Entries of other partitions are handed over. -/
theorem other (h : Stands topic p es handed first position)
    (hfs : onPartition (topic, (p : Int)) fs = []) :
    Stands topic p es (handed ++ fs) first position := by
  have hsame : onPartition (topic, (p : Int)) (handed ++ fs) =
      onPartition (topic, (p : Int)) handed := by
    rw [onPartition_append, hfs, List.append_nil]
  cases h with
  | unread h => exact .unread (hsame.trans h)
  | reading hfirst hposition h => exact .reading hfirst hposition (hsame.trans h)

/-- The next `k` entries of the partition are handed over. -/
theorem moved {start pos : Nat} (h : Stands topic p es handed (some start) (some pos)) (k : Nat) :
    Stands topic p es (handed ++ handOver topic p pos ((es.drop pos).take k)) (some start)
      (some (pos + ((es.drop pos).take k).length)) := by
  cases h with
  | reading hfirst hposition h =>
      have htake : (es.take pos).length = pos := by
        rw [List.length_take, Nat.min_eq_left hposition]
      have hread : ((es.take pos).drop start).length = pos - start := by
        rw [List.length_drop, htake]
      have hlength : ((es.drop pos).take k).length ≤ es.length - pos := by
        rw [List.length_take, List.length_drop]
        omega
      refine .reading (by omega) (by omega) ?_
      rw [onPartition_append, h, onPartition_handOver, if_pos rfl, take_taken,
        List.drop_append_of_le_length (by omega), handOver_append, hread,
        Nat.add_sub_cancel' hfirst]

end Stands

/-- The consumer stands behind all entries of the partition. -/
def Through (es : List Stored) (position : Option Nat) : Prop :=
  ∃ n, position = some n ∧ es.length ≤ n

namespace Stands

variable {handed : List Entry} {first position : Option Nat}

/-- Then everything was handed over from where reading began. -/
theorem through (h : Stands topic p es handed first position) (hthrough : Through es position) :
    ∃ n, first = some n ∧
      onPartition (topic, (p : Int)) handed = handOver topic p n (es.drop n) := by
  obtain ⟨n, hn, hlength⟩ := hthrough
  cases h with
  | unread _ => cases hn
  | reading _ _ h =>
      cases hn
      rw [List.take_of_length_le hlength] at h
      exact ⟨_, rfl, h⟩

/-- What was handed over are the first entries from where reading began. -/
theorem taken {start : Nat} (h : Stands topic p es handed (some start) position) :
    start ≤ es.length ∧ ∃ n, onPartition (topic, (p : Int)) handed =
      (handOver topic p start (es.drop start)).take n := by
  cases h with
  | @reading _ pos hfirst hposition h =>
      refine ⟨Nat.le_trans hfirst hposition, pos - start, ?_⟩
      rw [h, List.drop_take, handOver_take]

/-- Where reading began behind all entries, nothing was handed over. -/
theorem at_end (h : Stands topic p es handed first position)
    (hend : first.getD es.length = es.length) : onPartition (topic, (p : Int)) handed = [] := by
  cases h with
  | unread h => exact h
  | reading _ _ h =>
      rw [Option.getD_some] at hend
      rw [h, hend, List.drop_eq_nil_of_le (List.length_take_le' _ _)]
      rfl

/-- Before reading began nothing was handed over. -/
theorem before (h : Stands topic p es handed none position) :
    onPartition (topic, (p : Int)) handed = [] := by
  cases h with
  | unread h => exact h

/-- Of a partition without entries nothing was handed over. -/
theorem nothing (h : Stands topic p [] handed first position) :
    onPartition (topic, (p : Int)) handed = [] := by
  cases h with
  | unread h => exact h
  | reading _ _ h =>
      rw [h, List.take_nil, List.drop_nil]
      rfl

end Stands

/-! ## The visits of a poll -/

/-- A partition that a poll comes to, with the entries that it has. -/
structure Visit where
  topic : String
  partition : Nat
  entries : List Stored

/-- Which partition is visited. -/
def Visit.key (v : Visit) : String × Nat := (v.topic, v.partition)

/-- Takes as many entries as the batch has room for. -/
def Batch.visit (o : ConsumerOptions) (b : Batch) (v : Visit) : Batch :=
  fetchPartition o v.topic v.partition v.entries b

/-- The visits of partitions of which the first has the number `p`. -/
def visitsFrom (topic : String) : Nat → List (List Stored) → List Visit
  | _, [] => []
  | p, es :: rest => ⟨topic, p, es⟩ :: visitsFrom topic (p + 1) rest

/-- The visits of a poll, topic by topic. -/
def visits (t : Topics) (topics : List String) : List Visit :=
  topics.flatMap fun topic => visitsFrom topic 0 ((Assoc.get? t topic).getD [])

theorem fetchPartitions_eq (o : ConsumerOptions) (topic : String) (p : Nat)
    (ps : List (List Stored)) (b : Batch) :
    fetchPartitions o topic p ps b = (visitsFrom topic p ps).foldl (Batch.visit o) b := by
  induction ps generalizing p b with
  | nil => rfl
  | cons es ps ih => exact ih (p + 1) _

theorem foldl_fetchTopic (o : ConsumerOptions) (t : Topics) (topics : List String) (b : Batch) :
    topics.foldl (fetchTopic o t) b = (visits t topics).foldl (Batch.visit o) b := by
  induction topics generalizing b with
  | nil => rfl
  | cons topic topics ih =>
      rw [List.foldl_cons, ih, visits, visits, List.flatMap_cons, List.foldl_append, fetchTopic]
      cases Assoc.get? t topic with
      | none => rfl
      | some ps =>
          dsimp only
          rw [fetchPartitions_eq]
          rfl

/-- **A poll** makes its visits, one after another. -/
theorem fetch_eq (c : MemoryConsumer) (t : Topics) :
    c.fetch t = (visits t c.topics).foldl (Batch.visit c.options) ⟨[], c.positions⟩ :=
  foldl_fetchTopic c.options t c.topics _

theorem mem_visitsFrom {n : Nat} {ps : List (List Stored)} {v : Visit} :
    v ∈ visitsFrom topic n ps ↔
      v.topic = topic ∧ ∃ i, v.partition = n + i ∧ ps[i]? = some v.entries := by
  induction ps generalizing n with
  | nil => simp [visitsFrom]
  | cons es ps ih =>
      rw [visitsFrom, List.mem_cons, ih]
      constructor
      · rintro (rfl | ⟨htopic, i, hi, hes⟩)
        · exact ⟨rfl, 0, rfl, rfl⟩
        · exact ⟨htopic, i + 1, by omega, hes⟩
      · rintro ⟨htopic, i, hi, hes⟩
        cases i with
        | zero =>
            left
            obtain ⟨topic', p', es'⟩ := v
            rw [List.getElem?_cons_zero] at hes
            simp_all
        | succ i => exact .inr ⟨htopic, i, by omega, hes⟩

/-- A poll comes to every partition of its topics, and finds there what it holds. -/
theorem mem_visits {t : Topics} {topics : List String} {v : Visit} : v ∈ visits t topics ↔
    v.topic ∈ topics ∧ t.entries? v.topic v.partition = some v.entries := by
  rw [visits, List.mem_flatMap, Topics.entries?_nat]
  constructor
  · rintro ⟨topic, htopic, hv⟩
    obtain ⟨rfl, i, hi, hes⟩ := mem_visitsFrom.mp hv
    rw [Nat.zero_add] at hi
    rw [hi]
    cases hps : Assoc.get? t v.topic with
    | none =>
        rw [hps] at hes
        cases hes
    | some ps =>
        rw [hps] at hes
        exact ⟨htopic, hes⟩
  · rintro ⟨htopic, hes⟩
    obtain ⟨ps, hps, hes⟩ := Option.bind_eq_some_iff.mp hes
    exact ⟨v.topic, htopic, mem_visitsFrom.mpr
      ⟨rfl, v.partition, (Nat.zero_add _).symm, by rw [hps]; exact hes⟩⟩

theorem mem_keys_visits {t : Topics} {topics : List String} :
    (topic, p) ∈ (visits t topics).map Visit.key ↔
      topic ∈ topics ∧ ∃ es, t.entries? topic p = some es := by
  rw [List.mem_map]
  constructor
  · rintro ⟨⟨topic', p', es⟩, hv, hkey⟩
    cases hkey
    obtain ⟨htopic, hes⟩ := mem_visits.mp hv
    exact ⟨htopic, es, hes⟩
  · rintro ⟨htopic, es, hes⟩
    exact ⟨⟨topic, p, es⟩, mem_visits.mpr ⟨htopic, hes⟩, rfl⟩

/-- Whenever a poll comes to a partition it finds the same there. -/
theorem entries_of_mem_visits {t : Topics} {topics : List String} {v : Visit}
    (hv : v ∈ visits t topics) (hkey : v.key = (topic, p)) : v.entries = t.held (topic, p) := by
  obtain ⟨topic', p', es⟩ := v
  cases hkey
  exact (Topics.held_of_entries? (mem_visits.mp hv).2).symm

/-! ## Where the partitions end -/

theorem ends_visitsFrom (topic : String) (n : Nat) (ps : List (List Stored)) :
    (ps.mapIdx fun i es => ((topic, n + i), es.length)) =
      (visitsFrom topic n ps).map fun v => (v.key, v.entries.length) := by
  induction ps generalizing n with
  | nil => rfl
  | cons es ps ih =>
      rw [List.mapIdx_cons, visitsFrom, List.map_cons, ← ih]
      refine congrArg (_ :: ·) (congrArg (fun f => List.mapIdx f ps) ?_)
      funext i e
      rw [Nat.add_assoc, Nat.add_comm 1 i]

/-- A consumer that reads from the end notes the length of every partition that a poll would visit. -/
theorem endPositions_eq (t : Topics) (topics : List String) :
    endPositions t topics =
      Assoc.ofPairs ((visits t topics).map fun v => (v.key, v.entries.length)) := by
  have hfold : ∀ acc : Positions, topics.foldl
      (fun acc topic => acc.putAll
        (((Assoc.get? t topic).getD []).mapIdx fun i es => ((topic, i), es.length))) acc =
      acc.putAll ((visits t topics).map fun v => (v.key, v.entries.length)) := by
    induction topics with
    | nil => exact fun _ => rfl
    | cons topic topics ih =>
        intro acc
        rw [List.foldl_cons, ih, visits, visits, List.flatMap_cons, List.map_append, Assoc.putAll,
          Assoc.putAll, Assoc.putAll, List.foldl_append, ← ends_visitsFrom]
        simp only [Nat.zero_add]
  exact hfold []

/-- How many entries a partition of the topics has, if it is there. -/
def lengths (t : Topics) (topics : List String) (key : String × Nat) : Option Nat :=
  if key.1 ∈ topics then (t.entries? key.1 key.2).map List.length else none

theorem lengths_of_mem {t : Topics} {topics : List String}
    (h : (topic, p) ∈ (visits t topics).map Visit.key) :
    lengths t topics (topic, p) = some (t.held (topic, p)).length := by
  obtain ⟨htopic, es, hes⟩ := mem_keys_visits.mp h
  rw [lengths, if_pos htopic, hes, Topics.held_of_entries? hes]
  rfl

theorem lengths_of_notMem {t : Topics} {topics : List String}
    (h : (topic, p) ∉ (visits t topics).map Visit.key) : lengths t topics (topic, p) = none := by
  unfold lengths
  split
  · rename_i htopic
    cases hes : t.entries? topic p with
    | none => rfl
    | some es => exact absurd (mem_keys_visits.mpr ⟨htopic, es, hes⟩) h
  · rfl

/-- Those that a consumer notes which reads from the end. -/
theorem get?_endPositions (t : Topics) (topics : List String) (topic : String) (p : Nat) :
    Assoc.get? (endPositions t topics) (topic, p) = lengths t topics (topic, p) := by
  have hkeys : ((visits t topics).map fun v => (v.key, v.entries.length)).map Prod.fst =
      (visits t topics).map Visit.key := by
    rw [List.map_map]
    rfl
  have hsame : ∀ pair ∈ (visits t topics).map fun v => (v.key, v.entries.length),
      pair.1 = (topic, p) → pair.2 = (t.held (topic, p)).length := by
    intro pair hpair hkey
    obtain ⟨v, hv, rfl⟩ := List.mem_map.mp hpair
    rw [entries_of_mem_visits hv hkey]
  rw [endPositions_eq, Assoc.ofPairs, Assoc.get?_putAll hsame, hkeys]
  by_cases hmem : (topic, p) ∈ (visits t topics).map Visit.key
  · rw [if_pos hmem, lengths_of_mem hmem]
  · rw [if_neg hmem, lengths_of_notMem hmem]
    rfl

/-! ## What visits do -/

section Visits

variable {b : Batch} {v : Visit} {vs : List Visit} {handed : List Entry} {first : Option Nat}

theorem entries_visit (o : ConsumerOptions) (b : Batch) (v : Visit) :
    (b.visit o v).entries = b.entries ++
      handOver v.topic v.partition (positionIn o v.topic b.positions v.partition v.entries)
        ((v.entries.drop (positionIn o v.topic b.positions v.partition v.entries)).take
          (o.limit - b.entries.length)) := rfl

theorem position_visit (o : ConsumerOptions) (b : Batch) (v : Visit) (key : String × Nat) :
    Assoc.get? (b.visit o v).positions key = if v.key = key
      then some (positionIn o v.topic b.positions v.partition v.entries +
        ((v.entries.drop (positionIn o v.topic b.positions v.partition v.entries)).take
          (o.limit - b.entries.length)).length)
      else Assoc.get? b.positions key := Assoc.get?_put _ _ _ _

/-- Reading begins at the first entry or behind the last one. -/
theorem first_le (o : ConsumerOptions) (n : Nat) : o.first n ≤ n := by
  unfold ConsumerOptions.first
  split
  · exact Nat.zero_le n
  · exact Nat.le_refl n

/-- **One visit.** Reading a partition begins with the first visit, if it did not begin before. -/
theorem Stands.visit
    (h : Stands topic p es (handed ++ b.entries) first (Assoc.get? b.positions (topic, p)))
    (hv : v.key = (topic, p) → v.entries = es) :
    Stands topic p es (handed ++ (b.visit o v).entries)
      (if v.key = (topic, p) then some (first.getD (o.first es.length)) else first)
      (Assoc.get? (b.visit o v).positions (topic, p)) := by
  rw [position_visit, entries_visit, ← List.append_assoc]
  obtain ⟨topic', p', es'⟩ := v
  by_cases hkey : (topic', p') = (topic, p)
  · obtain rfl : es' = es := hv hkey
    cases hkey
    have hbegun : Stands topic p es' (handed ++ b.entries) (some (first.getD (o.first es'.length)))
        (some (positionIn o topic b.positions p es')) := by
      rw [positionIn]
      generalize Assoc.get? b.positions (topic, p) = position at h
      cases h with
      | unread h => exact .at_once (first_le o _) h
      | reading hfirst hposition h => exact .reading hfirst hposition h
    rw [if_pos (show (⟨topic, p, es'⟩ : Visit).key = (topic, p) from rfl),
      if_pos (show (⟨topic, p, es'⟩ : Visit).key = (topic, p) from rfl)]
    exact hbegun.moved _
  · rw [if_neg (show ¬ (⟨topic', p', es'⟩ : Visit).key = (topic, p) from hkey),
      if_neg (show ¬ (⟨topic', p', es'⟩ : Visit).key = (topic, p) from hkey)]
    refine h.other ?_
    rw [onPartition_handOver, if_neg]
    intro heq
    obtain ⟨rfl, hp⟩ := Prod.mk.inj heq
    obtain rfl := Int.ofNat.inj hp
    exact hkey rfl

/-- **Some visits**, in any order and of whatever partitions. -/
theorem Stands.foldl_visit
    (h : Stands topic p es (handed ++ b.entries) first (Assoc.get? b.positions (topic, p)))
    (hvs : ∀ v ∈ vs, v.key = (topic, p) → v.entries = es) :
    Stands topic p es (handed ++ (vs.foldl (Batch.visit o) b).entries)
      (if (topic, p) ∈ vs.map Visit.key then some (first.getD (o.first es.length)) else first)
      (Assoc.get? (vs.foldl (Batch.visit o) b).positions (topic, p)) := by
  induction vs generalizing b first with
  | nil => exact h
  | cons v vs ih =>
      have hnext := ih (h.visit (o := o) (hvs v List.mem_cons_self))
        fun w hw => hvs w (List.mem_cons_of_mem v hw)
      by_cases hv : v.key = (topic, p)
      · rw [if_pos hv, Option.getD_some, ite_self] at hnext
        rw [if_pos (List.mem_map.mpr ⟨v, List.mem_cons_self, hv⟩)]
        exact hnext
      · have hmem : (topic, p) ∈ (v :: vs).map Visit.key ↔ (topic, p) ∈ vs.map Visit.key := by
          rw [List.map_cons, List.mem_cons, or_iff_right fun h => hv h.symm]
        rw [if_neg hv] at hnext
        simp only [hmem]
        exact hnext

/-- Entries are only added to a batch. -/
theorem entries_visits (o : ConsumerOptions) (vs : List Visit) (b : Batch) :
    b.entries <+: (vs.foldl (Batch.visit o) b).entries := by
  induction vs generalizing b with
  | nil => exact List.prefix_refl _
  | cons v vs ih => exact (List.prefix_append _ _).trans (ih (b.visit o v))

/-- A batch has no more entries than the limit allows. -/
theorem length_visits (hroom : b.entries.length ≤ o.limit) :
    (vs.foldl (Batch.visit o) b).entries.length ≤ o.limit := by
  induction vs generalizing b with
  | nil => exact hroom
  | cons v vs ih =>
      refine ih ?_
      rw [entries_visit, List.length_append, length_handOver, List.length_take]
      omega

/-- What a batch has is from the partitions that were visited. -/
theorem mem_visits_entries {e : Entry} (h : e ∈ (vs.foldl (Batch.visit o) b).entries) :
    e ∈ b.entries ∨ ∃ v ∈ vs, e.topic = v.topic ∧ e.partition = v.partition := by
  induction vs generalizing b with
  | nil => exact .inl h
  | cons v vs ih =>
      rcases ih h with h | ⟨w, hw, he⟩
      · rcases List.mem_append.mp h with h | h
        · exact .inl h
        · exact .inr ⟨v, List.mem_cons_self, mem_handOver h⟩
      · exact .inr ⟨w, List.mem_cons_of_mem v hw, he⟩

/-- **A batch that stays empty** has come to the end of every partition that was visited. -/
theorem through_visits (hlimit : 0 < o.limit)
    (hvs : ∀ v ∈ vs, v.key = (topic, p) → v.entries = es)
    (hnothing : (vs.foldl (Batch.visit o) b).entries = [])
    (hcame : (topic, p) ∈ vs.map Visit.key ∨ Through es (Assoc.get? b.positions (topic, p))) :
    Through es (Assoc.get? (vs.foldl (Batch.visit o) b).positions (topic, p)) := by
  induction vs generalizing b with
  | nil =>
      rcases hcame with hcame | hcame
      · cases hcame
      · exact hcame
  | cons v vs ih =>
      refine ih (fun w hw => hvs w (List.mem_cons_of_mem v hw)) hnothing ?_
      have hempty : (b.visit o v).entries = [] := by
        have hprefix := entries_visits o vs (b.visit o v)
        rw [List.foldl_cons] at hnothing
        rw [hnothing] at hprefix
        exact List.prefix_nil.mp hprefix
      rw [entries_visit, List.append_eq_nil_iff] at hempty
      obtain ⟨hb, htaken⟩ := hempty
      have hlength := congrArg List.length htaken
      rw [length_handOver, hb, List.length_take, List.length_drop, List.length_nil] at hlength
      by_cases hv : v.key = (topic, p)
      · right
        rw [position_visit, if_pos hv, ← hvs v List.mem_cons_self hv]
        exact ⟨_, rfl, by omega⟩
      · rw [position_visit, if_neg hv]
        rcases hcame with hcame | hcame
        · left
          exact (List.mem_cons.mp hcame).resolve_left fun h => hv h.symm
        · exact .inr hcame

end Visits

/-! ## What a poll does -/

section Poll

variable {c : MemoryConsumer} {t : Topics} {handed : List Entry} {first : Option Nat}

/-- **A poll** comes to the partitions of its topics that are there. Reading one of them begins now,
if it did not begin before. -/
theorem Stands.fetch (h : Stands topic p (t.held (topic, (p : Int))) handed first
      (Assoc.get? c.positions (topic, p))) :
    Stands topic p (t.held (topic, (p : Int))) (handed ++ (c.fetch t).entries)
      (if (topic, p) ∈ (visits t c.topics).map Visit.key
        then some (first.getD (c.options.first (t.held (topic, (p : Int))).length)) else first)
      (Assoc.get? (c.fetch t).positions (topic, p)) := by
  rw [fetch_eq]
  refine Stands.foldl_visit ?_ fun v hv hkey => entries_of_mem_visits hv hkey
  rw [List.append_nil]
  exact h

/-- It hands over no more than the limit. -/
theorem length_fetch (c : MemoryConsumer) (t : Topics) :
    (c.fetch t).entries.length ≤ c.options.limit := by
  rw [fetch_eq]
  exact length_visits (Nat.zero_le _)

/-- It hands over nothing but entries of its topics. -/
theorem mem_fetch {e : Entry} (h : e ∈ (c.fetch t).entries) :
    e.topic ∈ c.topics ∧ 0 ≤ e.partition := by
  rw [fetch_eq] at h
  rcases mem_visits_entries h with h | ⟨v, hv, htopic, hpartition⟩
  · cases h
  · rw [htopic, hpartition]
    exact ⟨(mem_visits.mp hv).1, Int.natCast_nonneg _⟩

/-- If it hands over nothing, it has come to the end of each partition that is there. -/
theorem through_fetch (hlimit : 0 < c.options.limit) (hnothing : (c.fetch t).entries = [])
    (hcame : (topic, p) ∈ (visits t c.topics).map Visit.key) :
    Through (t.held (topic, (p : Int))) (Assoc.get? (c.fetch t).positions (topic, p)) := by
  rw [fetch_eq] at hnothing ⊢
  exact through_visits hlimit (fun v hv hkey => entries_of_mem_visits hv hkey) hnothing (.inl hcame)

/-- Where it stands in a partition that it does not come to stays as it is. -/
theorem position_fetch_other (h : (topic, p) ∉ (visits t c.topics).map Visit.key) :
    Assoc.get? (c.fetch t).positions (topic, p) = Assoc.get? c.positions (topic, p) := by
  have hfold : ∀ (vs : List Visit) (b : Batch), (topic, p) ∉ vs.map Visit.key →
      Assoc.get? (vs.foldl (Batch.visit c.options) b).positions (topic, p) =
        Assoc.get? b.positions (topic, p) := by
    intro vs
    induction vs with
    | nil => exact fun _ _ => rfl
    | cons v vs ih =>
        intro b hvs
        rw [List.map_cons, List.mem_cons, not_or] at hvs
        rw [List.foldl_cons, ih _ hvs.2, position_visit, if_neg (Ne.symm hvs.1)]
  rw [fetch_eq]
  exact hfold _ _ h

/-- **At the end of every partition** nothing is handed over. -/
theorem fetch_eq_nil (hends : ∀ topic (p : Nat),
      positionIn c.options topic c.positions p (t.held (topic, (p : Int))) =
        (t.held (topic, (p : Int))).length) : (c.fetch t).entries = [] := by
  refine List.eq_nil_iff_forall_not_mem.mpr fun e he => ?_
  obtain ⟨p, hp⟩ := Int.eq_ofNat_of_zero_le (mem_fetch he).2
  have hend := hends e.topic p
  rw [positionIn] at hend
  have hstands : Stands e.topic p (t.held (e.topic, (p : Int))) []
      (Assoc.get? c.positions (e.topic, p)) (Assoc.get? c.positions (e.topic, p)) := by
    cases hposition : Assoc.get? c.positions (e.topic, p) with
    | none => exact .unread rfl
    | some n =>
        rw [hposition, Option.getD_some] at hend
        exact .at_once (Nat.le_of_eq hend) rfl
  -- reading the partition of the entry began behind all entries, or begins there
  have hnothing := hstands.fetch.at_end (by
    split
    · rw [hend, Option.getD_some]
    · cases hposition : Assoc.get? c.positions (e.topic, p) with
      | none => rfl
      | some n =>
          rw [hposition] at hend
          exact hend)
  have hmem : e ∈ onPartition (e.topic, (p : Int)) ([] ++ (c.fetch t).entries) :=
    List.mem_filter.mpr ⟨he, decide_eq_true (Prod.ext rfl hp)⟩
  rw [hnothing] at hmem
  cases hmem

/-- **Before the end of a partition** that it comes to something is handed over. -/
theorem fetch_ne_nil {n : Nat} (hlimit : 0 < c.options.limit) (htopic : topic ∈ c.topics)
    (hes : t.entries? topic p = some es) (hposition : Assoc.get? c.positions (topic, p) = some n)
    (hn : n < es.length) : (c.fetch t).entries ≠ [] := by
  intro hnothing
  have hheld := Topics.held_of_entries? hes
  have hmem := mem_keys_visits.mpr ⟨htopic, es, hes⟩
  have hstands : Stands topic p (t.held (topic, (p : Int))) [] (some n)
      (Assoc.get? c.positions (topic, p)) := by
    rw [hposition, hheld]
    exact .at_once (Nat.le_of_lt hn) rfl
  obtain ⟨m, hm, hall⟩ := hstands.fetch.through (through_fetch hlimit hnothing hmem)
  rw [if_pos hmem, Option.getD_some] at hm
  cases hm
  have hlength := congrArg List.length hall
  rw [hnothing, hheld, length_handOver, List.length_drop] at hlength
  have : (onPartition (topic, (p : Int)) ([] ++ [])).length = 0 := rfl
  omega

end Poll

end MemoryConsumer

end SchemaHistory
