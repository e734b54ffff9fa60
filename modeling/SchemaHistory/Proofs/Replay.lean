import SchemaHistory.History
import SchemaHistory.Log.Options
import SchemaHistory.Proofs.Payload

/-!
# What a replay reads

A replay knows nothing of the log but its polls. So one law about polls is enough: what is
still to come is a list, a poll hands over the first `m` entries of it, and the rest is
still to come. From this law alone follows what a whole recovery gives: the records among
all entries, in their order, and the number of polls to the last one. Every log owes this
law and nothing else.
-/

namespace SchemaHistory

variable {τ : Type}

/-- The record that an entry holds, if it holds one. -/
def Entry.record? (e : Entry) : Option Record := (Record.parse e.payload.toList).toOption

/-- The records among some entries, in their order. -/
def recordsOf (es : List Entry) : List Record := es.filterMap Entry.record?

theorem recordsOf_append (es fs : List Entry) :
    recordsOf (es ++ fs) = recordsOf es ++ recordsOf fs := List.filterMap_append

theorem recordsOf_length_le (es : List Entry) : (recordsOf es).length ≤ es.length :=
  List.length_filterMap_le _ _

/-- The entry is of the partition. -/
def Entry.isOf (key : String × Int) (e : Entry) : Bool := (e.topic, e.partition) = key

/-- The entries of a partition among some, in their order. -/
def onPartition (key : String × Int) (es : List Entry) : List Entry := es.filter (Entry.isOf key)

theorem onPartition_append (key : String × Int) (es fs : List Entry) :
    onPartition key (es ++ fs) = onPartition key es ++ onPartition key fs := List.filter_append _ _

/-- Entries of one partition are all of those that are asked for, or none is. -/
theorem onPartition_of {key other : String × Int} {es : List Entry}
    (h : ∀ e ∈ es, (e.topic, e.partition) = other) :
    onPartition key es = if other = key then es else [] := by
  split
  · rename_i hkey
    refine List.filter_eq_self.mpr fun e he => ?_
    rw [Entry.isOf, h e he, decide_eq_true hkey]
  · rename_i hkey
    refine List.filter_eq_nil_iff.mpr fun e he => ?_
    rw [Entry.isOf, h e he, decide_eq_false hkey]
    exact Bool.false_ne_true

/--
`Serves poll m R`: while `R xs s` holds, the entries `xs` are still to come; a poll hands
over the first `m` of them. A poll that fails hands over nothing, so it may fail only when
nothing is to come.
-/
def Serves (poll : τ → PollResult × τ) (m : Nat) (R : List Entry → τ → Prop) : Prop :=
  ∀ xs s, R xs s → Replay.entriesOf (poll s).1 = xs.take m ∧ R (xs.drop m) (poll s).2

/-! ## One poll -/

namespace Summary

/-- A summary after more polls and entries, of which some are records. -/
def plus (s : Summary) (polls entries recovered : Nat) : Summary :=
  ⟨s.polls + polls, s.entries + entries, s.recovered + recovered,
    s.skipped + (entries - recovered)⟩

theorem plus_plus (s : Summary) {p e r p' e' r' : Nat} (h : r ≤ e) (h' : r' ≤ e') :
    (s.plus p e r).plus p' e' r' = s.plus (p + p') (e + e') (r + r') := by
  simp only [plus, Summary.mk.injEq]
  omega

end Summary

namespace Replay

/-- A replay that has taken in some entries since. -/
def Took (r r' : Replay) (polls : Nat) (es : List Entry) : Prop :=
  r'.records = r.records ++ recordsOf es ∧
    r'.summary = r.summary.plus polls es.length (recordsOf es).length

theorem Took.refl (r : Replay) : Took r r 0 [] := by
  refine ⟨?_, rfl⟩
  rw [show recordsOf [] = [] from rfl, List.append_nil]

theorem Took.trans {r r' r'' : Replay} {p p' : Nat} {es es' : List Entry} (h : Took r r' p es)
    (h' : Took r' r'' p' es') : Took r r'' (p + p') (es ++ es') := by
  refine ⟨?_, ?_⟩
  · rw [h'.1, h.1, recordsOf_append, List.append_assoc]
  · rw [h'.2, h.2, Summary.plus_plus _ (recordsOf_length_le es) (recordsOf_length_le es'),
      recordsOf_append, List.length_append, List.length_append]

theorem take_took (r : Replay) (e : Entry) :
    Took r (r.take e) 0 [e] ∧ (r.take e).budget = r.budget := by
  unfold take
  cases h : Record.parse e.payload.toList with
  | ok record =>
      have hrec : recordsOf [e] = [record] := by
        rw [recordsOf, List.filterMap_cons, Entry.record?, h]
        rfl
      refine ⟨⟨?_, ?_⟩, rfl⟩
      · rw [hrec]
      · rw [hrec]
        rfl
  | error err =>
      have hrec : recordsOf [e] = [] := by
        rw [recordsOf, List.filterMap_cons, Entry.record?, h]
        rfl
      refine ⟨⟨?_, ?_⟩, rfl⟩
      · rw [hrec, List.append_nil]
      · rw [hrec]
        rfl

theorem foldl_take_took (r : Replay) (es : List Entry) :
    Took r (es.foldl take r) 0 es ∧ (es.foldl take r).budget = r.budget := by
  induction es generalizing r with
  | nil => exact ⟨Took.refl r, rfl⟩
  | cons e es ih =>
      obtain ⟨hone, hbudget⟩ := take_took r e
      obtain ⟨hrest, hbudget'⟩ := ih (r.take e)
      exact ⟨hone.trans hrest, hbudget'.trans hbudget⟩

/-- A replay that has counted a poll and not looked at its entries yet. -/
def counted (r : Replay) (p : PollResult) : Replay :=
  { r with
    summary := { r.summary with polls := r.summary.polls + 1 }
    events := r.events ++ pollEvents p }

theorem counted_took (r : Replay) (p : PollResult) : Took r (r.counted p) 1 [] := by
  refine ⟨?_, rfl⟩
  rw [show recordsOf [] = [] from rfl, List.append_nil]
  rfl

theorem observe_eq (r : Replay) (p : PollResult) : r.observe p =
    { (entriesOf p).foldl take (r.counted p) with
      budget := ((entriesOf p).foldl take (r.counted p)).budget.observe (entriesOf p).length } :=
  rfl

/-- A poll is counted, its entries are taken in, and the budget looks at their number. -/
theorem observe_took (r : Replay) (p : PollResult) :
    Took r (r.observe p) 1 (entriesOf p) ∧
      (r.observe p).budget = r.budget.observe (entriesOf p).length := by
  obtain ⟨htake, hbudget⟩ := foldl_take_took (r.counted p) (entriesOf p)
  have htook : Took r ((entriesOf p).foldl take (r.counted p)) 1 (entriesOf p) :=
    (counted_took r p).trans htake
  rw [observe_eq]
  refine ⟨htook, ?_⟩
  dsimp only
  rw [hbudget]
  rfl

/-! ## All polls -/

variable {poll : τ → PollResult × τ} {m : Nat} {R : List Entry → τ → Prop}

theorem drain_done {limit : Nat} {r : Replay} {s : τ} (h : r.budget.isDone = true) :
    drain poll limit r s = some (r, s) := by
  rw [drain.eq_def]
  dsimp only
  rw [if_pos h]

theorem drain_step {limit : Nat} {r : Replay} {s : τ} (h : r.budget.isDone = false) :
    drain poll (limit + 1) r s = drain poll limit (r.observe (poll s).1) (poll s).2 := by
  rw [drain, if_neg (ne_true_of_eq_false h)]

theorem isDone_active {b : Budget} {n : Nat} (h : b.state = .active n) : b.isDone = false := by
  rw [Budget.isDone, h]
  rfl

/-- A poll when nothing is still to come hands over nothing. -/
theorem observe_quiet (hserves : Serves poll m R) (r : Replay) {s : τ} (hR : R [] s) :
    R [] (poll s).2 ∧ Took r (r.observe (poll s).1) 1 [] ∧
      (r.observe (poll s).1).budget = r.budget.observe 0 := by
  obtain ⟨hnone, hR'⟩ := hserves [] s hR
  rw [List.take_nil] at hnone
  rw [List.drop_nil] at hR'
  obtain ⟨htook, hbudget⟩ := observe_took r (poll s).1
  rw [hnone] at htook hbudget
  exact ⟨hR', htook, hbudget⟩

/-- When nothing is still to come, the patience that is left is spent. -/
theorem drain_quiet (hserves : Serves poll m R) {n limit : Nat} {r : Replay} {s : τ}
    (hr : r.budget.state = .active (n + 1)) (hR : R [] s) (hlimit : n + 1 ≤ limit) :
    ∃ r' s', drain poll limit r s = some (r', s') ∧ R [] s' ∧ Took r r' (n + 1) [] := by
  induction n generalizing r s limit with
  | zero =>
      obtain ⟨limit, rfl⟩ : ∃ l, limit = l + 1 := ⟨limit - 1, by omega⟩
      obtain ⟨hR', htook, hbudget⟩ := observe_quiet hserves r hR
      have hdone : (r.observe (poll s).1).budget.isDone = true := by
        rw [hbudget, Budget.observe, hr]
        rfl
      refine ⟨r.observe (poll s).1, (poll s).2, ?_, hR', htook⟩
      rw [drain_step (isDone_active hr), drain_done hdone]
  | succ n ih =>
      obtain ⟨limit, rfl⟩ : ∃ l, limit = l + 1 := ⟨limit - 1, by omega⟩
      obtain ⟨hR', htook, hbudget⟩ := observe_quiet hserves r hR
      have hactive : (r.observe (poll s).1).budget.state = .active (n + 1) := by
        rw [hbudget, Budget.observe, hr]
        dsimp only
        rw [if_neg (by omega), if_neg (by omega)]
        rfl
      have hleft : n + 1 ≤ limit := by omega
      obtain ⟨r', s'', hdrain, hR'', htook'⟩ := ih hactive hR' hleft
      refine ⟨r', s'', ?_, hR'', ?_⟩
      · rw [drain_step (isDone_active hr)]
        exact hdrain
      · have := htook.trans htook'
        rwa [Nat.add_comm 1 (n + 1)] at this

/-- How many polls hand over `k` entries, `m` at most in each. -/
def batches (k m : Nat) : Nat := (k + m - 1) / m

theorem batches_zero (hm : 0 < m) : batches 0 m = 0 := by
  rw [batches, Nat.zero_add]
  exact Nat.div_eq_of_lt (by omega)

theorem batches_pos {k : Nat} (hm : 0 < m) (hk : 0 < k) :
    batches k m = batches (k - m) m + 1 := by
  by_cases h : m ≤ k
  · rw [batches, batches, ← Nat.add_div_right _ hm]
    congr 1
    omega
  · rw [show k - m = 0 by omega, batches_zero hm, batches]
    exact Nat.div_eq_of_lt_le (by omega) (by omega)

theorem batches_mono {k k' : Nat} (h : k ≤ k') : batches k m ≤ batches k' m :=
  Nat.div_le_div_right (by omega)

/-- No more batches are needed than there are entries. -/
theorem batches_le (hm : 0 < m) (k : Nat) : batches k m ≤ k := by
  induction k using Nat.strongRecOn with
  | ind k ih =>
      rcases Nat.eq_zero_or_pos k with rfl | hk
      · exact Nat.le_of_eq (batches_zero hm)
      · rw [batches_pos hm hk]
        have := ih (k - m) (by omega)
        omega

/--
**A replay of a log that serves a list reads the list.** With patience for `attempts` empty
polls, of which `n + 1` are left, it takes in everything that is still to come, and then polls
until its patience is spent: the whole of it, when anything came.
-/
theorem drain_serves (hserves : Serves poll m R) (hm : 0 < m) {attempts n limit : Nat}
    {xs : List Entry} {r : Replay} {s : τ} (hattempts : r.budget.attempts = attempts + 1)
    (hr : r.budget.state = .active (n + 1)) (hR : R xs s)
    (hn : xs = [] → n = attempts) (hlimit : batches xs.length m + (attempts + 1) ≤ limit) :
    ∃ r' s', drain poll limit r s = some (r', s') ∧ R [] s' ∧
      Took r r' (batches xs.length m + (attempts + 1)) xs := by
  -- the induction is on the batches that are left; the patience differs from one to the next
  induction hk : batches xs.length m generalizing xs r s limit n with
  | zero =>
      -- no batch is left, so nothing is still to come and only patience is spent
      have hxs : xs = [] := by
        cases xs with
        | nil => rfl
        | cons x xs =>
            have := batches_pos (k := (x :: xs).length) hm (by simp)
            omega
      subst hxs
      obtain rfl := hn rfl
      rw [hk] at hlimit
      have hleft : n + 1 ≤ limit := by omega
      obtain ⟨r', s', hdrain, hR', htook⟩ := drain_quiet hserves hr hR hleft
      refine ⟨r', s', hdrain, hR', ?_⟩
      rwa [Nat.zero_add]
  | succ k ih =>
      have hpos : 0 < xs.length := by
        cases xs with
        | nil =>
            rw [List.length_nil, batches_zero hm] at hk
            cases hk
        | cons x xs => simp
      have hbatch : batches (xs.drop m).length m = k := by
        have := batches_pos hm hpos
        rw [List.length_drop]
        omega
      obtain ⟨limit, rfl⟩ : ∃ l, limit = l + 1 := ⟨limit - 1, by omega⟩
      obtain ⟨hsome, hR'⟩ := hserves xs s hR
      obtain ⟨htook, hbudget⟩ := observe_took r (poll s).1
      rw [hsome] at htook hbudget
      have hlen : 0 < (xs.take m).length := by
        rw [List.length_take]
        omega
      -- something came, so the whole patience is restored
      have hnext : (r.observe (poll s).1).budget = ⟨attempts + 1, .active (attempts + 1)⟩ := by
        rw [hbudget, Budget.observe, hr]
        dsimp only
        rw [if_pos hlen, hattempts]
        rfl
      have hleft : batches (xs.drop m).length m + (attempts + 1) ≤ limit := by omega
      obtain ⟨r', s'', hdrain, hR'', htook'⟩ := ih (by rw [hnext]) (by rw [hnext]) hR'
        (fun _ => rfl) hleft hbatch
      refine ⟨r', s'', ?_, hR'', ?_⟩
      · rw [drain_step (isDone_active hr)]
        exact hdrain
      · have hall := htook.trans htook'
        rw [List.take_append_drop] at hall
        rwa [show 1 + (k + (attempts + 1)) = k + 1 + (attempts + 1) by omega] at hall

end Replay

/-! ## A recovery -/

/--
What a recovery gives that has read some entries, each of which held a record or none, with
patience for `attempts` empty polls and `m` entries in a poll at most.
-/
def Recovery.ofReadings (attempts m : Nat) (readings : List (Option Record)) : Recovery :=
  ⟨readings.filterMap id, Replay.batches readings.length m + attempts, readings.length,
    readings.countP Option.isSome, readings.countP Option.isNone⟩

theorem recordsOf_eq (es : List Entry) : recordsOf es = (es.map Entry.record?).filterMap id := by
  rw [List.filterMap_map]
  rfl

theorem length_recordsOf (es : List Entry) :
    (recordsOf es).length = (es.map Entry.record?).countP Option.isSome := by
  rw [recordsOf_eq, List.length_filterMap_eq_countP]
  rfl

/-- Readings that are records and readings that are none add up to all. -/
theorem countP_isSome_add_countP_isNone (readings : List (Option Record)) :
    readings.countP Option.isSome + readings.countP Option.isNone = readings.length := by
  have hsplit := List.length_eq_countP_add_countP Option.isSome (l := readings)
  have hnone : readings.countP (fun a => !a.isSome) = readings.countP Option.isNone :=
    List.countP_congr fun a _ => by simp
  simp only [Bool.not_eq_true, Bool.decide_eq_false] at hsplit
  omega

theorem length_sub_recordsOf (es : List Entry) :
    es.length - (recordsOf es).length = (es.map Entry.record?).countP Option.isNone := by
  have hsplit := countP_isSome_add_countP_isNone (es.map Entry.record?)
  rw [List.length_map, ← length_recordsOf] at hsplit
  omega

theorem Replay.drain_begin {poll : τ → PollResult × τ} {m : Nat} {R : List Entry → τ → Prop}
    (hserves : Serves poll m R) (hm : 0 < m) {attempts limit : Nat} (hattempts : 0 < attempts)
    {xs : List Entry} {s : τ} (hR : R xs s) (hlimit : batches xs.length m + attempts ≤ limit) :
    ∃ r s', drain poll limit (begin attempts) s = some (r, s') ∧ R [] s' ∧
      (⟨r.records, r.summary⟩ : Recovery) = .ofReadings attempts m (xs.map Entry.record?) := by
  obtain ⟨attempts, rfl⟩ : ∃ a, attempts = a + 1 := ⟨attempts - 1, by omega⟩
  obtain ⟨r, s', hdrain, hR', hrecords, hsummary⟩ :=
    drain_serves (r := begin (attempts + 1)) hserves hm rfl rfl hR (fun _ => rfl) hlimit
  refine ⟨r, s', hdrain, hR', ?_⟩
  rw [hrecords, hsummary, Recovery.ofReadings, ← recordsOf_eq, ← length_recordsOf,
    ← length_sub_recordsOf, List.length_map]
  simp [begin, Summary.plus]

/-- What a consumer goes by, from the two settings that matter to it. -/
theorem ConsumerOptions.ofSettings_eq {settings : ClientSettings} {m : Nat} {start : StartAt}
    (hlimit : settings.getOr (Text.natural? maxLimit) limitKey defaultLimit = .ok m)
    (hstart : startOf ((settings.get? startKey).getD "latest") = .ok start) :
    ofSettings settings = .ok ⟨max 1 m, start⟩ := by
  rw [ofSettings, hlimit]
  dsimp only
  rw [hstart, Nat.max_comm]

/-- A consumer may hand over something. -/
theorem limit_pos {settings : ClientSettings} {o : ConsumerOptions}
    (h : ConsumerOptions.ofSettings settings = .ok o) : 0 < o.limit := by
  unfold ConsumerOptions.ofSettings at h
  split at h
  · cases h
  split at h
  · cases h
  · cases h
    exact Nat.lt_of_lt_of_le Nat.zero_lt_one (Nat.le_max_right _ 1)

/-- The number of the entry at which reading starts where `n` are. -/
def ConsumerOptions.first (o : ConsumerOptions) (n : Nat) : Nat :=
  match o.start with
  | .earliest => 0
  | .latest => n

/--
**A recovery gives the records on the log.** If the consumer it makes is served a list of
entries, the recovery hands over the records among them, in their order, and polls until its
attempts are spent after the last of them.
-/
theorem History.recover_serves {host : Host τ} {h : History} {k : ConsumerId} {m limit : Nat}
    {R : List Entry → τ → Prop} {xs : List Entry} {s s₁ s₂ : τ}
    (hcreate : host.createConsumer h.settings.consumer s = (.ok k, s₁))
    (hsubscribe : host.subscribe k [h.settings.topic] s₁ = (.ok (), s₂))
    (hserves : Serves (host.poll k h.settings.pollInterval) m R) (hm : 0 < m)
    (hattempts : 0 < h.settings.attempts) (hR : R xs s₂)
    (hlimit : Replay.batches xs.length m + h.settings.attempts ≤ limit) :
    ∃ events s', R [] s' ∧ h.recover host limit s =
      some (.ok (.ofReadings h.settings.attempts m (xs.map Entry.record?)), events,
        (closeScoped host k s').2) := by
  obtain ⟨r, s', hdrain, hR', houtcome⟩ := Replay.drain_begin hserves hm hattempts hR hlimit
  refine ⟨h.subscribeEvent :: (r.events ++ h.recoveredEvent r.summary :: (closeScoped host k s').1),
    s', hR', ?_⟩
  rw [History.recover, hcreate]
  dsimp only
  rw [hsubscribe]
  dsimp only
  rw [hdrain]
  dsimp only
  rw [houtcome]

/-! ## Recoveries from two logs -/

section TwoLogs

variable {τ' : Type} {host : Host τ} {host' : Host τ'} {h : History} {m : Nat}

namespace Replay

/-- Two replays have come to the same, whatever they reported. -/
structure Alike (r r' : Replay) : Prop where
  budget : r.budget = r'.budget
  summary : r.summary = r'.summary
  records : r.records = r'.records

theorem Alike.foldl_take {r r' : Replay} (h : r.Alike r') (es : List Entry) :
    (es.foldl take r).Alike (es.foldl take r') := by
  induction es generalizing r r' with
  | nil => exact h
  | cons e es ih =>
      refine ih ?_
      unfold take
      cases Record.parse e.payload.toList with
      | ok record => exact ⟨h.budget, by rw [h.summary], by rw [h.records]⟩
      | error err => exact ⟨h.budget, by rw [h.summary], h.records⟩

theorem Alike.observe {r r' : Replay} (h : r.Alike r') {p p' : PollResult}
    (hp : entriesOf p = entriesOf p') : (r.observe p).Alike (r'.observe p') := by
  have hcounted : (r.counted p).Alike (r'.counted p') :=
    ⟨h.budget, by rw [counted, counted, h.summary], h.records⟩
  obtain ⟨hbudget, hsummary, hrecords⟩ := hcounted.foldl_take (entriesOf p)
  rw [observe_eq, observe_eq, ← hp]
  exact ⟨by rw [hbudget], hsummary, hrecords⟩

/-- **Replays of two logs that serve one list** go on alike. -/
theorem Alike.drain {poll : τ → PollResult × τ} {poll' : τ' → PollResult × τ'}
    {R : List Entry → τ → Prop} {R' : List Entry → τ' → Prop} (hserves : Serves poll m R)
    (hserves' : Serves poll' m R') {limit : Nat} {r r' : Replay} {xs : List Entry} {s : τ} {s' : τ'}
    (h : r.Alike r') (hR : R xs s) (hR' : R' xs s') :
    (drain poll limit r s).map (fun x => (⟨x.1.records, x.1.summary⟩ : Recovery)) =
      (drain poll' limit r' s').map (fun x => (⟨x.1.records, x.1.summary⟩ : Recovery)) := by
  induction limit generalizing r r' xs s s' with
  | zero =>
      rw [Replay.drain, Replay.drain, h.budget]
      split
      · rw [Option.map_some, Option.map_some, h.records, h.summary]
      · rfl
  | succ limit ih =>
      rw [Replay.drain, Replay.drain, h.budget]
      split
      · rw [Option.map_some, Option.map_some, h.records, h.summary]
      · obtain ⟨hentries, hnext⟩ := hserves xs s hR
        obtain ⟨hentries', hnext'⟩ := hserves' xs s' hR'
        exact ih (h.observe (hentries.trans hentries'.symm)) hnext hnext'

end Replay

/-- Without a consumer nothing is recovered. -/
theorem History.recover_refused {e : BrokerError} {limit : Nat} {s s' : τ}
    (hcreate : host.createConsumer h.settings.consumer s = (.error e, s')) :
    h.recover host limit s = some (.error (.broker e), [], s') := by
  rw [History.recover, hcreate]

/-- Replaying the topic with a consumer that is subscribed gives what the drain gives. -/
theorem History.recover_of_drain {k : ConsumerId} {limit : Nat} {s s₁ s₂ : τ}
    (hcreate : host.createConsumer h.settings.consumer s = (.ok k, s₁))
    (hsubscribe : host.subscribe k [h.settings.topic] s₁ = (.ok (), s₂)) :
    (h.recover host limit s).map Prod.fst =
      ((Replay.drain (host.poll k h.settings.pollInterval) limit (.begin h.settings.attempts) s₂).map
        fun x => (⟨x.1.records, x.1.summary⟩ : Recovery)).map .ok := by
  rw [History.recover, hcreate]
  dsimp only
  rw [hsubscribe]
  dsimp only
  cases Replay.drain (host.poll k h.settings.pollInterval) limit (.begin h.settings.attempts) s₂ with
  | none => rfl
  | some x => rfl

/-- **Recoveries from two logs that serve one list** give the same. -/
theorem History.recover_alike {k k' : ConsumerId} {limit : Nat} {R : List Entry → τ → Prop}
    {R' : List Entry → τ' → Prop} {xs : List Entry} {s s₁ s₂ : τ} {s' s₁' s₂' : τ'}
    (hcreate : host.createConsumer h.settings.consumer s = (.ok k, s₁))
    (hcreate' : host'.createConsumer h.settings.consumer s' = (.ok k', s₁'))
    (hsubscribe : host.subscribe k [h.settings.topic] s₁ = (.ok (), s₂))
    (hsubscribe' : host'.subscribe k' [h.settings.topic] s₁' = (.ok (), s₂'))
    (hserves : Serves (host.poll k h.settings.pollInterval) m R)
    (hserves' : Serves (host'.poll k' h.settings.pollInterval) m R') (hR : R xs s₂)
    (hR' : R' xs s₂') :
    (h.recover host limit s).map Prod.fst = (h.recover host' limit s').map Prod.fst := by
  rw [recover_of_drain hcreate hsubscribe, recover_of_drain hcreate' hsubscribe']
  exact congrArg _ (Replay.Alike.drain hserves hserves' ⟨rfl, rfl, rfl⟩ hR hR')

/-- A recovery comes to an end. -/
theorem History.recover_ends {k : ConsumerId} {limit : Nat} {R : List Entry → τ → Prop}
    {xs : List Entry} {s s₁ s₂ : τ}
    (hcreate : host.createConsumer h.settings.consumer s = (.ok k, s₁))
    (hsubscribe : host.subscribe k [h.settings.topic] s₁ = (.ok (), s₂))
    (hserves : Serves (host.poll k h.settings.pollInterval) m R) (hm : 0 < m) (hR : R xs s₂)
    (hlimit : Replay.batches xs.length m + h.settings.attempts ≤ limit) :
    h.recover host limit s ≠ none := by
  intro hnone
  have hdrain := congrArg (Option.map Prod.fst) hnone
  rw [recover_of_drain hcreate hsubscribe] at hdrain
  rcases Nat.eq_zero_or_pos h.settings.attempts with hzero | hpos
  · rw [hzero, Replay.drain_done rfl] at hdrain
    cases hdrain
  · obtain ⟨r, s', hsome, -⟩ := Replay.drain_begin hserves hm hpos hR hlimit
    rw [hsome] at hdrain
    cases hdrain

end TwoLogs

/-! ## What a recovery leaves alone -/

theorem Replay.drain_preserves {poll : τ → PollResult × τ} {P : τ → Prop}
    (hpoll : ∀ s, P s → P (poll s).2) {limit : Nat} {r r' : Replay} {s s' : τ} (hs : P s)
    (h : drain poll limit r s = some (r', s')) : P s' := by
  induction limit generalizing r s with
  | zero =>
      rw [drain] at h
      split at h
      · cases h
        exact hs
      · cases h
  | succ limit ih =>
      rw [drain] at h
      split at h
      · cases h
        exact hs
      · exact ih (hpoll s hs) h

/-- What a consumer does to the log keeps `P`. -/
structure Host.ConsumerKeeps (host : Host τ) (k : ConsumerId) (P : τ → Prop) : Prop where
  subscribe : ∀ {topics s}, P s → P (host.subscribe k topics s).2
  poll : ∀ {timeout s}, P s → P (host.poll k timeout s).2
  close : ∀ {s}, P s → P (host.closeConsumer k s).2
  drop : ∀ {s}, P s → P (host.dropConsumer k s)

/-- A recovery keeps what its consumer keeps. -/
theorem History.recover_preserves {host : Host τ} {h : History} {P : τ → Prop} {limit : Nat}
    {s s' : τ} {result : Except HistoryError Recovery} {events : List Event}
    (hfailed : ∀ e, (host.createConsumer h.settings.consumer s).1 = .error e →
      P (host.createConsumer h.settings.consumer s).2)
    (hmade : ∀ k, (host.createConsumer h.settings.consumer s).1 = .ok k →
      P (host.createConsumer h.settings.consumer s).2 ∧ host.ConsumerKeeps k P)
    (hrec : h.recover host limit s = some (result, events, s')) : P s' := by
  rw [History.recover] at hrec
  cases hcreate : host.createConsumer h.settings.consumer s with
  | mk made s₁ =>
      rw [hcreate] at hrec hfailed hmade
      cases made with
      | error e =>
          -- no consumer was made, so there is none to be closed
          cases hrec
          exact hfailed e rfl
      | ok k =>
          obtain ⟨hs₁, hkeeps⟩ := hmade k rfl
          have hs₂ : P (host.subscribe k [h.settings.topic] s₁).2 := hkeeps.subscribe hs₁
          dsimp only at hrec
          split at hrec
          · rename_i s₂ hsub
            rw [hsub] at hs₂
            -- however it ends, the consumer is closed and let go of
            cases hrec
            exact hkeeps.drop (hkeeps.close hs₂)
          · rename_i s₂ hsub
            rw [hsub] at hs₂
            split at hrec
            · cases hrec
            · rename_i r s₃ hdrain
              cases hrec
              exact hkeeps.drop (hkeeps.close
                (Replay.drain_preserves (fun s hs => hkeeps.poll hs) hs₂ hdrain))

end SchemaHistory
