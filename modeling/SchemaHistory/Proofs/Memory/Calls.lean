import SchemaHistory.Proofs.Deliveries
import SchemaHistory.Proofs.Memory.Run

/-!
# Calls to a log in memory

Anybody may call a log in memory at any time: producers and consumers, those who set how it
answers, and those who write past the producers. What all of this does to the topics is little.
A topic may be made, and an entry may come behind the others of a partition; nothing that is
there is ever changed. So a partition is the list of what was put on it, in the order of the
calls.
-/

namespace SchemaHistory

namespace Topics

variable {t : Topics} {topic : String} {p : Int} {es : List Stored}

/-- What a partition holds; one that is not there holds nothing. -/
def held (t : Topics) (key : String × Int) : List Stored := (t.entries? key.1 key.2).getD []

theorem held_of_entries? (h : t.entries? topic p = some es) : t.held (topic, p) = es := by
  rw [held, h]
  rfl

/-- The number of a partition is an index of the list of its topic. -/
theorem entries?_nat (t : Topics) (topic : String) (i : Nat) :
    t.entries? topic i = (Assoc.get? t topic).bind fun ps => ps[i]? := by
  unfold entries?
  rfl

/-- A partition with entries is known by its topic and by its number, which is not negative. -/
theorem entries?_eq_some : t.entries? topic p = some es ↔
    ∃ ps, ∃ i : Nat, Assoc.get? t topic = some ps ∧ p = i ∧ ps[i]? = some es := by
  unfold entries?
  constructor
  · intro h
    obtain ⟨ps, hps, h⟩ := Option.bind_eq_some_iff.mp h
    split at h
    · rename_i hp
      exact ⟨ps, p.toNat, hps, (Int.toNat_of_nonneg hp).symm, h⟩
    · cases h
  · rintro ⟨ps, i, hps, rfl, hes⟩
    rw [hps, Option.bind_some, if_pos (Int.natCast_nonneg i), Int.toNat_natCast, hes]

/-! ## Making a topic -/

theorem create_of_some {ps : List (List Stored)} (h : Assoc.get? t topic = some ps) (n : Nat) :
    t.create topic n = t := by
  rw [create, h]

theorem get?_create_self (h : Assoc.get? t topic = none) (n : Nat) :
    Assoc.get? (t.create topic n) topic = some (List.replicate (max n 1) []) := by
  rw [create, h]
  dsimp only
  rw [Assoc.get?_put, if_pos rfl]

/-- A topic that is made adds nothing to any partition. -/
theorem held_create (t : Topics) (topic : String) (n : Nat) (key : String × Int) :
    (t.create topic n).held key = t.held key := by
  obtain ⟨other, q⟩ := key
  by_cases hother : topic = other
  · subst hother
    cases htopic : Assoc.get? t topic with
    | some ps => rw [create_of_some htopic]
    | none =>
        rw [held, held, entries?, entries?, htopic, get?_create_self htopic]
        dsimp only
        rw [Option.bind_some, Option.bind_none, List.getElem?_replicate]
        split
        · split <;> rfl
        · rfl
  · rw [held, held, entries?, entries?, get?_create_other t n hother]

/-- The partitions that are there stay as they are. -/
theorem entries?_create (h : t.entries? topic p = some es) (other : String) (n : Nat) :
    (t.create other n).entries? topic p = some es := by
  obtain ⟨ps, i, hps, hp, hes⟩ := entries?_eq_some.mp h
  refine entries?_eq_some.mpr ⟨ps, i, ?_, hp, hes⟩
  by_cases hother : other = topic
  · subst hother
    rw [create_of_some hps, hps]
  · rw [get?_create_other t n hother, hps]

/-! ## Putting an entry on a partition -/

/-- Replacing the entries of a partition leaves every other one as it is. -/
theorem entries?_put {ps : List (List Stored)} (hps : Assoc.get? t topic = some ps) (hp : 0 ≤ p)
    (hlt : p.toNat < ps.length) (es : List Stored) (other : String) (q : Int) :
    Topics.entries? (Assoc.put topic (ps.set p.toNat es) t) other q =
      if (other, q) = (topic, p) then some es else t.entries? other q := by
  rw [entries?, entries?, Assoc.get?_put]
  by_cases htopic : topic = other
  · subst htopic
    rw [if_pos rfl, hps, Option.bind_some, Option.bind_some]
    by_cases hq : 0 ≤ q
    · rw [if_pos hq, if_pos hq, List.getElem?_set]
      by_cases hsame : q = p
      · subst hsame
        rw [if_pos rfl, if_pos rfl, if_pos hlt]
      · rw [if_neg (by omega), if_neg fun h => hsame (Prod.mk.inj h).2]
    · rw [if_neg hq, if_neg hq, if_neg]
      intro h
      cases h
      exact hq hp
  · rw [if_neg htopic, if_neg fun h => htopic (Prod.mk.inj h).1.symm]

/-- An append to the partition is taken: the topic has it, or it is partition 0 of a topic that has
not been made. -/
def Takes (t : Topics) (topic : String) (p : Int) : Prop :=
  match Assoc.get? t topic with
  | some ps => 0 ≤ p ∧ p < ps.length
  | none => p = 0

theorem entries?_created : (t.create topic 1).entries? topic p = none ↔ ¬ t.Takes topic p := by
  unfold Takes
  cases htopic : Assoc.get? t topic with
  | some ps =>
      rw [create_of_some htopic, entries?, htopic, Option.bind_some]
      dsimp only
      split
      · rw [List.getElem?_eq_none_iff]
        omega
      · rename_i hp
        exact ⟨fun _ h => hp h.1, fun _ => rfl⟩
  | none =>
      rw [entries?, get?_create_self htopic, Option.bind_some]
      dsimp only
      split
      · rw [List.getElem?_eq_none_iff, List.length_replicate]
        omega
      · rename_i hp
        exact ⟨fun _ h => hp (Int.le_of_eq h.symm), fun _ => rfl⟩

/-- **An append** that is not taken only makes its topic. One that is taken comes behind the entries of
its partition, and no other partition changes. -/
theorem append_cases (t : Topics) (topic : String) (p : Int) (e : Stored) :
    (¬ t.Takes topic p ∧
      t.append topic p e = (.error (.unknownPartition topic p), t.create topic 1)) ∨
    (t.Takes topic p ∧ ∃ t', t.append topic p e = (.ok (t.held (topic, p)).length, t') ∧
      ∀ other q, t'.entries? other q = if (other, q) = (topic, p)
        then some (t.held (topic, p) ++ [e]) else (t.create topic 1).entries? other q) := by
  unfold append
  dsimp only
  cases hes : (t.create topic 1).entries? topic p with
  | none => exact .inl ⟨entries?_created.mp hes, rfl⟩
  | some es =>
      have htakes : t.Takes topic p := by
        by_contra hno
        rw [entries?_created.mpr hno] at hes
        cases hes
      have hheld : es = t.held (topic, p) := by
        rw [← held_create t topic 1, held_of_entries? hes]
      obtain ⟨ps, i, hps, rfl, hi⟩ := entries?_eq_some.mp hes
      rw [hps, Option.getD_some, hheld]
      refine .inr ⟨htakes, _, rfl, fun other q => ?_⟩
      refine entries?_put hps (Int.natCast_nonneg i) ?_ _ other q
      rw [Int.toNat_natCast]
      exact (List.getElem?_eq_some_iff.mp hi).1

/-- The topics of the second kind have what those of the first have, and `new` behind it. -/
structure Grew (t t' : Topics) (new : String × Int → List Stored) : Prop where
  held : ∀ key, t'.held key = t.held key ++ new key
  /-- Partitions do not go away. -/
  there : ∀ topic p es, t.entries? topic p = some es → ∃ es', t'.entries? topic p = some es'

theorem Grew.refl (t : Topics) : t.Grew t fun _ => [] :=
  ⟨fun _ => (List.append_nil _).symm, fun _ _ es h => ⟨es, h⟩⟩

/-- What a partition that stays has in the end. -/
theorem Grew.entries? {t' : Topics} {new : String × Int → List Stored} (h : t.Grew t' new)
    (hes : t.entries? topic p = some es) : t'.entries? topic p = some (es ++ new (topic, p)) := by
  obtain ⟨es', hes'⟩ := h.there topic p es hes
  rw [hes', ← held_of_entries? hes', h.held, held_of_entries? hes]

theorem grew_create (t : Topics) (topic : String) (n : Nat) : t.Grew (t.create topic n) fun _ => [] :=
  ⟨fun key => by rw [held_create, List.append_nil],
    fun _ _ es h => ⟨es, entries?_create h topic n⟩⟩

/-- What an append that gave this result put on a partition. -/
def addedBy (result : Except BrokerError Nat) (topic : String) (p : Int) (e : Stored)
    (key : String × Int) : List Stored :=
  match result with
  | .ok _ => if key = (topic, p) then [e] else []
  | .error _ => []

theorem grew_append (t : Topics) (topic : String) (p : Int) (e : Stored) :
    t.Grew (t.append topic p e).2 (addedBy (t.append topic p e).1 topic p e) := by
  rcases append_cases t topic p e with ⟨-, happend⟩ | ⟨-, t', happend, hentries⟩
  · rw [happend]
    exact grew_create t topic 1
  · rw [happend]
    refine ⟨?_, ?_⟩
    · intro key
      rw [Topics.held, hentries, addedBy]
      by_cases hkey : key = (topic, p)
      · rw [if_pos hkey, if_pos hkey, hkey]
        rfl
      · rw [if_neg hkey, if_neg hkey, List.append_nil]
        exact held_create t topic 1 key
    · intro other q es hes
      dsimp only
      rw [hentries]
      split
      · exact ⟨_, rfl⟩
      · exact ⟨es, entries?_create hes topic 1⟩

end Topics

/-- A call to a log in memory. -/
inductive MemoryCall
  | createTopic (topic : String) (partitions : Nat)
  /-- The log is told how to answer appends. -/
  | setMode (mode : AckMode)
  /-- The log answers what it kept back. -/
  | release
  /-- A text is appended past the producers. -/
  | appendRaw (topic : String) (partition : Int) (text : String)
  | createProducer
  | send (p : ProducerId) (request : AppendRequest)
  | flush (p : ProducerId)
  | closeProducer (p : ProducerId)
  | createConsumer (settings : ClientSettings)
  | subscribe (k : ConsumerId) (topics : List String)
  | poll (k : ConsumerId)
  | closeConsumer (k : ConsumerId)

namespace MemoryCall

/-- The mode that the log is told. -/
def mode? : MemoryCall → Option AckMode
  | setMode mode => some mode
  | _ => none

/-- The call closes the producer. -/
def closes (p : ProducerId) : MemoryCall → Bool
  | closeProducer q => q = p
  | _ => false

/-- The call is of a consumer. -/
def ofConsumer : MemoryCall → Bool
  | createConsumer _ | subscribe _ _ | poll _ | closeConsumer _ => true
  | _ => false

/-- The consumer that the call is about, if it is there already. -/
def consumer? : MemoryCall → Option ConsumerId
  | subscribe k _ | poll k | closeConsumer k => some k
  | _ => none

theorem mode?_ofConsumer {c : MemoryCall} (h : c.ofConsumer = true) : c.mode? = none := by
  cases c <;> first | rfl | cases h

theorem closes_ofConsumer {c : MemoryCall} (h : c.ofConsumer = true) (p : ProducerId) :
    c.closes p = false := by
  cases c <;> first | rfl | cases h

end MemoryCall

namespace MemoryLog

/-- The log after a call. -/
def call (s : MemoryLog) : MemoryCall → MemoryLog
  | .createTopic topic partitions => s.createTopic topic partitions
  | .setMode mode => s.setMode mode
  | .release => s.release.2
  | .appendRaw topic partition text => (s.appendRaw topic partition text).2
  | .createProducer => s.createProducer.2
  | .send p request => (s.send p request).2
  | .flush p => (s.flush p).2
  | .closeProducer p => (s.closeProducer p).2
  | .createConsumer settings => (s.createConsumer settings).2
  | .subscribe k topics => (s.subscribe k topics).2
  | .poll k => (s.poll k).2
  | .closeConsumer k => (s.closeConsumer k).2

/-- The log after some calls. -/
def exec (s : MemoryLog) (calls : List MemoryCall) : MemoryLog := calls.foldl call s

variable {s : MemoryLog}

theorem exec_append (s : MemoryLog) (xs ys : List MemoryCall) :
    s.exec (xs ++ ys) = (s.exec xs).exec ys := List.foldl_append

theorem exec_concat (s : MemoryLog) (calls : List MemoryCall) (c : MemoryCall) :
    s.exec (calls ++ [c]) = (s.exec calls).call c := exec_append s calls [c]

/-! ## What calls leave alone -/

/-- A call of a consumer changes nothing but the consumers. -/
theorem call_ofConsumer {c : MemoryCall} (h : c.ofConsumer = true) :
    ∃ consumers openConsumers, s.call c = { s with consumers, openConsumers } := by
  cases c with
  | createConsumer settings =>
      rw [call, createConsumer]
      split <;> exact ⟨_, _, rfl⟩
  | subscribe k topics =>
      rw [call, subscribe]
      split
      · exact ⟨_, _, rfl⟩
      · split <;> exact ⟨_, _, rfl⟩
  | poll k =>
      rw [call, poll]
      split
      · exact ⟨_, _, rfl⟩
      · split
        · exact ⟨_, _, rfl⟩
        · split <;> exact ⟨_, _, rfl⟩
  | closeConsumer k =>
      rw [call, closeConsumer]
      split
      · exact ⟨_, _, rfl⟩
      · split <;> exact ⟨_, _, rfl⟩
  | _ => cases h

theorem call_flush (s : MemoryLog) (p : ProducerId) : s.call (.flush p) = s := by
  rw [call, flush]
  split <;> rfl

/-- A log whose topics were changed. -/
def withTopics (s : MemoryLog) (topics : Topics) : MemoryLog := { s with topics }

/-- **What a send does.** A closed producer sends nothing, and a log that refuses does not look at
the topics. Else the append is tried, and if it was taken it is answered as the mode says. -/
theorem send_eq (s : MemoryLog) (p : ProducerId) (request : AppendRequest) :
    (s.isClosed p = true ∧ s.send p request = (.error .closed, s)) ∨
    (s.isClosed p = false ∧ ∃ reason, s.mode = .fail reason ∧
      s.send p request = s.respond (.error (.rejected reason))) ∨
    (s.isClosed p = false ∧ s.mode.stores = true ∧
      s.send p request =
        match s.topics.append request.topic request.partition ⟨request.key, request.payload⟩ with
        | (.error e, topics) => (.error e, s.withTopics topics)
        | (.ok offset, topics) =>
          if s.mode = .withhold
          then (s.withTopics topics).keepBack ⟨request.topic, request.partition, offset⟩
          else (s.withTopics topics).respond (.ok ⟨request.topic, request.partition, offset⟩)) := by
  unfold send
  cases hclosed : s.isClosed p with
  | true =>
      rw [if_pos rfl]
      exact .inl ⟨rfl, rfl⟩
  | false =>
      rw [if_neg Bool.false_ne_true]
      right
      split
      · rename_i reason hmode
        exact .inl ⟨rfl, reason, hmode, rfl⟩
      · rename_i hmode
        refine .inr ⟨rfl, ?_, ?_⟩
        · cases hstores : s.mode with
          | fail reason => exact absurd hstores (hmode reason)
          | _ => rfl
        · obtain ⟨result, topics⟩ := s.topics.append request.topic request.partition
            ⟨request.key, request.payload⟩
          cases result <;> rfl

/-- A send leaves the mode, the producers and the consumers alone. -/
theorem send_keeps (s : MemoryLog) (p : ProducerId) (request : AppendRequest) :
    (s.call (.send p request)).mode = s.mode ∧
      (s.call (.send p request)).producers = s.producers ∧
      (s.call (.send p request)).consumers = s.consumers := by
  rw [call]
  rcases send_eq s p request with ⟨-, hsend⟩ | ⟨-, reason, -, hsend⟩ | ⟨-, -, hsend⟩
  · rw [hsend]
    exact ⟨rfl, rfl, rfl⟩
  · rw [hsend]
    exact ⟨rfl, rfl, rfl⟩
  · rw [hsend]
    split
    · exact ⟨rfl, rfl, rfl⟩
    · split <;> exact ⟨rfl, rfl, rfl⟩

/-- Only being told how to answer changes how the log answers. -/
theorem mode_call (s : MemoryLog) (c : MemoryCall) : (s.call c).mode = c.mode?.getD s.mode := by
  by_cases hc : c.ofConsumer = true
  · obtain ⟨_, _, hcall⟩ := call_ofConsumer (s := s) hc
    rw [hcall, MemoryCall.mode?_ofConsumer hc]
    rfl
  · cases c with
    | send p request => exact (send_keeps s p request).1
    | flush p => rw [call_flush]; rfl
    | createConsumer _ | subscribe _ _ | poll _ | closeConsumer _ => exact absurd rfl hc
    | _ => rfl

/-- The log answers as it was told last. -/
theorem mode_exec (s : MemoryLog) (calls : List MemoryCall) :
    (s.exec calls).mode = (calls.filterMap MemoryCall.mode?).getLast?.getD s.mode := by
  induction calls generalizing s with
  | nil => rfl
  | cons c calls ih =>
      show ((s.call c).exec calls).mode = _
      rw [ih, mode_call]
      cases hmode : c.mode? with
      | none => rw [List.filterMap_cons_none hmode]; rfl
      | some mode =>
          rw [List.filterMap_cons_some hmode, List.getLast?_cons]
          rfl

/-- A producer is left as it is, unless it is closed. -/
theorem producer_call {p : ProducerId} {closed : Bool} (h : s.producers.get? p = some closed)
    (c : MemoryCall) : (s.call c).producers.get? p = some (closed || c.closes p) := by
  by_cases hc : c.ofConsumer = true
  · obtain ⟨_, _, hcall⟩ := call_ofConsumer (s := s) hc
    rw [hcall, MemoryCall.closes_ofConsumer hc, Bool.or_false]
    exact h
  · have hkept : some closed = some (closed || false) := by rw [Bool.or_false]
    cases c with
    | createProducer => exact (Registry.get?_add_of_some h false).trans hkept
    | closeProducer q =>
        show (s.producers.set q true).get? p = some (closed || decide (q = p))
        by_cases hq : q = p
        · rw [decide_eq_true hq, Bool.or_true, hq]
          exact Registry.get?_set_self h true
        · rw [decide_eq_false hq, Registry.get?_set_other hq, h]
          exact hkept
    | send q request => rw [(send_keeps s q request).2.1, h]; exact hkept
    | flush q => rw [call_flush, h]; exact hkept
    | createConsumer _ | subscribe _ _ | poll _ | closeConsumer _ => exact absurd rfl hc
    | _ => exact h.trans hkept

theorem producer_exec {p : ProducerId} {closed : Bool} (h : s.producers.get? p = some closed)
    (calls : List MemoryCall) :
    (s.exec calls).producers.get? p = some (closed || calls.any (MemoryCall.closes p)) := by
  induction calls generalizing s closed with
  | nil => rw [List.any_nil, Bool.or_false]; exact h
  | cons c calls ih =>
      rw [List.any_cons, ← Bool.or_assoc]
      exact ih (producer_call h c)

theorem consumers_call {call : MemoryCall} (h : call.ofConsumer = false) :
    (s.call call).consumers = s.consumers := by
  cases call with
  | send p request => exact (send_keeps s p request).2.2
  | flush p => rw [call_flush]
  | createConsumer _ | subscribe _ _ | poll _ | closeConsumer _ => cases h
  | _ => rfl

/-- A call about a consumer changes no other one. -/
theorem consumers_own {call : MemoryCall} {j : ConsumerId} (h : call.consumer? = some j) :
    (s.call call).consumers = s.consumers ∨
      ∃ c, (s.call call).consumers = s.consumers.set j c := by
  cases call with
  | subscribe k topics =>
      cases h
      rw [call, subscribe]
      split
      · exact .inl rfl
      · split
        · exact .inl rfl
        · exact .inr ⟨_, rfl⟩
  | poll k =>
      cases h
      rw [call, poll]
      split
      · exact .inl rfl
      · split
        · exact .inl rfl
        · split
          · exact .inl rfl
          · exact .inr ⟨_, rfl⟩
  | closeConsumer k =>
      cases h
      rw [call, closeConsumer]
      split
      · exact .inl rfl
      · split
        · exact .inl rfl
        · exact .inr ⟨_, rfl⟩
  | _ => cases h

/-- A call about another consumer, or about none, leaves a consumer as it is. -/
theorem consumer_call {k : ConsumerId} {c : MemoryConsumer} (hc : s.consumers.get? k = some c)
    {call : MemoryCall} (hcall : call.consumer? ≠ some k) :
    (s.call call).consumers.get? k = some c := by
  cases hown : call.consumer? with
  | some j =>
      rcases consumers_own (s := s) hown with hsame | ⟨c', hset⟩
      · rw [hsame, hc]
      · have hj : j ≠ k := by
          rintro rfl
          exact hcall hown
        rw [hset, Registry.get?_set_other hj, hc]
  | none =>
      cases hof : call.ofConsumer with
      | false => rw [consumers_call hof, hc]
      | true =>
          cases call with
          | createConsumer settings =>
              rw [MemoryLog.call, createConsumer]
              split
              · exact hc
              · exact Registry.get?_add_of_some hc _
          | subscribe _ _ | poll _ | closeConsumer _ => cases hown
          | _ => cases hof

/-! ## What is put on a partition -/

/-- What a call puts on a partition: the text of an append past the producers, and the entry of a
send that was accepted by a log that stores. -/
def added (s : MemoryLog) (key : String × Int) : MemoryCall → List Stored
  | .appendRaw topic partition text =>
    match (s.appendRaw topic partition text).1 with
    | .ok _ => if key = (topic, partition) then [⟨none, text⟩] else []
    | .error _ => []
  | .send p request =>
    match (s.send p request).1 with
    | .ok _ =>
      if s.mode.stores ∧ key = (request.topic, request.partition)
      then [⟨request.key, request.payload⟩] else []
    | .error _ => []
  | _ => []

/-- What some calls put on a partition, in their order. -/
def addedAll (key : String × Int) : MemoryLog → List MemoryCall → List Stored
  | _, [] => []
  | s, c :: calls => s.added key c ++ addedAll key (s.call c) calls

theorem grew_send (s : MemoryLog) (p : ProducerId) (request : AppendRequest) :
    s.topics.Grew (s.send p request).2.topics fun key => s.added key (.send p request) := by
  unfold added
  dsimp only
  rcases send_eq s p request with ⟨-, hsend⟩ | ⟨-, reason, hmode, hsend⟩ | ⟨-, hstores, hsend⟩
  · rw [hsend]
    exact .refl _
  · rw [hsend, hmode]
    exact .refl _
  · have hgrew := Topics.grew_append s.topics request.topic request.partition
      ⟨request.key, request.payload⟩
    rw [hsend, hstores]
    cases happend : s.topics.append request.topic request.partition
        ⟨request.key, request.payload⟩ with
    | mk result topics =>
        rw [happend] at hgrew
        cases result with
        | error e => exact hgrew
        | ok offset =>
            dsimp only
            split
            · refine ⟨fun key => ?_, hgrew.there⟩
              simpa [Topics.addedBy, keepBack, withTopics] using hgrew.held key
            · refine ⟨fun key => ?_, hgrew.there⟩
              simpa [Topics.addedBy, respond, withTopics] using hgrew.held key

/-- **What a call does to the topics**: every partition has what it had, and behind it what the call
put on it. -/
theorem grew_call (s : MemoryLog) (c : MemoryCall) :
    s.topics.Grew (s.call c).topics fun key => s.added key c := by
  by_cases hc : c.ofConsumer = true
  · obtain ⟨_, _, hcall⟩ := call_ofConsumer (s := s) hc
    have hnothing : (fun key => s.added key c) = fun _ => [] := by
      cases c <;> first | rfl | cases hc
    rw [hcall, hnothing]
    exact .refl _
  · cases c with
    | createTopic topic n => exact Topics.grew_create s.topics topic n
    | appendRaw topic p text => exact Topics.grew_append s.topics topic p ⟨none, text⟩
    | send p request => exact grew_send s p request
    | flush p =>
        rw [call_flush]
        exact .refl _
    | createConsumer _ | subscribe _ _ | poll _ | closeConsumer _ => exact absurd rfl hc
    | _ => exact .refl _

/-- A partition has what some calls put on it behind what it had. -/
theorem held_exec (s : MemoryLog) (calls : List MemoryCall) (key : String × Int) :
    (s.exec calls).topics.held key = s.topics.held key ++ s.addedAll key calls := by
  induction calls generalizing s with
  | nil => exact (List.append_nil _).symm
  | cons c calls ih =>
      show ((s.call c).exec calls).topics.held key = _
      rw [ih, (grew_call s c).held, addedAll, List.append_assoc]

/-- So a partition that is there stays, with its entries in front. -/
theorem entries?_exec {topic : String} {p : Int} {es : List Stored}
    (h : s.topics.entries? topic p = some es) (calls : List MemoryCall) :
    (s.exec calls).topics.entries? topic p = some (es ++ s.addedAll (topic, p) calls) := by
  induction calls generalizing s es with
  | nil => exact h.trans (congrArg some (List.append_nil es).symm)
  | cons c calls ih =>
      rw [addedAll, ← List.append_assoc]
      exact ih ((grew_call s c).entries? h)

/-- An entry stays where it is. -/
theorem held_exec_getElem? {key : String × Int} {i : Nat} {e : Stored}
    (h : (s.topics.held key)[i]? = some e) (calls : List MemoryCall) :
    ((s.exec calls).topics.held key)[i]? = some e := by
  rw [held_exec, List.getElem?_append_left (List.getElem?_eq_some_iff.mp h).1, h]

end MemoryLog

end SchemaHistory
