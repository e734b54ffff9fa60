import SchemaHistory.Proofs.Deliveries
import SchemaHistory.Proofs.Memory.Partition
import SchemaHistory.Proofs.Party

/-!
# Runs on a log in memory

A run is any order of what histories on one topic do, of what their log is told, and of
what others write to the topic's partition. Its journal has every write in the order of
issue: the calls that store a record, each with the mode it was made under and its result,
and the texts that were appended past the histories.

One step lemma says what a step puts on the partition: the text of a store that was made
by a started history under a mode that stores, the text of a raw append, and nothing else.
The rest follows by induction on the run.
-/

namespace SchemaHistory

/-- Under this mode an append is stored. -/
def AckMode.stores : AckMode → Bool
  | .fail _ => false
  | _ => true

/-- A call that stores a record. -/
structure StoreCall where
  record : Record
  /-- How the log answered appends when it was made. -/
  mode : AckMode
  /-- The signal that ends its wait. -/
  shutdown : SignalId
  /-- Where its answer comes. -/
  ticket : Ticket
  /-- What it returned, or that it is still waiting. -/
  result : Except HistoryError StoreOutcome

/-- A write to the log. -/
inductive Write
  | stored (call : StoreCall)
  /-- A text was appended past the histories. -/
  | raw (topic : String) (partition : Int) (text : String)

/-- The call did not fail, and it was made under a mode that stores. -/
def StoreCall.reached (c : StoreCall) : Bool :=
  match c.result with
  | .ok _ => c.mode.stores
  | .error _ => false

/-- What a write puts on the partition of a topic. -/
def Write.text? (topic : String) : Write → Option String
  | .stored c => if c.reached then some c.record.payload else none
  | .raw t _ text => if t = topic then some text else none

/-- What a call says about its result. -/
structure StoreCall.Sound (c : StoreCall) : Prop where
  /-- It fails only because its history was not started. -/
  ended : c.result = .error .notStarted ∨ ∃ o, c.result = .ok o
  /-- It is acknowledged at once when the log answers at once. -/
  immediate : c.mode = .immediate →
    c.result = .error .notStarted ∨ ∃ p, c.result = .ok (.acknowledged p)
  /-- It is never acknowledged when the log refuses. -/
  refused : ∀ reason, c.mode = .fail reason →
    c.result = .error .notStarted ∨ c.result = .ok .unconfirmed

/-- An acknowledged call was made under a mode that stores. -/
theorem StoreCall.Sound.reached {c : StoreCall} (h : c.Sound) {p : Placement}
    (hp : c.result = .ok (.acknowledged p)) : c.reached = true := by
  rw [StoreCall.reached, hp]
  cases hm : c.mode with
  | fail reason =>
      have := h.refused reason hm
      rw [hp] at this
      rcases this with this | this <;> cases this
  | _ => rfl

/-- A run: the histories with their log, and the journal. -/
structure MemoryRun where
  party : Party MemoryLog
  /-- Every write so far. -/
  journal : List Write

/-- What may happen on a log in memory. -/
inductive MemoryStep
  /-- A history is made, started or stopped, or a signal is raised. -/
  | act (a : Act)
  | store (i : Nat) (r : Record)
  /-- The call that is the write with this number looks for its answer again. -/
  | look (n : Nat)
  /-- A history recovers, with so many polls at most. -/
  | recover (i : Nat) (limit : Nat)
  | createTopic (topic : String) (partitions : Nat)
  /-- A text is appended past the histories. -/
  | raw (topic : String) (partition : Int) (text : String)
  /-- The log is told how to answer. -/
  | mode (m : AckMode)
  /-- The log answers what it kept back. -/
  | release

namespace MemoryRun

/-- The log as its clients reach it. -/
def host : Host (World MemoryLog) := MemoryLog.clients.host

/-- A log in memory before anything happened. -/
def start (signals : Registry Bool) : MemoryRun := ⟨.ofLog .empty signals, []⟩

/-- The log. -/
def log (run : MemoryRun) : MemoryLog := run.party.world.log

/-- The same run with the log in another state. -/
def withWorld (run : MemoryRun) (w : World MemoryLog) : MemoryRun :=
  { run with party := { run.party with world := w } }

/-- The same run with a changed log. -/
def mapLog (run : MemoryRun) (f : MemoryLog → MemoryLog) : MemoryRun :=
  run.withWorld (run.party.world.mapLog f)

/-- The texts of the topic's partition. -/
def payloads (run : MemoryRun) (topic : String) : List String := run.log.payloads topic 0

/-- A waiting call looks for its answer. -/
def looked (w : World MemoryLog) (c : StoreCall) : StoreCall :=
  match c.result with
  | .ok .waiting => { c with result := .ok (History.outcomeOf (host.await c.shutdown c.ticket w).1) }
  | _ => c

/-- The run after one step. -/
def step (run : MemoryRun) : MemoryStep → MemoryRun
  | .act a => { run with party := run.party.act MemoryLog.clients a }
  | .store i r =>
    match run.party.histories[i]? with
    | none => run
    | some h =>
      let call : StoreCall := ⟨r, run.log.mode, h.shutdown, run.log.deliveries.next,
        (h.store host r run.party.world).1⟩
      { run.withWorld (h.store host r run.party.world).2.2 with
        journal := run.journal ++ [.stored call] }
  | .look n =>
    match run.journal[n]? with
    | some (.stored c) =>
      { run with journal := run.journal.set n (.stored (looked run.party.world c)) }
    | _ => run
  | .recover i limit =>
    match run.party.histories[i]? with
    | none => run
    | some h =>
      match h.recover host limit run.party.world with
      | none => run
      | some (_, _, w) => run.withWorld w
  | .createTopic topic partitions => run.mapLog (·.createTopic topic partitions)
  | .raw topic partition text =>
    { run.mapLog (fun s => (s.appendRaw topic partition text).2) with
      journal := run.journal ++ [.raw topic partition text] }
  | .mode m => run.mapLog (·.setMode m)
  | .release => run.mapLog fun s => s.release.2

/-- The run after some steps. -/
def exec (run : MemoryRun) (steps : List MemoryStep) : MemoryRun := steps.foldl step run

theorem exec_cons (run : MemoryRun) (s : MemoryStep) (steps : List MemoryStep) :
    run.exec (s :: steps) = (run.step s).exec steps := rfl

end MemoryRun

/-- The step keeps to the topic: histories are made on it, and nothing but its partition 0 is
written past them. -/
def MemoryStep.On (topic : String) : MemoryStep → Prop
  | .act (.make settings _) => settings.topic = topic
  | .raw t partition _ => t = topic → partition = 0
  | _ => True

/-! ## What a step puts on the partition -/

/-- What decides whether a store lands: how the log answers, and who is started. -/
structure Stance where
  /-- How the log answers. -/
  mode : AckMode
  /-- Whether each history is started. -/
  started : List Bool

namespace Stance

/-- The stance after a step. -/
def after (s : Stance) : MemoryStep → Stance
  | .act (.make _ _) => { s with started := s.started ++ [false] }
  | .act (.start i) => { s with started := s.started.set i true }
  | .act (.stop i) => { s with started := s.started.set i false }
  | .mode m => { s with mode := m }
  | _ => s

/-- The texts that a step puts on the partition of the topic. -/
def lands (topic : String) (s : Stance) : MemoryStep → List String
  | .store i r => if s.started[i]? = some true ∧ s.mode.stores then [r.payload] else []
  | .raw t _ text => if t = topic then [text] else []
  | _ => []

/-- The texts that some steps put on the partition of the topic. -/
def landsAll (topic : String) : Stance → List MemoryStep → List String
  | _, [] => []
  | s, step :: steps => s.lands topic step ++ landsAll topic (s.after step) steps

theorem landsAll_append (topic : String) (s : Stance) (xs ys : List MemoryStep) :
    s.landsAll topic (xs ++ ys) = s.landsAll topic xs ++ (xs.foldl after s).landsAll topic ys := by
  induction xs generalizing s with
  | nil => rfl
  | cons x xs ih =>
      rw [List.cons_append, landsAll, landsAll, ih, List.append_assoc]
      rfl

end Stance

namespace MemoryRun

/-- The stance of a run. -/
def stance (run : MemoryRun) : Stance := ⟨run.log.mode, run.party.histories.map History.isStarted⟩

/-- A run whose histories are on one topic, of which the partition holds `es`. -/
structure Good (topic : String) (run : MemoryRun) (es : List Stored) : Prop where
  /-- The partition holds the entries. -/
  holds : run.log.topics.Holds topic es
  /-- Every producer that is held is open, and nobody else holds it. -/
  held : Held run.party.histories fun p => run.log.producers.get? p = some false
  /-- The histories are on the topic. -/
  onTopic : ∀ h ∈ run.party.histories, h.settings.topic = topic
  /-- The entries are what the journal says. -/
  written : es.map Stored.payload = run.journal.filterMap (Write.text? topic)
  /-- The calls say what happened. -/
  sound : ∀ c, .stored c ∈ run.journal → c.Sound

theorem Good.payloads {topic : String} {run : MemoryRun} {es : List Stored}
    (h : run.Good topic es) : run.payloads topic = es.map Stored.payload := by
  rw [MemoryRun.payloads, MemoryLog.payloads, h.holds.entries]

theorem good_start (topic : String) (signals : Registry Bool) : (start signals).Good topic [] :=
  ⟨.inl ⟨rfl, rfl⟩, held_nil _, by simp [start, Party.ofLog], rfl, by simp [start]⟩

/-- Every consumer is in the second log what it was in the first. -/
def KeepsConsumers (s s' : MemoryLog) : Prop :=
  ∀ k c, s.consumers.get? k = some c → s'.consumers.get? k = some c

/-- What a step of a good run comes to. -/
structure Stepped (topic : String) (run : MemoryRun) (es : List Stored) (s : MemoryStep)
    (new : List Stored) : Prop where
  /-- The run is good, with the new entries behind the others. -/
  good : (run.step s).Good topic (es ++ new)
  /-- The new entries are what lands. -/
  lands : new.map Stored.payload = run.stance.lands topic s
  /-- The stance goes on. -/
  stance : (run.step s).stance = run.stance.after s
  /-- Consumers are left alone. -/
  consumers : KeepsConsumers run.log (run.step s).log

section Steps

variable {topic : String} {run : MemoryRun} {es : List Stored}

theorem keepsConsumers_of_eq {s s' : MemoryLog} (h : s'.consumers = s.consumers) :
    KeepsConsumers s s' := by
  intro k c hc
  rwa [h]

/-- A step that leaves the run as it is. -/
theorem Good.idle (h : run.Good topic es) {s : MemoryStep} (hstep : run.step s = run)
    (hlands : run.stance.lands topic s = []) (hstance : run.stance.after s = run.stance) :
    run.Stepped topic es s [] := by
  refine ⟨?_, hlands.symm, ?_, ?_⟩
  · rw [hstep, List.append_nil]
    exact h
  · rw [hstep, hstance]
  · rw [hstep]
    exact keepsConsumers_of_eq rfl

/-- A step that adds no entry, and changes neither the journal nor who is there. -/
theorem Good.mapLog (h : run.Good topic es) {f : MemoryLog → MemoryLog}
    (hholds : (f run.log).topics.Holds topic es)
    (hproducers : (f run.log).producers = run.log.producers) : (run.mapLog f).Good topic es := by
  refine ⟨hholds, ?_, h.onTopic, h.written, h.sound⟩
  show Held run.party.histories fun p => (f run.log).producers.get? p = some false
  rw [hproducers]
  exact h.held

theorem Good.createTopic (h : run.Good topic es) (other : String) (n : Nat) :
    run.Stepped topic es (.createTopic other n) [] := by
  refine ⟨?_, rfl, rfl, keepsConsumers_of_eq rfl⟩
  rw [List.append_nil]
  exact h.mapLog (h.holds.create other n) rfl

theorem Good.mode (h : run.Good topic es) (m : AckMode) :
    run.Stepped topic es (.mode m) [] := by
  refine ⟨?_, rfl, rfl, keepsConsumers_of_eq rfl⟩
  rw [List.append_nil]
  exact h.mapLog h.holds rfl

theorem Good.release (h : run.Good topic es) : run.Stepped topic es .release [] := by
  refine ⟨?_, rfl, rfl, keepsConsumers_of_eq rfl⟩
  rw [List.append_nil]
  exact h.mapLog h.holds rfl

theorem Good.raw (h : run.Good topic es) {t : String} {partition : Int} {text : String}
    (ht : t = topic → partition = 0) : ∃ new, run.Stepped topic es (.raw t partition text) new := by
  by_cases hto : t = topic
  · -- the text goes to the topic, and so behind the entries
    subst hto
    obtain rfl := ht rfl
    obtain ⟨topics', happend, hholds⟩ := h.holds.append ⟨none, text⟩
    have hlog : (run.log.appendRaw t 0 text).2 = { run.log with topics := topics' } := by
      rw [MemoryLog.appendRaw, happend]
    refine ⟨[⟨none, text⟩], ⟨?_, h.held, h.onTopic, ?_, ?_⟩, ?_, rfl, keepsConsumers_of_eq rfl⟩
    · show ((run.log.appendRaw t 0 text).2).topics.Holds t _
      rw [hlog]
      exact hholds
    · show _ = (run.journal ++ [Write.raw t 0 text]).filterMap (Write.text? t)
      rw [List.map_append, h.written, List.filterMap_append]
      simp [Write.text?]
    · intro c hc
      rcases List.mem_append.mp hc with hc | hc
      · exact h.sound c hc
      · cases List.mem_singleton.mp hc
    · simp [Stance.lands]
  · -- another topic is written, and this one stays
    refine ⟨[], ⟨?_, h.held, h.onTopic, ?_, ?_⟩, ?_, rfl, keepsConsumers_of_eq rfl⟩
    · rw [List.append_nil]
      exact h.holds.append_other hto partition _
    · show _ = (run.journal ++ [Write.raw t partition text]).filterMap (Write.text? topic)
      rw [List.append_nil, h.written, List.filterMap_append]
      simp [Write.text?, hto]
    · intro c hc
      rcases List.mem_append.mp hc with hc | hc
      · exact h.sound c hc
      · cases List.mem_singleton.mp hc
    · simp [Stance.lands, hto]

/-! ### Storing -/

theorem answer?_resolve (d : Deliveries) (ack : Ack) :
    (d.resolve ack).answer? d.next = some ack :=
  (Deliveries.answer?_resolve d ack d.next).trans (if_pos rfl)

theorem await_eq (signal : SignalId) (t : Ticket) (w : World MemoryLog) :
    host.await signal t w =
      (Delivery.check (w.log.deliveries.answer? t) (w.isRaised signal), w) := by
  have hnow : host.answer? t w = w.log.deliveries.answer? t := rfl
  have hraised : host.raised signal w = w.isRaised signal := rfl
  have hidle : host.idle w = w := rfl
  rw [Host.await, hnow, hraised, hidle]
  cases hc : Delivery.check (w.log.deliveries.answer? t) (w.isRaised signal) with
  | some r => rfl
  | none =>
      dsimp only
      rw [hnow, hraised, hc]

/-- A store that was handed over waits for its answer on the log that took it. -/
theorem store_of_send {h : History} {p : ProducerId} {r : Record} {w : World MemoryLog}
    {ticket : Ticket} {s' : MemoryLog} (hp : h.producer = some p)
    (hsend : w.log.send p (h.request r) = (.ok ticket, s'))
    (hopen : s'.producers.get? p = some false) :
    (h.store host r w).1 = .ok (History.outcomeOf
        (Delivery.check (s'.deliveries.answer? ticket) (w.isRaised h.shutdown))) ∧
      (h.store host r w).2.2 = { w with log := s' } := by
  have hsend' : host.send p (h.request r) w = (.ok ticket, { w with log := s' }) := by
    show World.onLog (MemoryLog.send p (h.request r)) w = _
    rw [World.onLog, hsend]
  have hflush : host.flush p { w with log := s' } = (.ok (), { w with log := s' }) := by
    show World.onLog (MemoryLog.flush p) { w with log := s' } = _
    rw [World.onLog, MemoryLog.flush, MemoryLog.isClosed, hopen]
    rfl
  obtain ⟨hresult, hworld⟩ := History.store_handed hp hsend'
  rw [hflush, await_eq] at hresult hworld
  exact ⟨hresult, hworld⟩

/-- A log that refuses stores nothing. -/
theorem send_refused {s : MemoryLog} {p : ProducerId} (request : AppendRequest) {reason : String}
    (hopen : s.producers.get? p = some false) (hm : s.mode = .fail reason) :
    s.send p request = (.ok s.deliveries.next,
      { s with deliveries := s.deliveries.resolve (.error (.rejected reason)) }) := by
  rw [MemoryLog.send, MemoryLog.isClosed, hopen, if_neg (by decide)]
  split
  · rename_i reason' hm'
    rw [hm] at hm'
    cases hm'
    rfl
  · rename_i hne
    exact absurd hm (hne reason)

/-- A log that stores puts the entry behind the others. -/
theorem send_stored {s : MemoryLog} {p : ProducerId} (request : AppendRequest)
    (hopen : s.producers.get? p = some false) (hm : s.mode.stores = true)
    (hs : s.topics.Holds topic es) (htopic : request.topic = topic) (hzero : request.partition = 0) :
    ∃ t', t'.Holds topic (es ++ [⟨request.key, request.payload⟩]) ∧ s.send p request =
      if s.mode = .withhold then MemoryLog.keepBack ⟨topic, 0, es.length⟩ { s with topics := t' }
      else MemoryLog.respond (.ok ⟨topic, 0, es.length⟩) { s with topics := t' } := by
  obtain ⟨t', happend, ht'⟩ := hs.append ⟨request.key, request.payload⟩
  refine ⟨t', ht', ?_⟩
  rw [MemoryLog.send, MemoryLog.isClosed, hopen, if_neg (by decide), htopic, hzero, happend]
  split
  · rename_i reason hf
    rw [hf] at hm
    cases hm
  · rfl

/-- A log that answers at once acknowledges a store with the number of the entry. -/
theorem store_immediate {h : History} {p : ProducerId} {r : Record} {w : World MemoryLog}
    (hp : h.producer = some p) (hopen : w.log.producers.get? p = some false)
    (hmode : w.log.mode = .immediate) (hholds : w.log.topics.Holds topic es)
    (htopic : h.settings.topic = topic) :
    ∃ s', (h.store host r w).1 = .ok (.acknowledged ⟨topic, 0, es.length⟩) ∧
      (h.store host r w).2.2 = { w with log := s' } ∧
      s'.topics.Holds topic (es ++ [⟨none, r.payload⟩]) ∧ s'.mode = w.log.mode ∧
      s'.producers = w.log.producers := by
  obtain ⟨t', ht', hsend⟩ :=
    send_stored (h.request r) hopen (by rw [hmode]; rfl) hholds htopic rfl
  rw [if_neg (by rw [hmode]; decide), MemoryLog.respond] at hsend
  obtain ⟨hresult, hworld⟩ := store_of_send hp hsend hopen
  rw [answer?_resolve] at hresult
  exact ⟨_, hresult, hworld, ht', rfl, rfl⟩

/-- What a call of a store did: the call, the log behind it and the entries it added. -/
structure Called (topic : String) (run : MemoryRun) (es : List Stored) (h : History) (r : Record)
    (new : List Stored) : Prop where
  /-- The partition holds the new entries behind the others. -/
  holds : (h.store host r run.party.world).2.2.log.topics.Holds topic (es ++ new)
  /-- The new entries are what the call says it stored. -/
  text : new.map Stored.payload = ((Write.stored ⟨r, run.log.mode, h.shutdown,
    run.log.deliveries.next, (h.store host r run.party.world).1⟩).text? topic).toList
  /-- It says what happened. -/
  sound : StoreCall.Sound ⟨r, run.log.mode, h.shutdown, run.log.deliveries.next,
    (h.store host r run.party.world).1⟩
  /-- It adds an entry exactly if the history was started and the mode stores. -/
  lands : new.map Stored.payload = if h.isStarted = true ∧ run.log.mode.stores then [r.payload] else []
  mode : (h.store host r run.party.world).2.2.log.mode = run.log.mode
  producers : (h.store host r run.party.world).2.2.log.producers = run.log.producers
  consumers : (h.store host r run.party.world).2.2.log.consumers = run.log.consumers

theorem called_notStarted {h : History} (r : Record) (hholds : run.log.topics.Holds topic es)
    (hp : h.producer = none) : Called topic run es h r [] := by
  have hstore : h.store host r run.party.world = (.error .notStarted, [], run.party.world) :=
    History.store_unstarted hp
  have hstarted := History.isStarted_of_none hp
  refine ⟨?_, ?_, ?_, ?_, ?_, ?_, ?_⟩
  · rw [hstore, List.append_nil]
    exact hholds
  · rw [hstore]
    rfl
  · rw [hstore]
    exact ⟨.inl rfl, fun _ => .inl rfl, fun _ _ => .inl rfl⟩
  · rw [hstarted]
    rfl
  · rw [hstore]; rfl
  · rw [hstore]; rfl
  · rw [hstore]; rfl

/-- A store that the log took, by the log behind it. Nothing but the topics and the answers may
differ there. -/
theorem called_of_send {h : History} {p : ProducerId} {r : Record} {ticket : Ticket}
    {s' : MemoryLog} {new : List Stored} (hp : h.producer = some p)
    (hsend : run.log.send p (h.request r) = (.ok ticket, s'))
    (hopen : run.log.producers.get? p = some false) (hmode : s'.mode = run.log.mode)
    (hproducers : s'.producers = run.log.producers) (hconsumers : s'.consumers = run.log.consumers)
    (hholds : s'.topics.Holds topic (es ++ new))
    (hnew : new.map Stored.payload = if run.log.mode.stores then [r.payload] else [])
    (hsound : StoreCall.Sound ⟨r, run.log.mode, h.shutdown, run.log.deliveries.next,
      .ok (History.outcomeOf (Delivery.check (s'.deliveries.answer? ticket)
        (run.party.world.isRaised h.shutdown)))⟩) :
    Called topic run es h r new := by
  have hstarted := History.isStarted_of_producer hp
  obtain ⟨hresult, hworld⟩ := store_of_send hp hsend (by rw [hproducers]; exact hopen)
  have hlog : (h.store host r run.party.world).2.2.log = s' := congrArg World.log hworld
  refine ⟨?_, ?_, ?_, ?_, ?_, ?_, ?_⟩
  · rw [hlog]
    exact hholds
  · rw [hresult, hnew, Write.text?, StoreCall.reached]
    dsimp only
    cases run.log.mode.stores <;> rfl
  · rw [hresult]
    exact hsound
  · rw [hnew, hstarted]
    simp
  · rw [hlog, hmode]
  · rw [hlog, hproducers]
  · rw [hlog, hconsumers]

theorem called_started {h : History} {p : ProducerId} (r : Record)
    (hholds : run.log.topics.Holds topic es) (hp : h.producer = some p)
    (hopen : run.log.producers.get? p = some false) (htopic : h.settings.topic = topic) :
    ∃ new, Called topic run es h r new := by
  -- what the log answers, and whether it stores, is up to its mode
  cases hm : run.log.mode with
  | fail reason =>
      refine ⟨[], called_of_send hp (send_refused (h.request r) hopen hm) hopen rfl rfl rfl ?_ ?_ ?_⟩
      · rw [List.append_nil]
        exact hholds
      · rw [hm]
        rfl
      · rw [answer?_resolve, hm]
        exact ⟨.inr ⟨_, rfl⟩, fun hi => (by cases hi), fun _ _ => .inr rfl⟩
  | immediate =>
      obtain ⟨t', ht', hsend⟩ := send_stored (h.request r) hopen (by rw [hm]; rfl) hholds htopic rfl
      rw [if_neg (by rw [hm]; decide), MemoryLog.respond] at hsend
      refine ⟨_, called_of_send hp hsend hopen rfl rfl rfl ht' ?_ ?_⟩
      · rw [hm]
        rfl
      · rw [answer?_resolve, hm]
        exact ⟨.inr ⟨_, rfl⟩, fun _ => .inr ⟨_, rfl⟩, fun _ hf => (by cases hf)⟩
  | withhold =>
      obtain ⟨t', ht', hsend⟩ := send_stored (h.request r) hopen (by rw [hm]; rfl) hholds htopic rfl
      rw [if_pos hm, MemoryLog.keepBack] at hsend
      refine ⟨_, called_of_send hp hsend hopen rfl rfl rfl ht' ?_ ?_⟩
      · rw [hm]
        rfl
      · rw [hm]
        exact ⟨.inr ⟨_, rfl⟩, fun hi => (by cases hi), fun _ hf => (by cases hf)⟩

theorem Good.store (h : run.Good topic es) (i : Nat) (r : Record) :
    ∃ new, run.Stepped topic es (.store i r) new := by
  cases hi : run.party.histories[i]? with
  | none =>
      refine ⟨[], h.idle (by rw [step, hi]) ?_ rfl⟩
      rw [Stance.lands, stance, List.getElem?_map, hi]
      rfl
  | some old =>
      have hmem : old ∈ run.party.histories := List.mem_of_getElem? hi
      obtain ⟨new, hcalled⟩ : ∃ new, Called topic run es old r new := by
        cases hp : old.producer with
        | none => exact ⟨[], called_notStarted r h.holds hp⟩
        | some p =>
            have hopen := h.held.holds ((holder_eq hi).trans hp)
            exact called_started r h.holds hp hopen (h.onTopic old hmem)
      have hstep : run.step (.store i r) =
          { run.withWorld (old.store host r run.party.world).2.2 with
            journal := run.journal ++ [.stored ⟨r, run.log.mode, old.shutdown,
              run.log.deliveries.next, (old.store host r run.party.world).1⟩] } := by
        rw [step, hi]
      refine ⟨new, ⟨?_, ?_, ?_, ?_, ?_⟩, ?_, ?_, ?_⟩
      · rw [hstep]
        exact hcalled.holds
      · rw [hstep]
        show Held run.party.histories fun p =>
          (old.store host r run.party.world).2.2.log.producers.get? p = some false
        rw [hcalled.producers]
        exact h.held
      · rw [hstep]
        exact h.onTopic
      · rw [hstep, List.map_append, h.written, hcalled.text, List.filterMap_append]
        rw [List.filterMap_cons, List.filterMap_nil]
        cases Write.text? topic _ <;> rfl
      · intro c hc
        rw [hstep] at hc
        rcases List.mem_append.mp hc with hc | hc
        · exact h.sound c hc
        · cases List.mem_singleton.mp hc
          exact hcalled.sound
      · rw [hcalled.lands, Stance.lands, stance, List.getElem?_map, hi]
        simp
      · rw [hstep]
        show Stance.mk (old.store host r run.party.world).2.2.log.mode _ = _
        rw [hcalled.mode]
        rfl
      · rw [hstep]
        exact keepsConsumers_of_eq hcalled.consumers

/-! ### Starting, stopping and looking -/

/-- Who is there may change, as long as the partition and the consumers stay. -/
theorem Good.acted (h : run.Good topic es) {a : Act}
    (hlog : ∀ s, s = (run.party.act MemoryLog.clients a).world.log → s.topics = run.log.topics ∧
      s.mode = run.log.mode ∧ s.consumers = run.log.consumers)
    (hheld : Held (run.party.act MemoryLog.clients a).histories fun p =>
      (run.party.act MemoryLog.clients a).world.log.producers.get? p = some false)
    (honTopic : ∀ h ∈ (run.party.act MemoryLog.clients a).histories, h.settings.topic = topic)
    (hstarted : (run.party.act MemoryLog.clients a).histories.map History.isStarted =
      (run.stance.after (.act a)).started)
    (hmode : (run.stance.after (.act a)).mode = run.log.mode) :
    run.Stepped topic es (.act a) [] := by
  obtain ⟨htopics, hmode', hconsumers⟩ := hlog _ rfl
  refine ⟨⟨?_, hheld, honTopic, ?_, h.sound⟩, ?_, ?_, keepsConsumers_of_eq hconsumers⟩
  · show Topics.Holds (run.party.act MemoryLog.clients a).world.log.topics topic _
    rw [htopics, List.append_nil]
    exact h.holds
  · rw [List.append_nil]
    exact h.written
  · cases a <;> rfl
  · show Stance.mk (run.party.act MemoryLog.clients a).world.log.mode
      ((run.party.act MemoryLog.clients a).histories.map History.isStarted) = _
    rw [hmode', hstarted, ← hmode]

theorem Good.make (h : run.Good topic es) {settings : HistorySettings} (shutdown : SignalId)
    (ht : settings.topic = topic) : run.Stepped topic es (.act (.make settings shutdown)) [] := by
  refine h.acted (fun s hs => by rw [hs]; exact ⟨rfl, rfl, rfl⟩) (h.held.make settings shutdown)
    (onTopic_make h.onTopic shutdown ht) ?_ rfl
  show List.map _ (run.party.histories ++ [_]) = _
  rw [List.map_append]
  rfl

/-- Who is started already stays so, and who is not. -/
theorem started_set {hs : List History} {i : Nat} {b : Bool}
    (h : ∀ g, hs[i]? = some g → g.isStarted = b) :
    (hs.map History.isStarted).set i b = hs.map History.isStarted := by
  by_cases hi : i < hs.length
  · have hb := h hs[i] (List.getElem?_eq_getElem hi)
    rw [← hb, ← List.getElem_map History.isStarted (h := by simpa using hi), List.set_getElem_self]
  · exact List.set_eq_of_length_le (by simpa using hi)

theorem Good.start (h : run.Good topic es) (i : Nat) :
    run.Stepped topic es (.act (.start i)) [] := by
  rcases run.party.act_start_cases MemoryLog.clients i with ⟨hact, hstarted⟩ | ⟨old, hi, hp⟩
  · refine h.idle (by rw [step, hact]) rfl ?_
    rw [stance, Stance.after, started_set hstarted]
  · obtain ⟨hlt, -⟩ := List.getElem?_eq_some_iff.mp hi
    have hcreate : MemoryLog.clients.host.createProducer old.settings.producer
        run.party.world = (.ok run.log.producers.size, { run.party.world with
          log := { run.log with producers := run.log.producers.add false } }) := rfl
    have hact := Party.act_start hi hp hcreate
    refine h.acted (fun s hs => by rw [hs, hact]; exact ⟨rfl, rfl, rfl⟩) ?_ ?_ ?_ rfl
    · rw [hact]
      refine h.held.take hlt rfl ?_ (Registry.get?_add_self false)
        fun q hq => Registry.get?_add_of_some hq false
      -- the producer is new, so nobody holds it
      rw [Registry.get?_size]
      exact fun hnone => by cases hnone
    · rw [hact]
      exact onTopic_set h.onTopic hi rfl
    · rw [hact, List.map_set]
      rfl

/-- A history that is stopped closes its producer. -/
theorem stop_open {h : History} {p : ProducerId} {w : World MemoryLog} (hp : h.producer = some p)
    (hopen : w.log.producers.get? p = some false) :
    h.stop host w = (.ok (), { h with producer := none },
      { w with log := { w.log with producers := w.log.producers.set p true } }) := by
  have hflush : host.flush p w = (.ok (), w) := by
    show World.onLog (MemoryLog.flush p) w = _
    rw [World.onLog, MemoryLog.flush, MemoryLog.isClosed, hopen]
    rfl
  exact History.stop_closed hp hflush rfl

theorem Good.stop (h : run.Good topic es) (i : Nat) :
    run.Stepped topic es (.act (.stop i)) [] := by
  rcases run.party.act_stop_cases MemoryLog.clients i with ⟨hact, hstarted⟩ | ⟨old, p, hi, hp⟩
  · refine h.idle (by rw [step, hact]) rfl ?_
    rw [stance, Stance.after, started_set hstarted]
  · obtain ⟨hlt, -⟩ := List.getElem?_eq_some_iff.mp hi
    have hholder : holder run.party.histories i = some p := (holder_eq hi).trans hp
    have hact : run.party.act MemoryLog.clients (.stop i) =
        ⟨{ run.party.world with log := { run.log with producers := run.log.producers.set p true } },
          run.party.histories.set i { old with producer := none }⟩ := by
      rw [Party.act_stop hi hp]
      exact congrArg (fun x => Party.mk x.2.2 _) (stop_open hp (h.held.holds hholder))
    refine h.acted (fun s hs => by rw [hs, hact]; exact ⟨rfl, rfl, rfl⟩) ?_ ?_ ?_ rfl
    · rw [hact]
      refine h.held.release hlt hholder rfl fun q hq hopen => ?_
      exact (Registry.get?_set_other (fun he => hq he.symm) true).trans hopen
    · rw [hact]
      exact onTopic_set h.onTopic hi rfl
    · rw [hact, List.map_set]
      rfl

theorem Good.raise (h : run.Good topic es) (signal : SignalId) :
    run.Stepped topic es (.act (.raise signal)) [] :=
  h.acted (fun s hs => by rw [hs]; exact ⟨rfl, rfl, rfl⟩) h.held h.onTopic rfl rfl

/-- A call that looks again says what happened, and it stored what it stored. -/
theorem looked_sound {c : StoreCall} (hc : c.Sound) (w : World MemoryLog) :
    (looked w c).Sound ∧ (looked w c).reached = c.reached ∧ (looked w c).record = c.record := by
  unfold looked
  split
  · rename_i hwait
    refine ⟨⟨.inr ⟨_, rfl⟩, fun hm => ?_, fun reason hm => ?_⟩, ?_, rfl⟩
    · rcases hc.immediate hm with hend | ⟨p, hend⟩
      · rw [hwait] at hend
        cases hend
      · rw [hwait] at hend
        cases hend
    · rcases hc.refused reason hm with hend | hend
      · rw [hwait] at hend
        cases hend
      · rw [hwait] at hend
        cases hend
    · rw [StoreCall.reached, StoreCall.reached, hwait]
  · exact ⟨hc, rfl, rfl⟩

theorem filterMap_set {α β : Type} {f : α → Option β} {xs : List α} {n : Nat} {a b : α}
    (hn : xs[n]? = some a) (hf : f b = f a) : (xs.set n b).filterMap f = xs.filterMap f := by
  obtain ⟨hlt, rfl⟩ := List.getElem?_eq_some_iff.mp hn
  have hmap : (xs.set n b).map f = xs.map f := by
    rw [List.map_set, hf, ← List.map_set, List.set_getElem_self]
  -- what is filtered depends on the values of `f` only, and these stay
  have hid : ∀ ys : List α, ys.filterMap f = (ys.map f).filterMap id := by
    intro ys
    rw [List.filterMap_map]
    rfl
  rw [hid, hid, hmap]

theorem Good.look (h : run.Good topic es) (n : Nat) : run.Stepped topic es (.look n) [] := by
  by_cases hn : ∃ c, run.journal[n]? = some (.stored c)
  · obtain ⟨c, hc⟩ := hn
    have hstep : run.step (.look n) =
        { run with journal := run.journal.set n (.stored (looked run.party.world c)) } := by
      rw [step, hc]
    obtain ⟨hsound, hreached, hrecord⟩ :=
      looked_sound (h.sound c (List.mem_of_getElem? hc)) run.party.world
    refine ⟨⟨?_, ?_, ?_, ?_, ?_⟩, rfl, ?_, ?_⟩
    · rw [hstep, List.append_nil]
      exact h.holds
    · rw [hstep]
      exact h.held
    · rw [hstep]
      exact h.onTopic
    · rw [hstep, List.append_nil, h.written]
      refine (filterMap_set hc ?_).symm
      rw [Write.text?, Write.text?, hreached, hrecord]
    · intro d hd
      rw [hstep] at hd
      rcases List.mem_or_eq_of_mem_set hd with hd | hd
      · exact h.sound d hd
      · cases hd
        exact hsound
    · rw [hstep]
      rfl
    · rw [hstep]
      exact keepsConsumers_of_eq rfl
  · have hstep : run.step (.look n) = run := by
      rw [step]
      split
      · rename_i c hc
        exact absurd ⟨c, hc⟩ hn
      · rfl
    exact h.idle hstep rfl rfl

/-! ### Recovering -/

/-- What a recovery may do to the log: make a consumer, and change that one. -/
structure Recovered (s s' : MemoryLog) : Prop where
  topics : s'.topics = s.topics
  mode : s'.mode = s.mode
  producers : s'.producers = s.producers
  consumers : KeepsConsumers s s'

/-- Changing a consumer that was not there before. -/
theorem Recovered.setConsumer {s s' s'' : MemoryLog} (h : Recovered s s') {k : ConsumerId}
    {c : MemoryConsumer} (hk : s.consumers.get? k = none)
    (hs : s''.topics = s'.topics ∧ s''.mode = s'.mode ∧ s''.producers = s'.producers ∧
      s''.consumers = s'.consumers.set k c) : Recovered s s'' := by
  refine ⟨hs.1.trans h.topics, hs.2.1.trans h.mode, hs.2.2.1.trans h.producers, fun j d hj => ?_⟩
  -- a consumer that was there before is another one
  have hne : k ≠ j := by
    rintro rfl
    rw [hk] at hj
    cases hj
  rw [hs.2.2.2, Registry.get?_set_other hne]
  exact h.consumers j d hj

theorem consumerKeeps_recovered {w : World MemoryLog} {k : ConsumerId}
    (hk : w.log.consumers.get? k = none) :
    host.ConsumerKeeps k fun w' => Recovered w.log w'.log := by
  refine ⟨fun {topics s} h => ?_, fun {timeout s} h => ?_, fun {s} h => ?_, fun {s} h => ?_⟩
  · show Recovered w.log (MemoryLog.subscribe k topics s.log).2
    unfold MemoryLog.subscribe
    split
    · exact h
    split
    · exact h
    · exact h.setConsumer hk ⟨rfl, rfl, rfl, rfl⟩
  · show Recovered w.log (MemoryLog.poll k s.log).2
    unfold MemoryLog.poll
    split
    · exact h
    split
    · exact h
    split
    · exact h
    · exact h.setConsumer hk ⟨rfl, rfl, rfl, rfl⟩
  · show Recovered w.log (MemoryLog.closeConsumer k s.log).2
    unfold MemoryLog.closeConsumer
    split
    · exact h
    split
    · exact h
    · exact h.setConsumer hk ⟨rfl, rfl, rfl, rfl⟩
  · show Recovered w.log (MemoryLog.closeConsumer k s.log).2
    unfold MemoryLog.closeConsumer
    split
    · exact h
    split
    · exact h
    · exact h.setConsumer hk ⟨rfl, rfl, rfl, rfl⟩

theorem recovered_of_recover {h : History} {w w' : World MemoryLog} {limit : Nat}
    {result : Except HistoryError Recovery} {events : List Event}
    (hrec : h.recover host limit w = some (result, events, w')) : Recovered w.log w'.log := by
  have hself : Recovered w.log w.log := ⟨rfl, rfl, rfl, fun _ _ hc => hc⟩
  refine History.recover_preserves (P := fun w' => Recovered w.log w'.log) (fun e he => ?_)
    (fun k hk => ?_) hrec
  · show Recovered w.log (MemoryLog.createConsumer h.settings.consumer w.log).2
    change (MemoryLog.createConsumer h.settings.consumer w.log).1 = .error e at he
    unfold MemoryLog.createConsumer at he ⊢
    split
    · exact hself
    · rename_i options ho
      rw [ho] at he
      cases he
  · show Recovered w.log (MemoryLog.createConsumer h.settings.consumer w.log).2 ∧ _
    change (MemoryLog.createConsumer h.settings.consumer w.log).1 = .ok k at hk
    unfold MemoryLog.createConsumer at hk ⊢
    split
    · rename_i e he
      rw [he] at hk
      cases hk
    · rename_i options ho
      rw [ho] at hk
      obtain rfl := Except.ok.inj hk
      exact ⟨⟨rfl, rfl, rfl, fun j d hj => Registry.get?_add_of_some hj _⟩,
        consumerKeeps_recovered Registry.get?_size⟩

/-- A recovery leaves the partition as it is. -/
theorem Good.recover (h : run.Good topic es) (i limit : Nat) :
    run.Stepped topic es (.recover i limit) [] := by
  have hstep : run.step (.recover i limit) = run ∨ ∃ w, Recovered run.log w.log ∧
      run.step (.recover i limit) = run.withWorld w := by
    rw [step]
    split
    · exact .inl rfl
    split
    · exact .inl rfl
    · rename_i result events w hrec
      exact .inr ⟨w, recovered_of_recover hrec, rfl⟩
  rcases hstep with hstep | ⟨w, hw, hstep⟩
  · exact h.idle hstep rfl rfl
  · refine ⟨⟨?_, ?_, ?_, ?_, ?_⟩, rfl, ?_, ?_⟩
    · rw [hstep, List.append_nil]
      show w.log.topics.Holds topic es
      rw [hw.topics]
      exact h.holds
    · rw [hstep]
      show Held run.party.histories fun p => w.log.producers.get? p = some false
      rw [hw.producers]
      exact h.held
    · rw [hstep]
      exact h.onTopic
    · rw [hstep, List.append_nil]
      exact h.written
    · rw [hstep]
      exact h.sound
    · rw [hstep]
      show Stance.mk w.log.mode _ = _
      rw [hw.mode]
      rfl
    · rw [hstep]
      exact hw.consumers

/-! ### All steps -/

/--
**One step.** It leaves the entries that are there, and puts behind them the texts that land.
-/
theorem Good.step (h : run.Good topic es) {s : MemoryStep} (hs : s.On topic) :
    ∃ new, run.Stepped topic es s new := by
  cases s with
  | act a =>
      cases a with
      | make settings shutdown => exact ⟨[], h.make shutdown hs⟩
      | start i => exact ⟨[], h.start i⟩
      | stop i => exact ⟨[], h.stop i⟩
      | raise signal => exact ⟨[], h.raise signal⟩
  | store i r => exact h.store i r
  | look n => exact ⟨[], h.look n⟩
  | recover i limit => exact ⟨[], h.recover i limit⟩
  | createTopic other n => exact ⟨[], h.createTopic other n⟩
  | raw t partition text => exact h.raw hs
  | mode m => exact ⟨[], h.mode m⟩
  | release => exact ⟨[], h.release⟩

/--
**A run.** It leaves the entries that are there, and puts behind them the texts that land, in
the order of the steps.
-/
theorem Good.exec (h : run.Good topic es) {steps : List MemoryStep}
    (hsteps : ∀ s ∈ steps, s.On topic) : ∃ new, (run.exec steps).Good topic (es ++ new) ∧
      new.map Stored.payload = run.stance.landsAll topic steps ∧
      (run.exec steps).stance = steps.foldl Stance.after run.stance ∧
      KeepsConsumers run.log (run.exec steps).log := by
  induction steps generalizing run es with
  | nil =>
      refine ⟨[], ?_, rfl, rfl, keepsConsumers_of_eq rfl⟩
      rw [List.append_nil]
      exact h
  | cons s steps ih =>
      obtain ⟨new, hnew⟩ := h.step (hsteps s (by simp))
      obtain ⟨more, hgood, hlands, hstance, hconsumers⟩ :=
        ih hnew.good fun t ht => hsteps t (by simp [ht])
      refine ⟨new ++ more, ?_, ?_, ?_, ?_⟩
      · rw [exec_cons, ← List.append_assoc]
        exact hgood
      · rw [List.map_append, hnew.lands, hlands, hnew.stance]
        rfl
      · rw [exec_cons, hstance, hnew.stance]
        rfl
      · exact fun k c hc => hconsumers k c (hnew.consumers k c hc)

end Steps

end MemoryRun

end SchemaHistory
