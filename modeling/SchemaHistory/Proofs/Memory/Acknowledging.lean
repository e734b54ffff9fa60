import SchemaHistory.Proofs.Memory.Calls

/-!
# What a log in memory acknowledges

The entries of a log and the answers to the appends live apart: an append that is kept back
has its entry stored and no answer. What ties the two together is that the appends without an
answer are exactly those that are kept back, in the order in which they were sent. So a release
answers each of them, and once only; an answer that was given stays; and since entries stay where
they are, the place that an answer names holds the entry of that append for good.
-/

namespace SchemaHistory.MemoryLog

variable {s : MemoryLog}

/-! ## The appends without an answer -/

/-- The appends without an answer are those that are kept back. -/
def Accounted (s : MemoryLog) : Prop := s.withheld.map Prod.fst = s.deliveries.unanswered

theorem accounted_empty : empty.Accounted := rfl

theorem Accounted.nodup (h : s.Accounted) : (s.withheld.map Prod.fst).Nodup :=
  h.symm ▸ Deliveries.nodup_unanswered _

/-- What is kept back has no answer. -/
theorem Accounted.unanswered (h : s.Accounted) {t : Ticket} {place : Placement}
    (hw : (t, place) ∈ s.withheld) : t < s.deliveries.size ∧ s.deliveries.answer? t = none :=
  Deliveries.mem_unanswered.mp (h ▸ List.mem_map_of_mem hw)

/-! ## Calls that release nothing -/

/-- The log of the second kind keeps back what the first does, and what was answered is answered as
it was. -/
structure Rests (s s' : MemoryLog) : Prop where
  withheld : s.withheld <+: s'.withheld
  size : s.deliveries.size ≤ s'.deliveries.size
  answers : ∀ t < s.deliveries.size, s'.deliveries.answer? t = s.deliveries.answer? t
  accounted : s.Accounted → s'.Accounted

theorem Rests.of_eq {s' : MemoryLog} (hwithheld : s'.withheld = s.withheld)
    (hdeliveries : s'.deliveries = s.deliveries) : Rests s s' where
  withheld := hwithheld ▸ List.prefix_refl _
  size := Nat.le_of_eq (congrArg Registry.size hdeliveries.symm)
  answers t _ := by rw [hdeliveries]
  accounted h := by rw [Accounted, hwithheld, hdeliveries]; exact h

/-- An answer that is given at once leaves nothing to wait for. -/
theorem rests_respond (s : MemoryLog) (ack : Ack) : Rests s (s.respond ack).2 where
  withheld := List.prefix_refl _
  size := (Registry.size_add s.deliveries (some ack)).symm ▸ Nat.le_succ _
  answers t ht := by
    show (s.deliveries.resolve ack).answer? t = _
    rw [Deliveries.answer?_resolve, if_neg (Nat.ne_of_lt ht)]
  accounted h := by
    show s.withheld.map Prod.fst = (s.deliveries.resolve ack).unanswered
    rw [Deliveries.unanswered_resolve, h]

/-- An append that is kept back is the last one to wait for an answer. -/
theorem rests_keepBack (s : MemoryLog) (place : Placement) : Rests s (s.keepBack place).2 where
  withheld := List.prefix_append _ _
  size := (Registry.size_add s.deliveries none).symm ▸ Nat.le_succ _
  answers t _ := Deliveries.answer?_expect s.deliveries t
  accounted h := by
    show (s.withheld ++ [(s.deliveries.next, place)]).map Prod.fst = s.deliveries.expect.unanswered
    rw [Deliveries.unanswered_expect, List.map_append, h]
    rfl

/-- The topics do not matter here. -/
theorem Rests.of_withTopics {s' : MemoryLog} {topics : Topics} (h : Rests (s.withTopics topics) s') :
    Rests s s' :=
  ⟨h.withheld, h.size, h.answers, h.accounted⟩

theorem rests_send (s : MemoryLog) (p : ProducerId) (request : AppendRequest) :
    Rests s (s.call (.send p request)) := by
  rw [call]
  rcases send_eq s p request with ⟨-, hsend⟩ | ⟨-, reason, -, hsend⟩ | ⟨-, -, hsend⟩
  · rw [hsend]
    exact .of_eq rfl rfl
  · rw [hsend]
    exact rests_respond s _
  · rw [hsend]
    split
    · exact .of_eq rfl rfl
    · split
      · exact (rests_keepBack _ _).of_withTopics
      · exact (rests_respond _ _).of_withTopics

/-- **Only a release answers what was kept back**, and no call takes an answer back. -/
theorem rests_call (s : MemoryLog) {c : MemoryCall} (hc : c ≠ .release) : Rests s (s.call c) := by
  by_cases hconsumer : c.ofConsumer = true
  · obtain ⟨_, _, hcall⟩ := call_ofConsumer (s := s) hconsumer
    rw [hcall]
    exact .of_eq rfl rfl
  · cases c with
    | release => exact absurd rfl hc
    | send p request => exact rests_send s p request
    | flush p =>
        rw [call_flush]
        exact .of_eq rfl rfl
    | createConsumer _ | subscribe _ _ | poll _ | closeConsumer _ => exact absurd rfl hconsumer
    | _ => exact .of_eq rfl rfl

/-! ## A release -/

/-- The answers that a release gives. -/
def releasedAcks (s : MemoryLog) : List (Ticket × Ack) := s.withheld.map fun w => (w.1, .ok w.2)

theorem answer?_release (s : MemoryLog) (t : Ticket) :
    (s.call .release).deliveries.answer? t = (s.deliveries.fillAll s.releasedAcks).answer? t := rfl

theorem size_release (s : MemoryLog) : (s.call .release).deliveries.size = s.deliveries.size :=
  Deliveries.size_fillAll _ _

/-- What was kept back is acknowledged with its place. -/
theorem Accounted.released (h : s.Accounted) {t : Ticket} {place : Placement}
    (hw : (t, place) ∈ s.withheld) :
    (s.call .release).deliveries.answer? t = some (.ok place) := by
  rw [answer?_release]
  refine Deliveries.answer?_fillAll_same (h.unanswered hw).1
    (List.mem_map.mpr ⟨_, hw, rfl⟩) fun ack hack => ?_
  obtain ⟨⟨t', place'⟩, hw', heq⟩ := List.mem_map.mp hack
  obtain ⟨rfl, rfl⟩ := Prod.mk.inj heq
  -- a ticket is kept back once
  have hsame : place' = place := by
    have hfirst := Assoc.get?_of_mem h.nodup hw'
    rw [Assoc.get?_of_mem h.nodup hw] at hfirst
    exact (Option.some.inj hfirst).symm
  rw [hsame]

/-- What was answered before is left as it is. -/
theorem Accounted.release_other (h : s.Accounted) {t : Ticket} {ack : Ack}
    (ht : s.deliveries.answer? t = some ack) :
    (s.call .release).deliveries.answer? t = some ack := by
  rw [answer?_release, Deliveries.answer?_fillAll_other, ht]
  intro a ha
  obtain ⟨⟨t', place⟩, hw, heq⟩ := List.mem_map.mp ha
  obtain ⟨rfl, -⟩ := Prod.mk.inj heq
  rw [(h.unanswered hw).2] at ht
  cases ht

/-- **After a release every append is answered.** -/
theorem Accounted.unanswered_release (h : s.Accounted) :
    (s.call .release).deliveries.unanswered = [] := by
  refine List.eq_nil_iff_forall_not_mem.mpr fun t ht => ?_
  obtain ⟨hlt, hnone⟩ := Deliveries.mem_unanswered.mp ht
  rw [size_release] at hlt
  cases hold : s.deliveries.answer? t with
  | some ack =>
      rw [h.release_other hold] at hnone
      cases hnone
  | none =>
      have hmem : t ∈ s.withheld.map Prod.fst := by
        rw [h]
        exact Deliveries.mem_unanswered.mpr ⟨hlt, hold⟩
      obtain ⟨⟨t', place⟩, hw, rfl⟩ := List.mem_map.mp hmem
      rw [h.released hw] at hnone
      cases hnone

/-! ## Runs -/

/-- **One call**: what is kept back and what has no answer stay the same appends. -/
theorem Accounted.call (h : s.Accounted) (c : MemoryCall) : (s.call c).Accounted := by
  by_cases hc : c = .release
  · rw [hc, Accounted, h.unanswered_release]
    rfl
  · exact (rests_call s hc).accounted h

theorem Accounted.exec (h : s.Accounted) (calls : List MemoryCall) : (s.exec calls).Accounted := by
  induction calls generalizing s with
  | nil => exact h
  | cons c calls ih => exact ih (h.call c)

/-- An answer stays. -/
theorem Accounted.answered_exec (h : s.Accounted) {t : Ticket} {ack : Ack}
    (ht : s.deliveries.answer? t = some ack) (calls : List MemoryCall) :
    (s.exec calls).deliveries.answer? t = some ack := by
  induction calls generalizing s with
  | nil => exact ht
  | cons c calls ih =>
      refine ih (h.call c) ?_
      by_cases hc : c = .release
      · rw [hc]
        exact h.release_other ht
      · rw [(rests_call s hc).answers t (Deliveries.lt_size_of_answer? ht), ht]

/-- What is kept back waits as long as nothing is released. -/
theorem Accounted.withheld_exec (h : s.Accounted) {t : Ticket} {place : Placement}
    (hw : (t, place) ∈ s.withheld) {calls : List MemoryCall} (hcalls : .release ∉ calls) :
    (s.exec calls).deliveries.answer? t = none := by
  induction calls generalizing s with
  | nil => exact (h.unanswered hw).2
  | cons c calls ih =>
      rw [List.mem_cons, not_or] at hcalls
      exact ih (h.call c) ((rests_call s (Ne.symm hcalls.1)).withheld.subset hw) hcalls.2

/-- The first release acknowledges it. -/
theorem Accounted.released_exec (h : s.Accounted) {t : Ticket} {place : Placement}
    (hw : (t, place) ∈ s.withheld) {calls : List MemoryCall} (hcalls : .release ∈ calls) :
    (s.exec calls).deliveries.answer? t = some (.ok place) := by
  induction calls generalizing s with
  | nil => cases hcalls
  | cons c calls ih =>
      by_cases hc : c = .release
      · subst hc
        exact (h.call _).answered_exec (h.released hw) calls
      · exact ih (h.call c) ((rests_call s hc).withheld.subset hw)
          ((List.mem_cons.mp hcalls).resolve_left (Ne.symm hc))

/-- An append that is answered at once keeps its answer. -/
theorem Accounted.respond_exec (h : s.Accounted) (ack : Ack) (calls : List MemoryCall) :
    ((s.respond ack).2.exec calls).deliveries.answer? s.deliveries.next = some ack := by
  refine ((rests_respond s ack).accounted h).answered_exec ?_ calls
  show (s.deliveries.resolve ack).answer? s.deliveries.size = some ack
  rw [Deliveries.answer?_resolve, if_pos rfl]

/-- One that is kept back is answered by the first release, and not before. -/
theorem Accounted.keepBack_exec (h : s.Accounted) (place : Placement) (calls : List MemoryCall) :
    (.release ∈ calls → ((s.keepBack place).2.exec calls).deliveries.answer? s.deliveries.next =
      some (.ok place)) ∧
    (.release ∉ calls →
      ((s.keepBack place).2.exec calls).deliveries.answer? s.deliveries.next = none) := by
  have hkept := (rests_keepBack s place).accounted h
  have hwithheld : (s.deliveries.next, place) ∈ (s.keepBack place).2.withheld :=
    List.mem_append_right _ List.mem_cons_self
  exact ⟨hkept.released_exec hwithheld, hkept.withheld_exec hwithheld⟩

/-! ## What becomes of an append -/

/-- What becomes of an append that a producer sends now, whatever is called afterwards. Its ticket
is new, so no other append has it. -/
structure SendSound (s : MemoryLog) (p : ProducerId) (request : AppendRequest) : Prop where
  /-- A closed producer sends nothing. -/
  closed : s.isClosed p = true → s.send p request = (.error .closed, s)
  /-- A log that refuses stores nothing, and the answer is the reason. -/
  refused : s.isClosed p = false → ∀ reason, s.mode = .fail reason →
    (s.send p request).1 = .ok s.deliveries.next ∧ (s.send p request).2.topics = s.topics ∧
    ∀ calls, ((s.send p request).2.exec calls).deliveries.answer? s.deliveries.next =
      some (.error (.rejected reason))
  /-- A partition that is not there takes nothing. -/
  unknown : s.isClosed p = false → s.mode.stores = true →
    ¬ s.topics.Takes request.topic request.partition →
    (s.send p request).1 = .error (.unknownPartition request.topic request.partition) ∧
    ∀ key, (s.send p request).2.topics.held key = s.topics.held key
  /-- Else the entry is stored behind the others, for good. The answer names its place; it comes at
  once, or with the first release. -/
  stored : s.isClosed p = false → s.mode.stores = true →
    s.topics.Takes request.topic request.partition →
    (s.send p request).1 = .ok s.deliveries.next ∧
    ∀ calls, ∃ offset,
      (((s.send p request).2.exec calls).topics.held
        (request.topic, request.partition))[offset]? = some ⟨request.key, request.payload⟩ ∧
      offset = (s.topics.held (request.topic, request.partition)).length ∧
      (s.mode = .immediate ∨ .release ∈ calls →
        ((s.send p request).2.exec calls).deliveries.answer? s.deliveries.next =
          some (.ok ⟨request.topic, request.partition, offset⟩)) ∧
      (s.mode = .withhold → .release ∉ calls →
        ((s.send p request).2.exec calls).deliveries.answer? s.deliveries.next = none)

/-- The entry of an append that is taken, in a log that answers as its mode says. -/
theorem Accounted.stored_exec (h : s.Accounted) {request : AppendRequest} {t' : Topics}
    (hentries : ∀ other q, t'.entries? other q =
      if (other, q) = (request.topic, request.partition)
      then some (s.topics.held (request.topic, request.partition) ++
        [⟨request.key, request.payload⟩])
      else (s.topics.create request.topic 1).entries? other q) {place : Placement}
    {s' : MemoryLog} (hs' : s' = if s.mode = .withhold then ((s.withTopics t').keepBack place).2
      else ((s.withTopics t').respond (.ok place)).2) (calls : List MemoryCall) :
    ((s'.exec calls).topics.held (request.topic, request.partition))[(s.topics.held
      (request.topic, request.partition)).length]? = some ⟨request.key, request.payload⟩ ∧
    (s.mode ≠ .withhold ∨ .release ∈ calls →
      (s'.exec calls).deliveries.answer? s.deliveries.next = some (.ok place)) ∧
    (s.mode = .withhold → .release ∉ calls →
      (s'.exec calls).deliveries.answer? s.deliveries.next = none) := by
  have haccounted : (s.withTopics t').Accounted := h
  have hheld : (t'.held (request.topic, request.partition))[(s.topics.held
      (request.topic, request.partition)).length]? = some ⟨request.key, request.payload⟩ := by
    rw [Topics.held_of_entries? ((hentries _ _).trans (if_pos rfl)), List.getElem?_concat_length]
  by_cases hmode : s.mode = .withhold
  · rw [if_pos hmode] at hs'
    subst hs'
    obtain ⟨hreleased, hwaits⟩ := haccounted.keepBack_exec place calls
    refine ⟨held_exec_getElem? hheld calls, fun h => ?_, fun _ => hwaits⟩
    rcases h with hother | hcalls
    · exact absurd hmode hother
    · exact hreleased hcalls
  · rw [if_neg hmode] at hs'
    subst hs'
    exact ⟨held_exec_getElem? hheld calls, fun _ => haccounted.respond_exec _ calls,
      fun hwithhold => absurd hwithhold hmode⟩

theorem Accounted.sendSound (h : s.Accounted) (p : ProducerId) (request : AppendRequest) :
    s.SendSound p request := by
  have hnotRefused : ∀ reason, s.mode.stores = true → s.mode ≠ .fail reason := by
    intro reason hstores hmode
    rw [hmode] at hstores
    cases hstores
  rcases send_eq s p request with ⟨hclosed, hsend⟩ | ⟨hopen, reason, hmode, hsend⟩ |
    ⟨hopen, hstores, hsend⟩
  · refine ⟨fun _ => hsend, ?_, ?_, ?_⟩ <;> intro hopen <;> rw [hclosed] at hopen <;> cases hopen
  · refine ⟨fun hclosed => ?_, fun _ reason' hmode' => ?_,
      fun _ hstores => absurd hmode (hnotRefused reason hstores),
      fun _ hstores => absurd hmode (hnotRefused reason hstores)⟩
    · rw [hopen] at hclosed
      cases hclosed
    · rw [hmode] at hmode'
      cases hmode'
      rw [hsend]
      exact ⟨rfl, rfl, fun calls => h.respond_exec _ calls⟩
  · refine ⟨fun hclosed => ?_, fun _ reason hmode => absurd hmode (hnotRefused reason hstores),
      fun _ _ hno => ?_, fun _ _ htakes => ?_⟩
    · rw [hopen] at hclosed
      cases hclosed
    · rcases Topics.append_cases s.topics request.topic request.partition
        ⟨request.key, request.payload⟩ with ⟨-, happend⟩ | ⟨htakes, -⟩
      · rw [hsend, happend]
        exact ⟨rfl, fun key => Topics.held_create s.topics request.topic 1 key⟩
      · exact absurd htakes hno
    · rcases Topics.append_cases s.topics request.topic request.partition
        ⟨request.key, request.payload⟩ with ⟨hno, -⟩ | ⟨-, t', happend, hentries⟩
      · exact absurd htakes hno
      · rw [happend] at hsend
        dsimp only at hsend
        have hlog := congrArg Prod.snd hsend
        rw [apply_ite Prod.snd] at hlog
        refine ⟨?_, fun calls => ?_⟩
        · rw [hsend]
          split <;> rfl
        · obtain ⟨hentry, hanswered, hwaits⟩ := h.stored_exec hentries hlog calls
          refine ⟨_, hentry, rfl, fun hnow => hanswered ?_, hwaits⟩
          rcases hnow with himmediate | hcalls
          · left
            rw [himmediate]
            decide
          · exact .inr hcalls

/--
**The log and its answers.** After any calls, each partition holds what was put on it, in the order of
the calls: the entries of the sends that were accepted by a log that stores and the texts that were
appended past the producers. It only ever grows at its end. What becomes of a send is as
`SendSound` says, at any time and whatever follows; the log answers as it was told last, and a
producer is closed once it was closed. A release answers all appends without an answer, tells how
many these were, and leaves the other answers as they are.
-/
theorem log_and_acknowledgments (calls : List MemoryCall) :
    let s := empty.exec calls
    (∀ key, s.topics.held key = empty.addedAll key calls) ∧
    (∀ topic p es later, s.topics.entries? topic p = some es →
      (s.exec later).topics.entries? topic p = some (es ++ s.addedAll (topic, p) later)) ∧
    (∀ topic p text, (s.appendRaw topic p text).1 = .ok (s.topics.held (topic, p)).length ∨
      (s.appendRaw topic p text).1 = .error (.unknownPartition topic p) ∧
        ¬ s.topics.Takes topic p) ∧
    (∀ p request, s.SendSound p request) ∧
    s.mode = (calls.filterMap MemoryCall.mode?).getLast?.getD .immediate ∧
    (∀ later, ((s.call .createProducer).exec later).isClosed s.producers.size =
      later.any (MemoryCall.closes s.producers.size)) ∧
    s.release.1 = s.deliveries.unanswered.length ∧
    s.release.2.deliveries.unanswered = [] ∧
    ∀ t ack, s.deliveries.answer? t = some ack → s.release.2.deliveries.answer? t = some ack := by
  have haccounted := accounted_empty.exec calls
  refine ⟨?_, fun _ _ _ later hes => entries?_exec hes later, ?_,
    fun p request => haccounted.sendSound p request, mode_exec empty calls, ?_, ?_,
    haccounted.unanswered_release, fun t ack => haccounted.release_other⟩
  · intro key
    rw [held_exec]
    rfl
  · intro topic p text
    unfold appendRaw
    rcases Topics.append_cases (empty.exec calls).topics topic p ⟨none, text⟩ with
      ⟨hno, happend⟩ | ⟨-, t', happend, -⟩
    · rw [happend]
      exact .inr ⟨rfl, hno⟩
    · rw [happend]
      exact .inl rfl
  · intro later
    have hmade : ((empty.exec calls).call .createProducer).producers.get?
        (empty.exec calls).producers.size = some false := Registry.get?_add_self false
    rw [isClosed, producer_exec hmade later]
    exact Bool.false_or _
  · rw [← haccounted, List.length_map]
    rfl

end SchemaHistory.MemoryLog
