import SchemaHistory.Proofs.Memory.Calls

/-!
# Appends that a log in memory refuses

An append is refused because its producer is closed, or because its topic has no such partition.
In the second case the topic is looked up first, and looking it up makes it: a topic that was not
there stays behind with one partition. Whoever then creates it with more partitions does not get
them, and a consumer that starts behind the entries notes an end where there was nothing. To all
others the topic is as if it were not there.
-/

namespace SchemaHistory

/-! ## What a log is used for -/

/-- A use of a log in memory: a call, or a question that changes nothing. -/
inductive MemoryUse
  | call (c : MemoryCall)
  | payloads (topic : String) (partition : Int)
  /-- Whether an append was answered yet, and how. -/
  | answer (t : Ticket)
  | producersCreated
  | openConsumers

/-- What a use gives. -/
inductive MemoryReply
  | done
  | count (n : Nat)
  | appended (result : Except BrokerError Nat)
  /-- A client was made, or a ticket given. -/
  | numbered (result : Except BrokerError Nat)
  | told (result : Except BrokerError Unit)
  | polled (result : Except BrokerError (List Entry))
  | texts (payloads : List String)
  | answered (ack : Option Ack)
  deriving DecidableEq

/-- The topic and the partition that a call appends to. -/
def MemoryCall.target? : MemoryCall → Option (String × Int)
  | .appendRaw topic partition _ => some (topic, partition)
  | .send _ request => some (request.topic, request.partition)
  | _ => none

/-- What a call gives when it fails, if it is one that appends. -/
def MemoryReply.refusal? : MemoryReply → Option BrokerError
  | .appended (.error e) => some e
  | .numbered (.error e) => some e
  | _ => none

/-- A use that does not ask for more than one partition of the topic, and does not make a consumer
that starts behind the entries. -/
def MemoryUse.Unaware (topic : String) : MemoryUse → Prop
  | .call (.createTopic name partitions) => name = topic → partitions ≤ 1
  | .call (.createConsumer settings) =>
    ∀ o, ConsumerOptions.ofSettings settings = .ok o → o.start = .earliest
  | _ => True

namespace MemoryLog

/-- What a call gives. -/
def result (s : MemoryLog) : MemoryCall → MemoryReply
  | .createTopic _ _ => .done
  | .setMode _ => .done
  | .release => .count s.release.1
  | .appendRaw topic partition text => .appended (s.appendRaw topic partition text).1
  | .createProducer => .numbered s.createProducer.1
  | .send p request => .numbered (s.send p request).1
  | .flush p => .told (s.flush p).1
  | .closeProducer p => .told (s.closeProducer p).1
  | .createConsumer settings => .numbered (s.createConsumer settings).1
  | .subscribe k topics => .told (s.subscribe k topics).1
  | .poll k => .polled (s.poll k).1
  | .closeConsumer k => .told (s.closeConsumer k).1

/-- What a use gives. -/
def reply (s : MemoryLog) : MemoryUse → MemoryReply
  | .call c => s.result c
  | .payloads topic partition => .texts (s.payloads topic partition)
  | .answer t => .answered (s.deliveries.answer? t)
  | .producersCreated => .count s.producersCreated
  | .openConsumers => .count s.openConsumers

/-- The log after a use. -/
def after (s : MemoryLog) : MemoryUse → MemoryLog
  | .call c => s.call c
  | _ => s

/-- What some uses give, one after another. -/
def replies : MemoryLog → List MemoryUse → List MemoryReply
  | _, [] => []
  | s, u :: uses => s.reply u :: replies (s.after u) uses

/-- Every consumer that was not closed starts at the first entries. -/
def Early (s : MemoryLog) : Prop :=
  ∀ k c, s.consumers.get? k = some c → c.closed = true ∨ c.options.start = .earliest

end MemoryLog

/-! ## A topic that is as good as none -/

namespace Topics

variable {t t' : Topics} {topic : String}

/-- The second topics are the first ones, but the topic may be there with one partition that holds
nothing where the first have none. -/
def SameBut (topic : String) (t t' : Topics) : Prop :=
  ∀ name, Assoc.get? t' name = Assoc.get? t name ∨
    (name = topic ∧ Assoc.get? t name = none ∧ Assoc.get? t' name = some [[]])

theorem sameBut_create (t : Topics) (topic : String) : t.SameBut topic (t.create topic 1) := by
  intro name
  by_cases hname : topic = name
  · subst hname
    cases htopic : Assoc.get? t topic with
    | none => exact .inr ⟨rfl, rfl, get?_create_self htopic 1⟩
    | some ps => exact .inl (by rw [create_of_some htopic, htopic])
  · exact .inl (get?_create_other t 1 hname)

theorem get?_create_ne_none (t : Topics) (name : String) (n : Nat) :
    Assoc.get? (t.create name n) name ≠ none := by
  intro hnone
  cases hname : Assoc.get? t name with
  | none =>
      rw [get?_create_self hname] at hnone
      cases hnone
  | some ps =>
      rw [create_of_some hname, hname] at hnone
      cases hnone

theorem SameBut.create (h : t.SameBut topic t') {name : String} {n : Nat}
    (hn : name = topic → n ≤ 1) : (t.create name n).SameBut topic (t'.create name n) := by
  intro other
  by_cases hother : name = other
  · subst hother
    left
    rcases h name with hsame | ⟨hname, hnone, hsome⟩
    · cases hname : Assoc.get? t name with
      | none => rw [get?_create_self hname, get?_create_self (hsame.trans hname)]
      | some ps => rw [create_of_some hname, create_of_some (hsame.trans hname), hsame]
    · rw [create_of_some hsome, hsome, get?_create_self hnone, Nat.max_eq_right (hn hname)]
      rfl
  · rw [get?_create_other t n hother, get?_create_other t' n hother]
    exact h other

/-- An append makes its topic in any case, so it finds the same partitions. -/
theorem SameBut.append (h : t.SameBut topic t') (name : String) (p : Int) (e : Stored) :
    (t'.append name p e).1 = (t.append name p e).1 ∧
      (t.append name p e).2.SameBut topic (t'.append name p e).2 := by
  have hmade : (t.create name 1).SameBut topic (t'.create name 1) := h.create fun _ => Nat.le_refl 1
  have hname : Assoc.get? (t'.create name 1) name = Assoc.get? (t.create name 1) name := by
    rcases hmade name with hsame | ⟨-, hnone, -⟩
    · exact hsame
    · exact absurd hnone (get?_create_ne_none t name 1)
  have hentries : (t'.create name 1).entries? name p = (t.create name 1).entries? name p := by
    rw [entries?, entries?, hname]
  unfold Topics.append
  dsimp only
  rw [hentries]
  cases (t.create name 1).entries? name p with
  | none => exact ⟨rfl, hmade⟩
  | some es =>
      refine ⟨rfl, fun other => ?_⟩
      dsimp only
      rw [Assoc.get?_put, Assoc.get?_put, hname]
      split
      · exact .inl rfl
      · exact hmade other

theorem SameBut.held (h : t.SameBut topic t') (key : String × Int) : t'.held key = t.held key := by
  rw [Topics.held, Topics.held, entries?, entries?]
  rcases h key.1 with hsame | ⟨-, hnone, hsome⟩
  · rw [hsame]
  · rw [hnone, hsome, Option.bind_some, Option.bind_none]
    split
    · cases key.2.toNat <;> rfl
    · rfl

end Topics

namespace MemoryConsumer

variable {o : ConsumerOptions} {topic : String} {b b' : Batch} {c c' : MemoryConsumer}

/-- The places are the same for a consumer that starts at the first entries. -/
def SamePlaces (m m' : Positions) : Prop :=
  ∀ key, (Assoc.get? m' key).getD 0 = (Assoc.get? m key).getD 0

/-- Two polls that gathered the same so far. -/
structure Batch.Alike (b b' : Batch) : Prop where
  entries : b'.entries = b.entries
  places : SamePlaces b.positions b'.positions

theorem SamePlaces.put {m m' : Positions} (h : SamePlaces m m') (key : String × Nat) (n : Nat) :
    SamePlaces (Assoc.put key n m) (Assoc.put key n m') := by
  intro k
  rw [Assoc.get?_put, Assoc.get?_put]
  split
  · rfl
  · exact h k

theorem Batch.Alike.fetchPartition (ho : o.start = .earliest) (h : b.Alike b') (i : Nat)
    (es : List Stored) :
    (MemoryConsumer.fetchPartition o topic i es b).Alike
      (MemoryConsumer.fetchPartition o topic i es b') := by
  unfold MemoryConsumer.fetchPartition
  rw [ho]
  dsimp only
  rw [h.entries, h.places (topic, i)]
  exact ⟨rfl, h.places.put _ _⟩

theorem Batch.Alike.fetchPartitions (ho : o.start = .earliest) (h : b.Alike b') (i : Nat)
    (ps : List (List Stored)) :
    (MemoryConsumer.fetchPartitions o topic i ps b).Alike
      (MemoryConsumer.fetchPartitions o topic i ps b') := by
  induction ps generalizing i b b' with
  | nil => exact h
  | cons es ps ih => exact ih (h.fetchPartition ho i es) (i + 1)

/-- A partition that holds nothing gives nothing and moves nobody. -/
theorem Batch.Alike.fetchNothing (ho : o.start = .earliest) (h : b.Alike b') (i : Nat) :
    b.Alike (MemoryConsumer.fetchPartition o topic i [] b') := by
  unfold MemoryConsumer.fetchPartition
  rw [ho]
  dsimp only
  rw [List.drop_nil, List.take_nil]
  refine ⟨(List.append_nil _).trans h.entries, fun key => ?_⟩
  dsimp only
  rw [Assoc.get?_put]
  split
  · rename_i hkey
    rw [Option.getD_some, ← hkey]
    exact h.places (topic, i)
  · exact h.places key

theorem Batch.Alike.fetchTopic (ho : o.start = .earliest) (h : b.Alike b') {t t' : Topics}
    (ht : t.SameBut topic t') (name : String) :
    (MemoryConsumer.fetchTopic o t b name).Alike (MemoryConsumer.fetchTopic o t' b' name) := by
  unfold MemoryConsumer.fetchTopic
  rcases ht name with hsame | ⟨-, hnone, hsome⟩
  · rw [hsame]
    cases Assoc.get? t name with
    | none => exact h
    | some ps => exact h.fetchPartitions ho 0 ps
  · rw [hnone, hsome]
    exact h.fetchNothing ho 0

/-- Two consumers that read alike: they are closed, or start at the first entries and stand at the
same places. -/
structure Alike (c c' : MemoryConsumer) : Prop where
  options : c'.options = c.options
  topics : c'.topics = c.topics
  closed : c'.closed = c.closed
  places : c.closed = true ∨
    (c.options.start = .earliest ∧ SamePlaces c.positions c'.positions)

theorem alike_refl (h : c.closed = true ∨ c.options.start = .earliest) : c.Alike c :=
  ⟨rfl, rfl, rfl, h.imp_right fun hearly => ⟨hearly, fun _ => rfl⟩⟩

theorem Alike.fetch (ho : c.options.start = .earliest) (hplaces : SamePlaces c.positions c'.positions)
    (h : c.Alike c') {t t' : Topics} (ht : t.SameBut topic t') :
    (c.fetch t).Alike (c'.fetch t') := by
  have hfold (names : List String) {b b' : Batch} (hb : b.Alike b') :
      (names.foldl (MemoryConsumer.fetchTopic c.options t) b).Alike
        (names.foldl (MemoryConsumer.fetchTopic c.options t') b') := by
    induction names generalizing b b' with
    | nil => exact hb
    | cons name names ih => exact ih (hb.fetchTopic ho ht name)
  rw [MemoryConsumer.fetch, MemoryConsumer.fetch, h.options, h.topics]
  exact hfold c.topics ⟨rfl, hplaces⟩

theorem Alike.subscribe (ho : c.options.start = .earliest) (h : c.Alike c') (t t' : Topics)
    (topics : List String) : (c.subscribe t topics).Alike (c'.subscribe t' topics) := by
  unfold MemoryConsumer.subscribe
  rw [h.options, ho]
  exact ⟨rfl, rfl, h.closed, .inr ⟨ho, fun _ => rfl⟩⟩

end MemoryConsumer

namespace MemoryLog

variable {s s' : MemoryLog} {topic : String}

/-! ## A log that has such a topic -/

/-- The second log is the first one, but it may have the topic as a refused append leaves it, and
its consumers may have seen that. -/
inductive Left (topic : String) (s : MemoryLog) : MemoryLog → Prop
  | mk {T : Topics} {K : Registry MemoryConsumer} (topics : s.topics.SameBut topic T)
      (size : K.size = s.consumers.size)
      (consumers : ∀ k, Option.Rel MemoryConsumer.Alike (s.consumers.get? k) (K.get? k)) :
      Left topic s { s with topics := T, consumers := K }

theorem left_create (h : s.Early) (topic : String) : Left topic s (s.createTopic topic 1) := by
  refine .mk (Topics.sameBut_create s.topics topic) rfl fun k => ?_
  cases hk : s.consumers.get? k with
  | none => exact .none
  | some c => exact .some (MemoryConsumer.alike_refl (h k c hk))

/-- The consumers under a number are alike, or there is none. -/
theorem rel_cases {a b : Option MemoryConsumer} (h : Option.Rel MemoryConsumer.Alike a b) :
    (a = none ∧ b = none) ∨ ∃ c c', a = some c ∧ b = some c' ∧ c.Alike c' := by
  cases h with
  | none => exact .inl ⟨rfl, rfl⟩
  | some halike => exact .inr ⟨_, _, rfl, rfl, halike⟩

/-- Two consumers are changed alike. -/
theorem rel_set {J K : Registry MemoryConsumer}
    (h : ∀ k, Option.Rel MemoryConsumer.Alike (J.get? k) (K.get? k)) (k : ConsumerId)
    {c c' : MemoryConsumer} (hc : c.Alike c') (j : ConsumerId) :
    Option.Rel MemoryConsumer.Alike ((J.set k c).get? j) ((K.set k c').get? j) := by
  rw [Registry.set, Registry.set, Registry.get?_modify, Registry.get?_modify]
  split
  · rcases rel_cases (h j) with ⟨hJ, hK⟩ | ⟨_, _, hJ, hK, -⟩
    · rw [hJ, hK]
      exact .none
    · rw [hJ, hK]
      exact .some hc
  · exact h j

/-- The logs stay close when a consumer of the one and its like of the other are changed alike. -/
theorem left_set {T : Topics} {K : Registry MemoryConsumer} (htopics : s.topics.SameBut topic T)
    (hsize : K.size = s.consumers.size)
    (hconsumers : ∀ k, Option.Rel MemoryConsumer.Alike (s.consumers.get? k) (K.get? k))
    (k : ConsumerId) (n : Nat) {c c' : MemoryConsumer} (hc : c.Alike c') :
    Left topic { s with consumers := s.consumers.set k c, openConsumers := n }
      { s with topics := T, consumers := K.set k c', openConsumers := n } := by
  refine .mk htopics ?_ (rel_set hconsumers k hc)
  exact (Registry.size_modify _ _ _).trans (hsize.trans (Registry.size_modify _ _ _).symm)

theorem Left.createConsumer (h : Left topic s s') {settings : ClientSettings}
    (hearly : ∀ o, ConsumerOptions.ofSettings settings = .ok o → o.start = .earliest) :
    (s'.createConsumer settings).1 = (s.createConsumer settings).1 ∧
      Left topic (s.createConsumer settings).2 (s'.createConsumer settings).2 := by
  cases h with
  | mk htopics hsize hconsumers =>
    unfold MemoryLog.createConsumer
    cases ho : ConsumerOptions.ofSettings settings with
    | error e => exact ⟨rfl, .mk htopics hsize hconsumers⟩
    | ok o =>
        refine ⟨congrArg Except.ok hsize, .mk htopics ?_ fun k => ?_⟩
        · rw [Registry.size_add, Registry.size_add, hsize]
        · rw [Registry.get?_add, Registry.get?_add, hsize]
          split
          · exact .some (MemoryConsumer.alike_refl (.inr (hearly o ho)))
          · exact hconsumers k

theorem Left.subscribe (h : Left topic s s') (k : ConsumerId) (topics : List String) :
    (s'.subscribe k topics).1 = (s.subscribe k topics).1 ∧
      Left topic (s.subscribe k topics).2 (s'.subscribe k topics).2 := by
  cases h with
  | @mk T K htopics hsize hconsumers =>
    have hsame : Left topic s { s with topics := T, consumers := K } :=
      .mk htopics hsize hconsumers
    unfold MemoryLog.subscribe
    dsimp only
    rcases rel_cases (hconsumers k) with ⟨hJ, hK⟩ | ⟨c, c', hJ, hK, halike⟩
    · rw [hJ, hK]
      exact ⟨rfl, hsame⟩
    rw [hJ, hK]
    dsimp only
    rw [halike.closed]
    split
    · exact ⟨rfl, hsame⟩
    · rename_i hclosed
      have ho := (halike.places.resolve_left hclosed).1
      exact ⟨rfl, left_set htopics hsize hconsumers k _ (halike.subscribe ho s.topics T topics)⟩

theorem Left.poll (h : Left topic s s') (k : ConsumerId) :
    (s'.poll k).1 = (s.poll k).1 ∧ Left topic (s.poll k).2 (s'.poll k).2 := by
  cases h with
  | @mk T K htopics hsize hconsumers =>
    have hsame : Left topic s { s with topics := T, consumers := K } :=
      .mk htopics hsize hconsumers
    unfold MemoryLog.poll
    dsimp only
    rcases rel_cases (hconsumers k) with ⟨hJ, hK⟩ | ⟨c, c', hJ, hK, halike⟩
    · rw [hJ, hK]
      exact ⟨rfl, hsame⟩
    rw [hJ, hK]
    dsimp only
    rw [halike.closed, halike.topics]
    split
    · exact ⟨rfl, hsame⟩
    split
    · exact ⟨rfl, hsame⟩
    · rename_i hclosed _
      obtain ⟨ho, hplaces⟩ := halike.places.resolve_left hclosed
      have hfetch := halike.fetch ho hplaces htopics
      refine ⟨congrArg Except.ok hfetch.entries, left_set htopics hsize hconsumers k _ ?_⟩
      exact ⟨halike.options, rfl, rfl, .inr ⟨ho, hfetch.places⟩⟩

theorem Left.closeConsumer (h : Left topic s s') (k : ConsumerId) :
    (s'.closeConsumer k).1 = (s.closeConsumer k).1 ∧
      Left topic (s.closeConsumer k).2 (s'.closeConsumer k).2 := by
  cases h with
  | @mk T K htopics hsize hconsumers =>
    have hsame : Left topic s { s with topics := T, consumers := K } :=
      .mk htopics hsize hconsumers
    unfold MemoryLog.closeConsumer
    dsimp only
    rcases rel_cases (hconsumers k) with ⟨hJ, hK⟩ | ⟨c, c', hJ, hK, halike⟩
    · rw [hJ, hK]
      exact ⟨rfl, hsame⟩
    rw [hJ, hK]
    dsimp only
    rw [halike.closed]
    split
    · exact ⟨rfl, hsame⟩
    · refine ⟨rfl, left_set htopics hsize hconsumers k _ ?_⟩
      exact ⟨halike.options, halike.topics, rfl, .inl rfl⟩

theorem Left.appendRaw (h : Left topic s s') (name : String) (p : Int) (text : String) :
    (s'.appendRaw name p text).1 = (s.appendRaw name p text).1 ∧
      Left topic (s.appendRaw name p text).2 (s'.appendRaw name p text).2 := by
  cases h with
  | mk htopics hsize hconsumers =>
    obtain ⟨hresult, hafter⟩ := htopics.append name p ⟨none, text⟩
    exact ⟨hresult, .mk hafter hsize hconsumers⟩

theorem Left.send (h : Left topic s s') (p : ProducerId) (request : AppendRequest) :
    (s'.send p request).1 = (s.send p request).1 ∧
      Left topic (s.send p request).2 (s'.send p request).2 := by
  obtain ⟨t, mode, withheld, deliveries, producers, J, openConsumers⟩ := s
  cases h with
  | @mk T K htopics hsize hconsumers =>
    obtain ⟨hresult, hafter⟩ := htopics.append request.topic request.partition
      ⟨request.key, request.payload⟩
    have hproducer : isClosed p ⟨T, mode, withheld, deliveries, producers, K, openConsumers⟩ =
        isClosed p ⟨t, mode, withheld, deliveries, producers, J, openConsumers⟩ := rfl
    rw [MemoryLog.send, MemoryLog.send, hproducer]
    dsimp only at hresult hafter ⊢
    split
    · exact ⟨rfl, .mk htopics hsize hconsumers⟩
    revert hresult hafter
    cases t.append request.topic request.partition ⟨request.key, request.payload⟩ with
    | mk _ topics =>
    cases T.append request.topic request.partition ⟨request.key, request.payload⟩ with
    | mk outcome topics' =>
    rintro rfl hafter
    cases mode with
    | fail reason => exact ⟨rfl, .mk htopics hsize hconsumers⟩
    | _ => cases outcome <;> exact ⟨rfl, .mk hafter hsize hconsumers⟩

theorem Left.flush (h : Left topic s s') {p : ProducerId} : (s'.flush p).1 = (s.flush p).1 := by
  cases h with
  | @mk T K =>
    have hproducer : isClosed p { s with topics := T, consumers := K } = s.isClosed p := rfl
    rw [MemoryLog.flush, MemoryLog.flush, hproducer]
    split <;> rfl

theorem Left.payloads (h : Left topic s s') (name : String) (p : Int) :
    s'.payloads name p = s.payloads name p := by
  cases h with
  | mk htopics _ _ => exact congrArg (List.map Stored.payload) (htopics.held (name, p))

/-- A use that does not look for the topic gives the same, and leaves the logs as close as they were. -/
theorem Left.step (h : Left topic s s') {u : MemoryUse} (hu : u.Unaware topic) :
    s'.reply u = s.reply u ∧ Left topic (s.after u) (s'.after u) := by
  cases u with
  | payloads name p => exact ⟨congrArg _ (h.payloads name p), h⟩
  | answer t => cases h with | mk => exact ⟨rfl, .mk ‹_› ‹_› ‹_›⟩
  | producersCreated => cases h with | mk => exact ⟨rfl, .mk ‹_› ‹_› ‹_›⟩
  | openConsumers => cases h with | mk => exact ⟨rfl, .mk ‹_› ‹_› ‹_›⟩
  | call c =>
    cases c with
    | appendRaw name p text => exact (h.appendRaw name p text).imp_left (congrArg _)
    | send p request => exact (h.send p request).imp_left (congrArg _)
    | createConsumer settings => exact (h.createConsumer hu).imp_left (congrArg _)
    | subscribe k topics => exact (h.subscribe k topics).imp_left (congrArg _)
    | poll k => exact (h.poll k).imp_left (congrArg _)
    | closeConsumer k => exact (h.closeConsumer k).imp_left (congrArg _)
    | flush p => exact ⟨congrArg _ h.flush, by rw [after, after, call_flush, call_flush]; exact h⟩
    | createTopic name n =>
        cases h with
        | mk htopics hsize hconsumers => exact ⟨rfl, .mk (htopics.create hu) hsize hconsumers⟩
    | _ =>
        cases h with
        | mk htopics hsize hconsumers => exact ⟨rfl, .mk htopics hsize hconsumers⟩

theorem Left.replies (h : Left topic s s') {uses : List MemoryUse}
    (huses : ∀ u ∈ uses, u.Unaware topic) : s'.replies uses = s.replies uses := by
  induction uses generalizing s s' with
  | nil => rfl
  | cons u uses ih =>
      obtain ⟨hreply, hleft⟩ := h.step (huses u (by simp))
      rw [MemoryLog.replies, MemoryLog.replies, hreply, ih hleft fun v hv => huses v (by simp [hv])]

/-! ## Refused appends -/

/-- **What a refused append leaves.** Nothing, if its producer is closed; and else its topic, if that
was not there. -/
theorem call_refused {c : MemoryCall} {p : Int} {e : BrokerError} (hc : c.target? = some (topic, p))
    (he : (s.result c).refusal? = some e) :
    (e = .closed ∧ s.call c = s) ∨
      (e = .unknownPartition topic p ∧ ¬ s.topics.Takes topic p ∧
        s.call c = s.createTopic topic 1) := by
  cases c with
  | appendRaw name q text =>
      cases hc
      rw [result, appendRaw] at he
      rw [call, appendRaw]
      rcases Topics.append_cases s.topics topic p ⟨none, text⟩ with
        ⟨htakes, happend⟩ | ⟨-, t', happend, -⟩
      · rw [happend] at he ⊢
        cases he
        exact .inr ⟨rfl, htakes, rfl⟩
      · rw [happend] at he
        cases he
  | send producer request =>
      cases hc
      rw [result] at he
      rw [call]
      rcases send_eq s producer request with
        ⟨-, hsend⟩ | ⟨-, reason, -, hsend⟩ | ⟨-, -, hsend⟩
      · rw [hsend] at he ⊢
        cases he
        exact .inl ⟨rfl, rfl⟩
      · rw [hsend] at he
        cases he
      · rcases Topics.append_cases s.topics request.topic request.partition
          ⟨request.key, request.payload⟩ with ⟨htakes, happend⟩ | ⟨-, t', happend, -⟩
        · rw [hsend, happend] at he
          rw [hsend, happend]
          cases he
          exact .inr ⟨rfl, htakes, rfl⟩
        · rw [hsend, happend] at he
          dsimp only at he
          split at he <;> cases he
  | _ => cases hc

theorem createTopic_of_some {ps : List (List Stored)} (h : Assoc.get? s.topics topic = some ps)
    (n : Nat) : s.createTopic topic n = s := by
  rw [createTopic, Topics.create_of_some h]

/-- The topic is created with two partitions, and the second one is written. -/
def secondPartition (topic : String) : List MemoryUse :=
  [.call (.createTopic topic 2), .call (.appendRaw topic 1 "")]

theorem replies_secondPartition {ps : List (List Stored)}
    (h : Assoc.get? (s.createTopic topic 2).topics topic = some ps) :
    s.replies (secondPartition topic) = [.done, .appended
      (match ps[1]? with
        | none => .error (.unknownPartition topic 1)
        | some es => .ok es.length)] := by
  have happend : ((s.createTopic topic 2).appendRaw topic 1 "").1 =
      match ps[1]? with
      | none => .error (.unknownPartition topic 1)
      | some es => .ok es.length := by
    rw [appendRaw, Topics.append]
    dsimp only
    rw [Topics.create_of_some h, Topics.entries?, h, Option.bind_some, if_pos (by decide)]
    show (match ps[1]? with
      | none => (Except.error (BrokerError.unknownPartition topic 1), _)
      | some es => (Except.ok es.length, _)).1 = _
    cases ps[1]? <;> rfl
  rw [← happend]
  rfl

/-- Where the topic was not there it makes a difference. -/
theorem replies_createTopic_ne (h : Assoc.get? s.topics topic = none) :
    (s.createTopic topic 1).replies (secondPartition topic) ≠ s.replies (secondPartition topic) := by
  have hfresh : Assoc.get? (s.createTopic topic 2).topics topic = some [[], []] :=
    Topics.get?_create_self h 2
  have hmade : Assoc.get? (s.createTopic topic 1).topics topic = some [[]] :=
    Topics.get?_create_self h 1
  rw [replies_secondPartition hfresh,
    replies_secondPartition (by rw [createTopic_of_some hmade, hmade])]
  intro hsame
  cases hsame

/--
**A refused append may leave its topic behind.** Whatever the log is, a call that appends and is
refused either leaves the log as it was, because its producer is closed, or it is about a partition
that is not there, and leaves the log as if the topic had been created. So everything that is done
with the log later gives what it would have given without the call exactly if the producer was
closed or the topic was there. And where the topic was not there, only those can tell who create it
with more than one partition, or have a consumer that starts behind the entries.
-/
theorem refused_append_seen {c : MemoryCall} {p : Int} {e : BrokerError}
    (hc : c.target? = some (topic, p)) (he : (s.result c).refusal? = some e) :
    ((e = .closed ∧ s.call c = s) ∨
      (e = .unknownPartition topic p ∧ s.call c = s.createTopic topic 1)) ∧
    ((∀ uses, (s.call c).replies uses = s.replies uses) ↔
      e = .closed ∨ (Assoc.get? s.topics topic).isSome = true) ∧
    (s.Early → ∀ uses, (∀ u ∈ uses, u.Unaware topic) →
      (s.call c).replies uses = s.replies uses) := by
  rcases call_refused hc he with ⟨rfl, hcall⟩ | ⟨rfl, -, hcall⟩
  · rw [hcall]
    exact ⟨.inl ⟨rfl, rfl⟩, ⟨fun _ => .inl rfl, fun _ _ => rfl⟩, fun _ _ _ => rfl⟩
  rw [hcall]
  refine ⟨.inr ⟨rfl, rfl⟩, ⟨fun hsame => ?_, fun hthere => ?_⟩, fun hearly uses huses => ?_⟩
  · right
    rw [Option.isSome_iff_ne_none]
    exact fun hnone => replies_createTopic_ne hnone (hsame _)
  · obtain ⟨ps, hps⟩ := Option.isSome_iff_exists.mp (hthere.resolve_left (by rintro ⟨⟩))
    rw [createTopic_of_some hps]
    exact fun _ => rfl
  · exact (left_create hearly topic).replies huses

theorem refused_append_seen_missing :
    (MemoryLog.empty.call (.appendRaw "t" 3 "x")).replies
        [.call (.createTopic "t" 4), .call (.appendRaw "t" 3 "y")] =
      [.done, .appended (.error (.unknownPartition "t" 3))] ∧
    MemoryLog.empty.replies [.call (.createTopic "t" 4), .call (.appendRaw "t" 3 "y")] =
      [.done, .appended (.ok 0)] ∧
    ¬ (∀ uses, (MemoryLog.empty.call (.appendRaw "t" 3 "x")).replies uses =
      MemoryLog.empty.replies uses) ∧
    ∀ uses, (∀ u ∈ uses, u.Unaware "t") →
      (MemoryLog.empty.call (.appendRaw "t" 3 "x")).replies uses = MemoryLog.empty.replies uses := by
  obtain ⟨-, hseen, hunaware⟩ := refused_append_seen (s := .empty) (c := .appendRaw "t" 3 "x")
    (e := .unknownPartition "t" 3) rfl (by decide)
  refine ⟨by decide, by decide, fun hsame => ?_, hunaware ?_⟩
  · exact absurd (hseen.mp hsame) (by decide)
  · intro k c hc
    cases hc

end MemoryLog

end SchemaHistory
