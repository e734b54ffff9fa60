import SchemaHistory.Proofs.Deliveries
import SchemaHistory.Proofs.File.Producers
import SchemaHistory.Proofs.Text.Utf8

/-!
# What each operation of a producer does to the accounts

Every operation of a producer is a turn of it. Refused appends leave all as it was, spilled
buffers move bytes from what is held to what was written, an accepted append puts its line
behind both, and a flush, a close and a drop write all that is held. What is on its way is
answered then, and nothing else is.
-/

namespace SchemaHistory.FileLog

open FileTree Text

namespace ProducerRun

/-! ## The steps -/

/-- A log with another producer in the place of one has that producer there. -/
theorem producer_set {p : ProducerId} {s s' : FileLog} {pr : Producer}
    (h : s'.producers = s.producers.set p pr)
    (habsent : s.producers.get? p = none → pr = ⟨[], [], true⟩) :
    s'.producer p = pr ∧ ∀ q, q ≠ p → s'.producer q = s.producer q := by
  refine ⟨?_, fun q hq => ?_⟩
  · rw [producer, h]
    cases hp : s.producers.get? p with
    | none =>
        rw [Registry.set, Registry.get?_modify, if_pos rfl, hp]
        exact (habsent hp).symm
    | some old =>
        rw [Registry.get?_set_self hp]
        rfl
  · rw [producer, h, Registry.get?_set_other (Ne.symm hq)]
    rfl

/-- Where the root is there, a producer is made and nothing else. -/
theorem createProducer_again {rp : Path} {s : FileLog}
    (h : s.files.find s.root = .ok (rp, .directory)) : s.createProducer =
      (.ok s.producers.size, { s with producers := s.producers.add .fresh }) := by
  rw [createProducer, makeDirectories_again (isDirectory_of_find h)]

section Steps

variable {root rp : Path} {before : PartitionKey → List Mark} {p : ProducerId} {r : ProducerRun}
  {s : ProducerStep} {t' : FileTree} {pr' : Producer} {d' : Deliveries}
  {more : PartitionKey → Bytes}

theorem closed_of_absent (h : r.log.producers.get? p = none) :
    r.log.producer p = ⟨[], [], true⟩ := by
  rw [producer, h]
  rfl

/-- A step of a producer that adds to partitions is a turn of it. -/
theorem Good.turn_of (h : r.Good root rp before) (hs : s.producer? = some p)
    (hact : s.act r.log = { r.log with
      files := t', producers := r.log.producers.set p pr', deliveries := d' })
    (habsent : r.log.producers.get? p = none → pr' = ⟨[], [], true⟩)
    (hadded : Added root rp r.log.files t' more)
    (hsent : ∃ news, r.noted s = r.sent ++ news ∧ ∀ e ∈ news, e.producer = p)
    (hanswers : ∀ e ∈ r.sent, e.producer ≠ p → d'.answer? e.ticket = r.answer? e) :
    Turn root rp p r (r.step s) more := by
  have hlog : (r.step s).log = { r.log with
      files := t', producers := r.log.producers.set p pr', deliveries := d' } := hact
  refine ⟨by rw [hlog], by rw [hlog]; exact hadded, fun key => ?_, hsent, fun q hq => ?_,
    fun e he hq => ?_⟩
  · have hmore : (partitionBytes (s.act r.log).root (s.act r.log).files key).drop
        (r.marks key).length = more key := by
      rw [hact]
      dsimp only
      rw [h.atRoot, hadded.bytes, ← h.bytes, ← length_bytesOf]
      exact List.drop_left
    show r.marks key ++ markAll s.producer? _ = _
    rw [hs, hmore]
  · exact (producer_set (s := r.log) (by rw [hlog]) habsent).2 q hq
  · rw [answer?, hlog]
    exact hanswers e he hq

theorem Good.placed (h : r.Good root rp before) (p : ProducerId) :
    (r.log.producer p).writers.Placed r.log.files rp := by
  refine ⟨(h.account p).keys, fun key w hw => ?_⟩
  exact ((h.account p).running key w (Assoc.get?_of_mem (h.account p).keys hw)).spot

/-- Appends with one ticket are one append. -/
theorem Noted.eq_of_ticket (h : r.Noted before) {e e' : Sent} (he : e ∈ r.sent) (he' : e' ∈ r.sent)
    (hticket : e.ticket = e'.ticket) : e = e' :=
  List.inj_on_of_nodup_map h.distinct he he' hticket

/-- **Answers to all that is on the way** reach just that. -/
theorem Good.answer?_fillAll (h : r.Good root rp before) (p : ProducerId) (f : Placement → Ack)
    {e : Sent} (he : e ∈ r.sent) : (r.log.deliveries.fillAll
        ((r.log.producer p).pending.map fun x => (x.1, f x.2))).answer? e.ticket =
      if r.answer? e = none ∧ e.producer = p then some (f e.place) else r.answer? e := by
  -- an answer with the ticket of the append is the one to it
  have hacks : ∀ a, (e.ticket, a) ∈ (r.log.producer p).pending.map (fun x => (x.1, f x.2)) →
      a = f e.place ∧ e.producer = p ∧ r.answer? e = none := by
    intro a ha
    obtain ⟨x, hx, hpair⟩ := List.mem_map.mp ha
    obtain ⟨e', he', hproducer, rfl, hnone⟩ := (h.account p).pending x hx
    obtain ⟨hticket, rfl⟩ := Prod.mk.inj hpair
    obtain rfl := h.noted.eq_of_ticket he' he hticket
    exact ⟨rfl, hproducer, hnone⟩
  split
  · rename_i hnone
    obtain ⟨hnone, rfl⟩ := hnone
    refine Deliveries.answer?_fillAll_same (h.noted.ticket e he) ?_ fun a ha => (hacks a ha).1
    cases h.status e he with
    | pending unanswered isOpen mem => exact List.mem_map.mpr ⟨_, mem, rfl⟩
    | acknowledged answered written =>
        rw [hnone] at answered
        cases answered
    | abandoned answered isClosed =>
        rw [hnone] at answered
        cases answered
  · rename_i hsome
    refine Deliveries.answer?_fillAll_other fun a ha => hsome ?_
    obtain ⟨-, hproducer, hnone⟩ := hacks a ha
    exact ⟨hnone, hproducer⟩

/-- Where a producer has sent nothing, none of its writers has moved anything. -/
theorem Good.quiet_unless_moved (h : r.Good root rp before) {r' : ProducerRun}
    (hsent : r'.sent = r.sent) {ws : Writers} (hmoved : (r.log.producer p).writers.Moved ws more)
    (key : PartitionKey) (hnone : r'.sentTo p key = []) : more key = [] := by
  rw [sentTo_same hsent] at hnone
  cases hw : Assoc.get? (r.log.producer p).writers key with
  | none => exact (hmoved.unopened key hw).2
  | some w => exact absurd hnone ((h.account p).running key w hw).sent

theorem account_closed {pr : Producer}
    (h : pr.closed = true ∧ pr.writers = [] ∧ pr.pending = []) : r.Account rp p pr := by
  obtain ⟨hclosed, hwriters, hpending⟩ := h
  refine ⟨by rw [hwriters]; exact List.nodup_nil, fun key w hw => ?_, fun hopen => ?_,
    fun x hx => ?_, fun _ => ⟨hwriters, hpending⟩⟩
  · rw [hwriters] at hw
    cases hw
  · rw [hclosed] at hopen
    cases hopen
  · rw [hpending] at hx
    cases hx

/-- Where a producer has sent all that it held, its lines are in the files. -/
theorem Good.written_emptied (h : r.Good root rp before) {r' : ProducerRun}
    (hturn : Turn root rp p r r' (r.log.producer p).writers.buffered) (hsent : r'.sent = r.sent)
    {e : Sent} (he : e ∈ r.sent) (hp : e.producer = p) (hopen : (r.log.producer p).closed = false) :
    r'.Written e := by
  subst hp
  have hmem := mem_sentTo_self he
  cases hw : Assoc.get? (r.log.producer e.producer).writers e.key with
  | none =>
      rw [(h.account _).unopened hopen _ hw] at hmem
      cases hmem
  | some w =>
      have hrunning : Running rp r' e.producer e.key { w with buffer := [] } := by
        refine hturn.running (w := w) (sentTo_same hsent _ _) rfl rfl ?_
          ((h.account _).running e.key w hw)
        rw [if_pos rfl, Writers.buffered, hw]
        exact List.append_nil _
      obtain ⟨since, hmarks, hown⟩ := hrunning.written e (by rw [sentTo_same hsent]; exact hmem)
      refine ⟨since, hmarks, ?_⟩
      rw [← List.append_nil (ownIn _ since), hown]
      -- the lines up to this one are the first of all lines
      refine (List.prefix_append_right_inj _).mpr ?_
      conv => rhs; rw [← List.take_append_drop (e.index + 1) (r'.sentTo e.producer e.key)]
      rw [List.map_append, ended_append]
      exact List.prefix_append _ _

/-- Where all that a producer held was sent and what was on its way is answered, its appends have their
answers. -/
theorem Good.status_settled (h : r.Good root rp before) {r' : ProducerRun} {f : Placement → Ack}
    (hturn : Turn root rp p r r' (r.log.producer p).writers.buffered) (hsent : r'.sent = r.sent)
    (hopen : (r.log.producer p).closed = false) {e : Sent} (he : e ∈ r.sent) (hp : e.producer = p)
    (hanswer : r'.answer? e =
      if r.answer? e = none ∧ e.producer = p then some (f e.place) else r.answer? e)
    (hf : (∀ x, f x = .ok x) ∨ (∀ x, f x = .error .closed) ∧ (r'.log.producer p).closed = true) :
    r'.Status e := by
  cases h.status e he with
  | pending unanswered isOpen mem =>
      rw [if_pos ⟨unanswered, hp⟩] at hanswer
      rcases hf with hok | ⟨herror, hclosed⟩
      · exact .acknowledged (hanswer.trans (by rw [hok])) (h.written_emptied hturn hsent he hp hopen)
      · exact .abandoned (hanswer.trans (by rw [herror])) (by rw [hp]; exact hclosed)
  | acknowledged answered written =>
      rw [if_neg (by rw [answered]; simp)] at hanswer
      exact .acknowledged (hanswer.trans answered) (hturn.written h.noted he written)
  | abandoned answered isClosed =>
      rw [hp, hopen] at isClosed
      cases isClosed

/-- **A turn that moves what is held back to the files**, or nothing: what a writer has sent and holds
stays the same together. -/
theorem Good.moves (h : r.Good root rp before) (hs : s.producer? = some p)
    (hact : s.act r.log = { r.log with files := t', producers := r.log.producers.set p pr' })
    (habsent : r.log.producers.get? p = none → pr' = ⟨[], [], true⟩)
    (hadded : Added root rp r.log.files t' more) (hnoted : r.noted s = r.sent)
    (hsame : pr'.closed = (r.log.producer p).closed ∧ pr'.pending = (r.log.producer p).pending)
    (hmoved : (r.log.producer p).writers.Moved pr'.writers more) :
    (r.step s).Good root rp before ∧ ∀ e ∈ r.sent, (r.step s).answer? e = r.answer? e := by
  have hact' : s.act r.log = { r.log with
      files := t', producers := r.log.producers.set p pr', deliveries := r.log.deliveries } := hact
  have hlog : (r.step s).log = _ := hact'
  have hturn := h.turn_of hs hact' habsent hadded
    ⟨[], by rw [hnoted, List.append_nil], fun _ he => (List.not_mem_nil he).elim⟩ fun _ _ _ => rfl
  have hanswers : ∀ e, (r.step s).answer? e = r.answer? e := by
    intro e
    rw [answer?, hlog]
    rfl
  have hproducer : (r.step s).log.producer p = pr' :=
    (producer_set (s := r.log) (by rw [hlog]) habsent).1
  have hsent : (r.step s).sent = r.sent := hnoted
  have hnoted' : (r.step s).Noted before := h.noted.turn hturn hsent (by rw [hlog])
    (by rw [hlog]; exact Nat.le_of_eq (Registry.size_modify _ _ _).symm)
  refine ⟨h.turn hturn hnoted' (h.quiet_unless_moved hsent hmoved) ?_ fun e he hq => ?_,
    fun e _ => hanswers e⟩
  · rw [hproducer]
    exact hturn.account_moved hsent (h.account p) hmoved hsame.1
      (by rw [hsame.2]; exact List.Subset.refl _) fun e _ _ => hanswers e
  · rw [hsent] at he
    refine hturn.status_kept h.noted he (hanswers e) ?_ ?_ (h.status e he)
    · rw [hq, hproducer, hsame.1]
    · rw [hq, hproducer, hsame.2]
      exact List.Subset.refl _

/-- A turn in which nothing but files and directories are made. -/
theorem Good.idle (h : r.Good root rp before) (hs : s.producer? = some p)
    (hact : s.act r.log = { r.log with
      files := t', producers := r.log.producers.set p (r.log.producer p) })
    (hkept : Kept root rp r.log.files t') (hnoted : r.noted s = r.sent) :
    (r.step s).Good root rp before ∧ ∀ e ∈ r.sent, (r.step s).answer? e = r.answer? e :=
  h.moves hs hact closed_of_absent hkept.added hnoted ⟨rfl, rfl⟩
    (Writers.moved_refl (h.account p).keys)

/-- **What is held back goes to the file by itself.** -/
theorem Good.spills (h : r.Good root rp before) (p : ProducerId) (key : PartitionKey) (n : Nat) :
    (r.step (.spill p key n)).Good root rp before ∧
      ∀ e ∈ r.sent, (r.step (.spill p key n)).answer? e = r.answer? e := by
  cases hw : Assoc.get? (r.log.producer p).writers key with
  | none =>
      refine h.idle (p := p) rfl ?_ (.refl h.found h.sound) rfl
      rw [ProducerStep.act, FileLog.spill, Producer.spill, hw]
  | some w =>
      obtain ⟨k, hhandle, hspot⟩ := ((h.account p).running key w hw).spot
      have hact : (ProducerStep.spill p key n).act r.log = { r.log with
          files := r.log.files.append (.file k) (w.buffer.take n)
          producers := r.log.producers.set p { r.log.producer p with
            writers := Assoc.put key { w with buffer := w.buffer.drop n }
              (r.log.producer p).writers } } := by
        rw [ProducerStep.act, FileLog.spill, Producer.spill, hw]
        dsimp only
        rw [hhandle]
      refine h.moves rfl hact (fun habsent => ?_)
        (added_append h.found h.sound hspot (w.buffer.take n)) rfl ⟨rfl, rfl⟩
        (Writers.moved_put (h.account p).keys hw n)
      rw [closed_of_absent habsent] at hw
      cases hw

/-- **Sending all that is held back to the files** puts every line of the producer there, so that the
places that are answered are the places of lines that are there. -/
theorem Good.settles (h : r.Good root rp before) (hs : s.producer? = some p)
    (hopen : (r.log.producer p).closed = false) (f : Placement → Ack)
    (hact : s.act r.log =
      r.log.settled p ((r.log.producer p).pending.map fun x => (x.1, f x.2)) pr' t')
    (hadded : Added root rp r.log.files t' (r.log.producer p).writers.buffered)
    (hnoted : r.noted s = r.sent) (hpending : pr'.pending = [])
    (hwriters : pr'.closed = false ∧ pr'.writers = (r.log.producer p).writers.emptied ∨
      pr'.closed = true ∧ pr'.writers = [])
    (hf : (∀ x, f x = .ok x) ∨ (∀ x, f x = .error .closed) ∧ pr'.closed = true) :
    (r.step s).Good root rp before ∧ ∀ e ∈ r.sent, (r.step s).answer? e =
      if r.answer? e = none ∧ e.producer = p then some (f e.place) else r.answer? e := by
  have hpr := h.account p
  have hlog : (r.step s).log = { r.log with
      files := t', producers := r.log.producers.set p pr'
      deliveries := r.log.deliveries.fillAll
        ((r.log.producer p).pending.map fun x => (x.1, f x.2)) } := hact
  have habsent : r.log.producers.get? p = none → pr' = ⟨[], [], true⟩ := by
    intro hnone
    rw [closed_of_absent hnone] at hopen
    cases hopen
  have hturn := h.turn_of hs hlog habsent hadded
    ⟨[], by rw [hnoted, List.append_nil], fun _ he => (List.not_mem_nil he).elim⟩ fun e he hq => by
      rw [h.answer?_fillAll p f he, if_neg fun hp => hq hp.2]
  have hanswers : ∀ e ∈ r.sent, (r.step s).answer? e =
      if r.answer? e = none ∧ e.producer = p then some (f e.place) else r.answer? e := by
    intro e he
    rw [answer?, hlog]
    exact h.answer?_fillAll p f he
  have hproducer : (r.step s).log.producer p = pr' :=
    (producer_set (s := r.log) (by rw [hlog]) habsent).1
  have hsent : (r.step s).sent = r.sent := hnoted
  have hnoted' : (r.step s).Noted before := h.noted.turn hturn hsent
    (by rw [hlog]; exact Deliveries.size_fillAll _ _)
    (by rw [hlog]; exact Nat.le_of_eq (Registry.size_modify _ _ _).symm)
  have hmoved := (h.placed p).moved_emptied
  refine ⟨h.turn hturn hnoted' (h.quiet_unless_moved hsent hmoved) ?_ fun e he hq => ?_, hanswers⟩
  · rw [hproducer]
    rcases hwriters with ⟨hopen', hwriters⟩ | ⟨hclosed, hwriters⟩
    · refine hturn.account_moved hsent hpr (hwriters ▸ hmoved) (hopen'.trans hopen.symm) ?_ ?_
      · rw [hpending]
        exact List.nil_subset _
      · rw [hpending]
        exact fun e _ hmem => (List.not_mem_nil hmem).elim
    · exact account_closed ⟨hclosed, hwriters, hpending⟩
  · rw [hsent] at he
    refine h.status_settled hturn hsent hopen he hq (hanswers e he) ?_
    rw [hproducer]
    exact hf

/-! ## A send -/

theorem sentTo_concat {r' : ProducerRun} {new : Sent} (hsent : r'.sent = r.sent ++ [new])
    (q : ProducerId) (key : PartitionKey) : r'.sentTo q key =
      if new.producer = q ∧ new.key = key then r.sentTo q key ++ [new] else r.sentTo q key := by
  rw [sentTo, hsent, List.filter_append, List.filter_singleton]
  by_cases hnew : new.producer = q ∧ new.key = key
  · rw [if_pos hnew, decide_eq_true hnew]
    rfl
  · rw [if_neg hnew, decide_eq_false hnew]
    exact List.append_nil _

/-- What a producer has written to a partition, with what is held for it, as its next append finds
it. -/
structure Ready (before : PartitionKey → List Mark) (r : ProducerRun) (p : ProducerId)
    (key : PartitionKey) (opened : List Mark) (held : Bytes) (offset : Nat) : Prop where
  same : ∀ e ∈ r.sentTo p key, e.opened = opened
  /-- What it found is still there, and is not its own. -/
  found : before key <+: opened ∧ ∀ m ∈ opened, m.writer ≠ some p
  written : ∃ since, r.marks key = opened ++ since ∧
    ownIn p since ++ held = repair (bytesOf opened) ++ ended ((r.sentTo p key).map Sent.line)
  offset : offset = nextLine (bytesOf opened) + (r.sentTo p key).length

theorem Good.ready (h : r.Good root rp before) (request : AppendRequest) (ticket : Ticket)
    (hopen : (r.log.producer p).closed = false) {held : Bytes} {offset : Nat}
    (hheld : (r.log.producer p).Finds r.log.files root (request.topic, request.partition) held
      offset) :
    r.Ready before p (request.topic, request.partition) (r.accepted p request ticket).opened held
      offset := by
  rw [accepted]
  dsimp only
  generalize (request.topic, request.partition) = key at hheld ⊢
  rcases hheld with ⟨w, hw, rfl, rfl⟩ | ⟨hnone, rfl, rfl⟩
  · -- the partition was opened before the first append
    have hrunning := (h.account p).running key w hw
    obtain ⟨first, rest, hlist⟩ := List.exists_cons_of_ne_nil hrunning.sent
    have hfirst : first ∈ r.sentTo p key := by
      rw [hlist]
      exact List.mem_cons_self
    obtain ⟨hmem, hproducer, hkey⟩ := mem_sentTo.mp hfirst
    obtain ⟨hbefore, -, hwriter⟩ := h.noted.opened first hmem
    rw [show (r.sentTo p key).head? = some first by rw [hlist]; rfl]
    refine ⟨fun e he => ?_, ⟨hkey ▸ hbefore, hproducer ▸ hwriter⟩, hrunning.written first hfirst,
      hrunning.next first hfirst⟩
    obtain ⟨he, hproducer', hkey'⟩ := mem_sentTo.mp he
    exact h.noted.once e he first hmem (hproducer'.trans hproducer.symm) (hkey'.trans hkey.symm)
  · -- it is opened now
    have hempty := (h.account p).unopened hopen key hnone
    rw [hempty]
    refine ⟨fun e he => (by rw [hempty] at he; cases he), ⟨h.grown key, h.unsent p key hempty⟩,
      ⟨[], (List.append_nil _).symm, ?_⟩, ?_⟩
    · rw [hempty, ← h.bytes]
      exact (List.append_nil _).symm
    · rw [hempty, ← h.bytes]
      rfl

/-- An append behind the others of its partition keeps them numbered. -/
theorem Noted.index_concat (h : r.Noted before) {r' : ProducerRun} {new : Sent}
    (hsent : r'.sent = r.sent ++ [new])
    (hindex : new.index = (r.sentTo new.producer new.key).length) {q : ProducerId}
    {key : PartitionKey} {i : Nat} {e : Sent} (hi : (r'.sentTo q key)[i]? = some e) :
    e.index = i := by
  rw [sentTo_concat hsent] at hi
  split at hi
  · rename_i hnew
    obtain ⟨rfl, rfl⟩ := hnew
    rcases Nat.lt_or_ge i (r.sentTo new.producer new.key).length with hlt | hge
    · rw [List.getElem?_append_left hlt] at hi
      exact h.index _ _ i e hi
    · rw [List.getElem?_append_right hge] at hi
      obtain ⟨hlast, rfl⟩ := List.getElem?_eq_some_iff.mp hi
      rw [List.length_singleton] at hlast
      rw [List.getElem_singleton, hindex]
      omega
  · exact h.index q key i e hi

/-- An append that is accepted is noted. -/
theorem Good.noted_sends (h : r.Good root rp before) {r' : ProducerRun} {new : Sent}
    {held : Bytes} {offset : Nat} (hready : r.Ready before new.producer new.key new.opened held offset)
    (hturn : Turn root rp new.producer r r' more) (hsent : r'.sent = r.sent ++ [new])
    (hticket : new.ticket = r.log.deliveries.size)
    (hindex : new.index = (r.sentTo new.producer new.key).length)
    (hline : lineFeed ∉ new.line) (hproducer : new.producer < r.log.producers.size)
    (hsize : r'.log.deliveries.size = r.log.deliveries.size + 1)
    (hproducers : r'.log.producers.size = r.log.producers.size) : r'.Noted before := by
  obtain ⟨since, hmarks, -⟩ := hready.written
  have hall : ∀ {P : Sent → Prop}, (∀ e ∈ r.sent, P e) → P new → ∀ e ∈ r'.sent, P e := by
    intro P hold hnew e he
    rw [hsent] at he
    rcases List.mem_append.mp he with he | he
    · exact hold e he
    · rw [List.mem_singleton.mp he]
      exact hnew
  have hsame : ∀ e ∈ r.sent, e.producer = new.producer → e.key = new.key → e.opened = new.opened :=
    fun e he hp hk => hready.same e (mem_sentTo.mpr ⟨he, hp, hk⟩)
  refine ⟨hall (fun e he => ?_) ?_, ?_, hall (fun e he => ?_) ?_, hall h.noted.oneLine hline,
    hall (fun e he => ?_) ⟨hready.found.1, ?_, hready.found.2⟩, ?_, fun q key i e hi => ?_⟩
  · rw [hsize]
    exact Nat.lt_succ_of_lt (h.noted.ticket e he)
  · rw [hsize, hticket]
    exact Nat.lt_succ_self _
  · rw [hsent, List.map_append, List.nodup_append]
    refine ⟨h.noted.distinct, by simp, fun t ht u hu => ?_⟩
    obtain ⟨e, he, rfl⟩ := List.mem_map.mp ht
    have hnew : u = new.ticket := by simpa using hu
    rw [hnew, hticket]
    exact Nat.ne_of_lt (h.noted.ticket e he)
  · rw [hproducers]
    exact h.noted.producer e he
  · rw [hproducers]
    exact hproducer
  · obtain ⟨hbefore, hopened, hwriter⟩ := h.noted.opened e he
    refine ⟨hbefore, ?_, hwriter⟩
    rw [hturn.marks]
    exact hopened.trans (List.prefix_append _ _)
  · rw [hturn.marks, hmarks, List.append_assoc]
    exact List.prefix_append _ _
  · refine hall (fun e he => hall (fun e' he' => h.noted.once e he e' he') (hsame e he)) ?_
    exact hall (fun e' he' hp hk => (hsame e' he' hp.symm hk.symm).symm) fun _ _ => rfl
  · exact h.noted.index_concat hsent hindex hi

/-- The writer that an append went through has the line behind what was held for the partition. -/
theorem Ready.running {r' : ProducerRun} {new : Sent} {k : Nat} {held ys : Bytes} {offset : Nat}
    {w' : PartitionWriter}
    (h : r.Ready before new.producer new.key new.opened held offset)
    (hmarks : r'.marks new.key = r.marks new.key ++ markAll (some new.producer) ys)
    (hthis : r'.sentTo new.producer new.key = r.sentTo new.producer new.key ++ [new])
    (hspot : OnSpot r'.log.files rp new.key k) (hhandle : w'.handle = .file k)
    (hnext : w'.nextOffset = offset + 1)
    (hbuffer : ys ++ w'.buffer = held ++ (new.line ++ [lineFeed])) :
    Running rp r' new.producer new.key w' := by
  have hopened : ∀ e ∈ r'.sentTo new.producer new.key, e.opened = new.opened := by
    intro e he
    rw [hthis] at he
    rcases List.mem_append.mp he with he | he
    · exact h.same e he
    · rw [List.mem_singleton.mp he]
  obtain ⟨since, hsince, hwritten⟩ := h.written
  refine ⟨⟨k, hhandle, hspot⟩, by rw [hthis]; simp, fun e he => ?_, fun e he => ?_⟩
  · refine ⟨since ++ markAll (some new.producer) ys, ?_, ?_⟩
    · rw [hmarks, hsince, hopened e he, List.append_assoc]
    · rw [ownIn_append, ownIn_markAll, List.append_assoc, hbuffer, ← List.append_assoc, hwritten,
        hopened e he, hthis, List.map_append, ended_append, List.append_assoc]
      congr 2
      exact (ended_singleton _).symm
  · rw [hnext, h.offset, hopened e he, hthis, List.length_append, List.length_singleton,
      Nat.add_assoc]

/-- The account of a producer with an append that it has just made. -/
theorem Good.account_sends (h : r.Good root rp before) {r' : ProducerRun} {new : Sent} {k : Nat}
    {held ys : Bytes} {offset : Nat} {w' : PartitionWriter}
    (hready : r.Ready before new.producer new.key new.opened held offset)
    (hturn : Turn root rp new.producer r r' fun other => if other = new.key then ys else [])
    (hsent : r'.sent = r.sent ++ [new]) (hanswers : ∀ e, r'.answer? e = r.answer? e)
    (hnew : r.answer? new = none) (hopen : (r.log.producer new.producer).closed = false)
    (hspot : OnSpot r'.log.files rp new.key k) (hhandle : w'.handle = .file k)
    (hnext : w'.nextOffset = offset + 1) (hbuffer : ys ++ w'.buffer = held ++ (new.line ++ [lineFeed]))
    (hproducer : r'.log.producer new.producer = { r.log.producer new.producer with
      writers := Assoc.put new.key w' (r.log.producer new.producer).writers
      pending := (r.log.producer new.producer).pending ++ [(new.ticket, new.place)] }) :
    r'.Account rp new.producer (r'.log.producer new.producer) := by
  have hpr := h.account new.producer
  have hsentTo := sentTo_concat hsent new.producer
  have hthis : r'.sentTo new.producer new.key = r.sentTo new.producer new.key ++ [new] := by
    rw [hsentTo, if_pos ⟨rfl, rfl⟩]
  have hother : ∀ key, key ≠ new.key → r'.sentTo new.producer key = r.sentTo new.producer key := by
    intro key hkey
    rw [hsentTo, if_neg fun hn => hkey hn.2.symm]
  rw [hproducer]
  refine ⟨Assoc.nodup_put hpr.keys _ _, fun key w hw => ?_, fun _ key hnone => ?_, fun x hx => ?_,
    fun hclosed => ?_⟩
  · dsimp only at hw
    rw [Assoc.get?_put] at hw
    by_cases hkey : new.key = key
    · -- the line is behind what was held for the partition
      subst hkey
      rw [if_pos rfl] at hw
      cases hw
      exact hready.running (by rw [hturn.marks, if_pos rfl]) hthis hspot hhandle hnext hbuffer
    · rw [if_neg hkey] at hw
      refine hturn.running (hother key (Ne.symm hkey)) rfl rfl ?_ (hpr.running key w hw)
      rw [if_pos rfl, if_neg (Ne.symm hkey), List.nil_append]
  · dsimp only at hnone
    rw [Assoc.get?_put] at hnone
    by_cases hkey : new.key = key
    · rw [if_pos hkey] at hnone
      cases hnone
    · rw [if_neg hkey] at hnone
      rw [hother key (Ne.symm hkey)]
      exact hpr.unopened hopen key hnone
  · rcases List.mem_append.mp hx with hx | hx
    · obtain ⟨e, he, hp, hplace, hnone⟩ := hpr.pending x hx
      exact ⟨e, by rw [hsent]; exact List.mem_append_left _ he, hp, hplace,
        (hanswers e).trans hnone⟩
    · exact ⟨new, by rw [hsent]; simp, rfl, List.mem_singleton.mp hx, (hanswers new).trans hnew⟩
  · rw [show (r.log.producer new.producer).closed = true from hclosed] at hopen
    cases hopen

/-- The append is on its way, and the others of its producer are where they were. -/
theorem Good.status_sends (h : r.Good root rp before) {r' : ProducerRun} {new e : Sent}
    {writers : Writers} (hturn : Turn root rp new.producer r r' more)
    (hsent : r'.sent = r.sent ++ [new]) (hanswers : ∀ e, r'.answer? e = r.answer? e)
    (hnew : r.answer? new = none) (hopen : (r.log.producer new.producer).closed = false)
    (hproducer : r'.log.producer new.producer = { r.log.producer new.producer with
      writers := writers
      pending := (r.log.producer new.producer).pending ++ [(new.ticket, new.place)] })
    (he : e ∈ r'.sent) (hp : e.producer = new.producer) : r'.Status e := by
  rw [hsent] at he
  rcases List.mem_append.mp he with he | he
  · refine hturn.status_kept h.noted he (hanswers e) ?_ ?_ (h.status e he)
    · rw [hp, hproducer]
    · rw [hp, hproducer]
      exact List.subset_append_left _ _
  · rw [List.mem_singleton.mp he]
    refine .pending ((hanswers new).trans hnew) ?_ ?_
    · rw [hproducer]
      exact hopen
    · rw [hproducer]
      exact List.mem_append_right _ (List.mem_singleton_self _)

/-- A send that is refused changes nothing for the producers. -/
theorem Good.send_refused (h : r.Good root rp before) {request : AppendRequest} {e : BrokerError}
    (hsend : (r.log.producer p).send r.log.root r.log.deliveries.next request r.log.files =
      (.error e, r.log.producer p, t')) (hkept : Kept root rp r.log.files t') :
    (r.step (.send p request)).Good root rp before ∧
      (∀ e, (r.step (.send p request)).answer? e = r.answer? e) ∧
      (r.step (.send p request)).sent = r.sent := by
  have hlog : r.log.send p request = (.error e, { r.log with
      files := t', producers := r.log.producers.set p (r.log.producer p) }) := by
    rw [FileLog.send, hsend]
  have hact : (ProducerStep.send p request).act r.log = { r.log with
      files := t', producers := r.log.producers.set p (r.log.producer p) } := by
    rw [ProducerStep.act, hlog]
  have hnoted : r.noted (.send p request) = r.sent := by
    rw [ProducerRun.noted, hlog]
  refine ⟨(h.idle rfl hact hkept hnoted).1, fun e => ?_, hnoted⟩
  rw [answer?, step, hact]
  rfl

/-- What a line that is sent leaves of the log and of the notes. -/
theorem act_sends {request : AppendRequest} {k : Nat} {t₁ : FileTree} {held ys : Bytes} {offset : Nat}
    {w' : PartitionWriter}
    (hsends : (r.log.producer p).SendsLine r.log.files r.log.root rp r.log.deliveries.next request
      (request.topic, request.partition) k t₁ held offset ys w') :
    (ProducerStep.send p request).act r.log = { r.log with
      files := t₁.append (.file k) ys
      producers := r.log.producers.set p { r.log.producer p with
        writers := Assoc.put (request.topic, request.partition) w' (r.log.producer p).writers
        pending := (r.log.producer p).pending ++
          [(r.log.deliveries.next, ⟨request.topic, request.partition, offset⟩)] }
      deliveries := r.log.deliveries.expect } ∧
    r.noted (.send p request) = r.sent ++ [r.accepted p request r.log.deliveries.next] := by
  have hlog := hsends.sent
  refine ⟨?_, ?_⟩
  · rw [ProducerStep.act, FileLog.send, hlog]
  · rw [ProducerRun.noted, FileLog.send, hlog]

/-- A send that is accepted is noted with its line, and it is on its way. -/
theorem Good.send_accepted (h : r.Good root rp before) {request : AppendRequest} {new : Sent} {k : Nat}
    {t₁ : FileTree} {held ys : Bytes} {offset : Nat} {w' : PartitionWriter}
    (hnew : r.accepted p request r.log.deliveries.next = new)
    (hsends : (r.log.producer p).SendsLine r.log.files root rp r.log.deliveries.next request
      (request.topic, request.partition) k t₁ held offset ys w') :
    (r.step (.send p request)).Good root rp before ∧
      (∀ e, (r.step (.send p request)).answer? e = r.answer? e) ∧
      (r.step (.send p request)).sent = r.sent ++ [new] ∧ r.answer? new = none := by
  obtain ⟨hact, hsent⟩ := act_sends (h.atRoot ▸ hsends)
  obtain ⟨hopen, hbreak, hkept, hspot, -, hhandle, hnext, hbuffer, hfinds⟩ := hsends
  rw [hnew] at hsent
  have hexists : r.log.producers.get? p ≠ none := by
    intro habsent
    rw [closed_of_absent habsent] at hopen
    cases hopen
  have hready := h.ready request r.log.deliveries.next hopen hfinds
  have hplace : (⟨request.topic, request.partition, offset⟩ : Placement) = new.place := by
    rw [hready.offset, ← hnew]
    rfl
  obtain ⟨rfl, hkey, hticket, hindex, hline⟩ : p = new.producer ∧
      (request.topic, request.partition) = new.key ∧ r.log.deliveries.next = new.ticket ∧
      (r.sentTo p (request.topic, request.partition)).length = new.index ∧
      utf8 request.payload = new.line := by
    rw [← hnew]
    exact ⟨rfl, rfl, rfl, rfl, rfl⟩
  rw [hnew, hkey] at hready
  rw [hkey] at hspot hindex
  rw [hkey, hplace, hticket] at hact
  have hlog' : (r.step (.send new.producer request)).log = _ := hact
  have hsent : (r.step (.send new.producer request)).sent = r.sent ++ [new] := hsent
  have hturn := h.turn_of rfl hact (fun habsent => absurd habsent hexists)
    (hkept.append hspot ys) ⟨[new], hsent, fun e he => by rw [List.mem_singleton.mp he]⟩
    fun e _ _ => Deliveries.answer?_expect _ _
  have hanswers : ∀ e, (r.step (.send new.producer request)).answer? e = r.answer? e := by
    intro e
    rw [answer?, hlog']
    exact Deliveries.answer?_expect _ _
  have hunanswered : r.answer? new = none := by
    rw [answer?, ← hticket]
    exact Deliveries.answer?_next _
  have hlt : new.producer < r.log.producers.size := by
    cases hget : r.log.producers.get? new.producer with
    | none => exact absurd hget hexists
    | some pr => exact Registry.lt_size_of_get? hget
  have honeLine : lineFeed ∉ new.line := hline ▸ lineFeed_not_mem_encode hbreak
  have hnoted := h.noted_sends hready hturn hsent hticket.symm hindex.symm honeLine hlt
    (by rw [hlog']; exact Registry.size_add _ _) (by rw [hlog']; exact Registry.size_modify _ _ _)
  have hproducer : (r.step (.send new.producer request)).log.producer new.producer = _ :=
    (producer_set (s := r.log) (by rw [hlog']) fun habsent => absurd habsent hexists).1
  have haccount := h.account_sends hready hturn hsent hanswers hunanswered hopen
    (by rw [hlog']; exact hspot.keeps fun _ _ hk => hk) hhandle hnext (hline ▸ hbuffer) hproducer
  refine ⟨h.turn hturn hnoted (fun key hnone => if_neg ?_) haccount fun e he hq => ?_, hanswers, hsent,
    hunanswered⟩
  · rintro rfl
    rw [sentTo_concat hsent, if_pos ⟨rfl, rfl⟩] at hnone
    simp at hnone
  · exact h.status_sends hturn hsent hanswers hunanswered hopen hproducer he hq

/-- **A send** answers nothing, and what it adds to the appends is not answered. -/
theorem Good.sends (h : r.Good root rp before) (p : ProducerId) (request : AppendRequest) :
    (r.step (.send p request)).Good root rp before ∧
      (∀ e, (r.step (.send p request)).answer? e = r.answer? e) ∧
      ∀ e ∈ (r.step (.send p request)).sent, e ∈ r.sent ∨ r.answer? e = none := by
  rcases Producer.send_cases h.found h.sound (h.placed p) r.log.deliveries.next request with
    ⟨e, t', hsend, hkept⟩ | ⟨k, t₁, held, offset, ys, w', hsends⟩
  · rw [← h.atRoot] at hsend
    obtain ⟨hgood, hanswers, hsent⟩ := h.send_refused hsend hkept
    exact ⟨hgood, hanswers, fun e he => .inl (hsent ▸ he)⟩
  · obtain ⟨hgood, hanswers, hsent, hunanswered⟩ := h.send_accepted rfl hsends
    refine ⟨hgood, hanswers, fun e he => ?_⟩
    rw [hsent] at he
    rcases List.mem_append.mp he with he | he
    · exact .inl he
    · rw [List.mem_singleton.mp he]
      exact .inr hunanswered

/-! ## Making a producer -/

/-- **A producer that is made** has sent nothing. -/
theorem Good.creates (h : r.Good root rp before) : (r.step .create).Good root rp before ∧
    ∀ e, (r.step .create).answer? e = r.answer? e := by
  have hlog : (r.step .create).log = { r.log with producers := r.log.producers.add .fresh } := by
    show r.log.createProducer.2 = _
    rw [createProducer_again (h.atRoot ▸ h.found)]
  have hsent : (r.step .create).sent = r.sent := rfl
  have hother : ∀ e ∈ r.sent, e.producer ≠ r.log.producers.size :=
    fun e he => Nat.ne_of_lt (h.noted.producer e he)
  have hproducer : (r.step .create).log.producer r.log.producers.size = .fresh := by
    rw [producer, hlog, Registry.get?_add_self]
    rfl
  have hturn : Turn root rp r.log.producers.size r (r.step .create) fun _ => [] := by
    refine ⟨by rw [hlog], by rw [hlog]; exact (Kept.refl h.found h.sound).added, fun key => ?_,
      ⟨[], by rw [hsent, List.append_nil], fun _ he => (List.not_mem_nil he).elim⟩, fun q hq => ?_,
      fun e _ _ => by rw [answer?, hlog]; rfl⟩
    · have hdrop : (partitionBytes (ProducerStep.act r.log .create).root
          (ProducerStep.act r.log .create).files key).drop (r.marks key).length = [] := by
        rw [show ProducerStep.act r.log .create = _ from hlog, h.atRoot, ← h.bytes,
          ← length_bytesOf]
        exact List.drop_length
      show r.marks key ++ markAll none _ = _
      rw [hdrop]
      rfl
    · rw [producer, hlog, Registry.get?_add, if_neg hq]
      rfl
  refine ⟨h.turn hturn (h.noted.turn hturn hsent (by rw [hlog]) ?_) (fun _ _ => rfl) ?_
    fun e he hq => absurd hq (hother e he), fun e => by rw [answer?, hlog]; rfl⟩
  · rw [hlog, Registry.size_add]
    exact Nat.le_succ _
  · rw [hproducer]
    refine ⟨List.nodup_nil, fun key w hw => ?_, fun _ key _ => ?_,
      fun _ hx => (List.not_mem_nil hx).elim, fun hclosed => ?_⟩
    · cases hw
    · exact List.filter_eq_nil_iff.mpr fun e he => by simp [hother e he]
    · cases hclosed

/-! ## All steps -/

/-- Where a producer is closed, its appends were answered. -/
theorem Good.answered (h : r.Good root rp before) {e : Sent} (he : e ∈ r.sent)
    (hclosed : (r.log.producer e.producer).closed = true) : r.answer? e ≠ none := by
  cases h.status e he with
  | pending unanswered isOpen mem =>
      rw [hclosed] at isOpen
      cases isOpen
  | acknowledged answered written =>
      rw [answered]
      simp
  | abandoned answered isClosed =>
      rw [answered]
      simp

/-- What a step does to a run: it stays good, and an append is answered as the step answers it unless
it was answered before. -/
structure Steps (root rp : Path) (before : PartitionKey → List Mark) (r : ProducerRun)
    (s : ProducerStep) : Prop where
  good : (r.step s).Good root rp before
  answers : ∀ e ∈ r.sent, (r.step s).answer? e = (r.answer? e).or (s.reply? e)
  /-- What is accepted now is not answered yet. -/
  accepts : ∀ e ∈ (r.step s).sent, e ∈ r.sent ∨ (r.step s).answer? e = none

/-- A step that answers nothing. -/
theorem Steps.quiet (hgood : (r.step s).Good root rp before) (hnoted : r.noted s = r.sent)
    (hanswers : ∀ e ∈ r.sent, (r.step s).answer? e = r.answer? e)
    (hreply : ∀ e ∈ r.sent, r.answer? e = none → s.reply? e = none) :
    r.Steps root rp before s := by
  refine ⟨hgood, fun e he => ?_, fun e he => .inl (hnoted ▸ he)⟩
  rw [hanswers e he]
  cases hanswer : r.answer? e with
  | none => exact (hreply e he hanswer).symm
  | some ack => rfl

/-- A producer that was closed before does nothing any more. -/
theorem Good.rests (h : r.Good root rp before) (hs : s.producer? = some p)
    (hclosed : (r.log.producer p).closed = true)
    (hact : s.act r.log = { r.log with producers := r.log.producers.set p (r.log.producer p) })
    (hnoted : r.noted s = r.sent) : r.Steps root rp before s := by
  obtain ⟨hgood, hanswers⟩ := h.idle hs hact (.refl h.found h.sound) hnoted
  refine .quiet hgood hnoted hanswers fun e he hnone => ?_
  have hother : e.producer ≠ p := by
    rintro rfl
    exact h.answered he hclosed hnone
  cases s <;> cases hs <;> first | rfl | exact if_neg hother

/-- A step that answers all that is on the way. -/
theorem Steps.answersAll (f : Placement → Ack) (hgood : (r.step s).Good root rp before)
    (hnoted : r.noted s = r.sent) (hanswers : ∀ e ∈ r.sent, (r.step s).answer? e =
      if r.answer? e = none ∧ e.producer = p then some (f e.place) else r.answer? e)
    (hreply : ∀ e : Sent, s.reply? e = if e.producer = p then some (f e.place) else none) :
    r.Steps root rp before s := by
  refine ⟨hgood, fun e he => ?_, fun e he => .inl (hnoted ▸ he)⟩
  rw [hanswers e he, hreply]
  cases r.answer? e with
  | none => simp
  | some ack => simp

theorem Good.flushes (h : r.Good root rp before) (p : ProducerId) :
    r.Steps root rp before (.flush p) := by
  by_cases hclosed : (r.log.producer p).closed = true
  · refine h.rests rfl hclosed ?_ rfl
    rw [ProducerStep.act, FileLog.flush, Producer.flush, if_pos hclosed]
    rfl
  · have hopen := eq_false_of_ne_true hclosed
    obtain ⟨t', hflush, hadded⟩ := Producer.flush_open (h.placed p) h.found h.sound hopen
    have hact : (ProducerStep.flush p).act r.log = r.log.settled p
        ((r.log.producer p).pending.map fun x => (x.1, .ok x.2)) { r.log.producer p with
          writers := (r.log.producer p).writers.emptied, pending := [] } t' := by
      rw [ProducerStep.act, FileLog.flush, hflush]
    obtain ⟨hgood, hanswers⟩ := h.settles rfl hopen .ok hact hadded rfl rfl
      (.inl ⟨hopen, rfl⟩) (.inl fun _ => rfl)
    exact .answersAll .ok hgood rfl hanswers fun _ => rfl

theorem Good.closes (h : r.Good root rp before) (p : ProducerId) :
    r.Steps root rp before (.close p) := by
  by_cases hclosed : (r.log.producer p).closed = true
  · refine h.rests rfl hclosed ?_ rfl
    rw [ProducerStep.act, FileLog.closeProducer, Producer.close, if_pos hclosed]
    rfl
  · have hopen := eq_false_of_ne_true hclosed
    obtain ⟨t', hclose, hadded⟩ := Producer.close_open (h.placed p) h.found h.sound hopen
    have hact : (ProducerStep.close p).act r.log = r.log.settled p
        ((r.log.producer p).pending.map fun x => (x.1, .ok x.2)) ⟨[], [], true⟩ t' := by
      rw [ProducerStep.act, FileLog.closeProducer, hclose]
    obtain ⟨hgood, hanswers⟩ := h.settles rfl hopen .ok hact hadded rfl rfl
      (.inr ⟨rfl, rfl⟩) (.inl fun _ => rfl)
    exact .answersAll .ok hgood rfl hanswers fun _ => rfl

theorem Good.drops (h : r.Good root rp before) (p : ProducerId) :
    r.Steps root rp before (.drop p) := by
  by_cases hclosed : (r.log.producer p).closed = true
  · refine h.rests rfl hclosed ?_ rfl
    obtain ⟨hwriters, hpending⟩ := (h.account p).closed hclosed
    have hself : r.log.producer p = ⟨[], [], true⟩ := by
      rw [← hwriters, ← hpending, ← hclosed]
    rw [ProducerStep.act, FileLog.dropProducer, Producer.drop, hself]
    rfl
  · have hopen := eq_false_of_ne_true hclosed
    obtain ⟨t', hdrop, hadded⟩ := Producer.drop_adds (h.placed p) h.found h.sound
    have hact : (ProducerStep.drop p).act r.log = r.log.settled p
        ((r.log.producer p).pending.map fun x => (x.1, .error .closed)) ⟨[], [], true⟩ t' := by
      rw [ProducerStep.act, FileLog.dropProducer, hdrop]
    obtain ⟨hgood, hanswers⟩ := h.settles rfl hopen (fun _ => .error .closed) hact hadded rfl rfl
      (.inr ⟨rfl, rfl⟩) (.inr ⟨fun _ => rfl, rfl⟩)
    exact .answersAll (fun _ => .error .closed) hgood rfl hanswers fun _ => rfl

/-- **Every step** keeps a run good. -/
theorem Good.steps (h : r.Good root rp before) (s : ProducerStep) : r.Steps root rp before s := by
  cases s with
  | create => exact .quiet h.creates.1 rfl (fun e _ => h.creates.2 e) fun _ _ _ => rfl
  | send p request =>
      obtain ⟨hgood, hanswers, haccepts⟩ := h.sends p request
      refine ⟨hgood, fun e _ => ?_, fun e he => ?_⟩
      · rw [hanswers e]
        exact (Option.or_none).symm
      · rw [hanswers e]
        exact haccepts e he
  | flush p => exact h.flushes p
  | close p => exact h.closes p
  | drop p => exact h.drops p
  | spill p key n => exact .quiet (h.spills p key n).1 rfl (h.spills p key n).2 fun _ _ _ => rfl

/-- **A run** stays good. -/
theorem Good.exec (h : r.Good root rp before) (steps : List ProducerStep) :
    (r.exec steps).Good root rp before := by
  induction steps generalizing r with
  | nil => exact h
  | cons s steps ih => exact ih (h.steps s).good

/-- A log whose first producer was made has its root. -/
theorem start_made {files : FileTree} (hmade : ((ofTree root files).createProducer).1 = .ok 0) :
    ∃ made, files.makeDirectories root = (.ok (), made) ∧ (start root files).log =
      { ofTree root files with files := made, producers := Registry.empty.add .fresh } := by
  cases hmake : files.makeDirectories root with
  | mk result made =>
  have hcreate : (ofTree root files).createProducer = match result with
      | .error e => (.error (.io e.message), { ofTree root files with files := made })
      | .ok _ => (.ok 0, { ofTree root files with
          files := made, producers := Registry.empty.add .fresh }) := by
    rw [createProducer, show (ofTree root files).files.makeDirectories (ofTree root files).root =
      (result, made) from hmake]
    cases result <;> rfl
  cases result with
  | error e =>
      rw [hcreate] at hmade
      cases hmade
  | ok _ => exact ⟨made, rfl, by rw [start, hcreate]⟩

/-- It has the first producer, which has done nothing, and otherwise none. -/
theorem start_producer {files : FileTree} (hmade : ((ofTree root files).createProducer).1 = .ok 0)
    (p : ProducerId) : (start root files).log.producer p = .fresh ∨
      (start root files).log.producer p = ⟨[], [], true⟩ := by
  obtain ⟨made, -, hlog⟩ := start_made hmade
  rw [producer, hlog, Registry.get?_add]
  split
  · exact .inl rfl
  · exact .inr rfl

/-- A log whose first producer was made is good. -/
theorem good_start {files : FileTree} (hsound : files.Sound)
    (hmade : ((ofTree root files).createProducer).1 = .ok 0) :
    ∃ rp, (start root files).Good root rp (start root files).marks := by
  obtain ⟨made, hmake, hlog⟩ := start_made hmade
  obtain ⟨rp, hfound⟩ := find_of_makeDirectories hmake
  have hmadeSound := hsound.makeDirectories root
  rw [hmake] at hmadeSound
  have hsentTo : ∀ p key, (start root files).sentTo p key = [] := fun _ _ => rfl
  refine ⟨rp, by rw [hlog]; rfl, by rw [hlog]; exact hfound, by rw [hlog]; exact hmadeSound,
    fun key => ?_, fun key => List.prefix_rfl, ?_, fun p key _ m hm => ?_, fun p => ?_,
    fun e he => (List.not_mem_nil he).elim⟩
  · exact bytesOf_markAll _ _
  · exact ⟨fun e he => (List.not_mem_nil he).elim, List.nodup_nil,
      fun e he => (List.not_mem_nil he).elim, fun e he => (List.not_mem_nil he).elim,
      fun e he => (List.not_mem_nil he).elim, fun e he => (List.not_mem_nil he).elim,
      fun p key i e he => by rw [hsentTo] at he; simp at he⟩
  · rw [writer_of_mem_markAll hm]
    simp
  · rcases start_producer hmade p with hp | hp <;>
      · rw [hp]
        refine ⟨List.nodup_nil, fun key w hw => ?_, fun _ key _ => hsentTo p key,
          fun x hx => (List.not_mem_nil hx).elim, fun _ => ⟨rfl, rfl⟩⟩
        cases hw

end Steps

end ProducerRun

end SchemaHistory.FileLog
