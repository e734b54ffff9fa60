import Mathlib.Data.List.Nodup
import SchemaHistory.Log.File.Broker
import SchemaHistory.Proofs.File.Marks

/-!
# Producers of one log in files

Any number of producers write to the partitions of one log, each through buffers of its own.
The account of a producer with a partition is what carries everything: what it has written
there since it opened the partition, together with what it still holds back, is the line
feed that ends a torn line and then all its lines in order. Whatever the others write leaves
this account as it is. An append is expected at its place from the moment it is sent, and it
is answered with that place only once its line is in the file.
-/

namespace SchemaHistory.FileLog

open FileTree Text

/-! ## What the producers of a log do -/

/-- Some bytes that a producer holds back for a partition go to the file, as they may at any time. -/
def Producer.spill (key : PartitionKey) (n : Nat) (pr : Producer) (t : FileTree) :
    Producer × FileTree :=
  match Assoc.get? pr.writers key with
  | none => (pr, t)
  | some w =>
    ({ pr with writers := Assoc.put key { w with buffer := w.buffer.drop n } pr.writers },
      t.append w.handle (w.buffer.take n))

/-- The same on a log. -/
def spill (p : ProducerId) (key : PartitionKey) (n : Nat) (s : FileLog) : FileLog :=
  let (producer, files) := (s.producer p).spill key n s.files
  { s with files, producers := s.producers.set p producer }

/-- What happens to the producers of a log. -/
inductive ProducerStep
  | create
  | send (p : ProducerId) (request : AppendRequest)
  | flush (p : ProducerId)
  | close (p : ProducerId)
  | drop (p : ProducerId)
  /-- The first `n` bytes that a producer holds back for a partition go to the file. -/
  | spill (p : ProducerId) (key : PartitionKey) (n : Nat)

namespace ProducerStep

/-- The producer that acts. -/
def producer? : ProducerStep → Option ProducerId
  | create => none
  | send p _ => some p
  | flush p => some p
  | close p => some p
  | drop p => some p
  | spill p _ _ => some p

/-- What a step does to the log. -/
def act (s : FileLog) : ProducerStep → FileLog
  | create => s.createProducer.2
  | send p request => (s.send p request).2
  | flush p => (s.flush p).2
  | close p => (s.closeProducer p).2
  | drop p => s.dropProducer p
  | spill p key n => s.spill p key n

end ProducerStep

/-- An append that was accepted. -/
structure Sent where
  ticket : Ticket
  producer : ProducerId
  key : PartitionKey
  payload : String
  /-- What the partition held before the producer's first append to it. -/
  opened : List Mark
  /-- How many appends of the producer to the partition came before. -/
  index : Nat

namespace Sent

/-- The line that it becomes. -/
def line (e : Sent) : Bytes := utf8 e.payload

/-- Where it is expected: behind the lines that were there, of which a torn one counts, and those that
the producer has written since. -/
def place (e : Sent) : Placement := ⟨e.key.1, e.key.2, nextLine (bytesOf e.opened) + e.index⟩

end Sent

/-- The answer that a step has for an append that is on its way. -/
def ProducerStep.reply? (s : ProducerStep) (e : Sent) : Option Ack :=
  match s with
  | flush p => if e.producer = p then some (.ok e.place) else none
  | close p => if e.producer = p then some (.ok e.place) else none
  | drop p => if e.producer = p then some (.error .closed) else none
  | _ => none

/-- A log, who wrote what to its partitions, and the appends that were accepted. -/
structure ProducerRun where
  log : FileLog
  marks : PartitionKey → List Mark
  /-- The appends in the order in which they were sent. -/
  sent : List Sent

namespace ProducerRun

/-- A log with its first producer. -/
def start (root : Path) (files : FileTree) : ProducerRun :=
  let log := (ofTree root files).createProducer.2
  ⟨log, fun key => markAll none (partitionBytes root log.files key), []⟩

/-- The appends of a producer to a partition. -/
def sentTo (r : ProducerRun) (p : ProducerId) (key : PartitionKey) : List Sent :=
  r.sent.filter fun e => e.producer = p ∧ e.key = key

/-- The answer to an append, if it has come. -/
def answer? (r : ProducerRun) (e : Sent) : Option Ack := r.log.deliveries.answer? e.ticket

/-- An append that is accepted now. -/
def accepted (r : ProducerRun) (p : ProducerId) (request : AppendRequest) (ticket : Ticket) : Sent :=
  let key := (request.topic, request.partition)
  ⟨ticket, p, key, request.payload,
    ((r.sentTo p key).head?.map Sent.opened).getD (r.marks key), (r.sentTo p key).length⟩

/-- The appends that were accepted by the end of a step. -/
def noted (r : ProducerRun) : ProducerStep → List Sent
  | .send p request =>
    match (r.log.send p request).1 with
    | .ok ticket => r.sent ++ [r.accepted p request ticket]
    | .error _ => r.sent
  | _ => r.sent

/-- The state after one step. What a partition holds more by then was written by the producer that
acted. -/
def step (r : ProducerRun) (s : ProducerStep) : ProducerRun :=
  let log := s.act r.log
  { log
    marks := fun key => r.marks key ++
      markAll s.producer? ((partitionBytes log.root log.files key).drop (r.marks key).length)
    sent := r.noted s }

/-- The state after some steps. -/
def exec (r : ProducerRun) (steps : List ProducerStep) : ProducerRun := steps.foldl step r

/-! ## The accounts -/

/-- What a writer has sent to its file since the partition was opened, and what it holds, are the lines
of its producer behind what ends a torn line; and it counts them on from the lines that were
there. -/
structure Running (rp : Path) (r : ProducerRun) (p : ProducerId) (key : PartitionKey)
    (w : PartitionWriter) : Prop where
  spot : ∃ k, w.handle = .file k ∧ OnSpot r.log.files rp key k
  sent : r.sentTo p key ≠ []
  /-- What was written and what is held are the lines. -/
  written : ∀ e ∈ r.sentTo p key, ∃ since, r.marks key = e.opened ++ since ∧
    ownIn p since ++ w.buffer =
      repair (bytesOf e.opened) ++ ended ((r.sentTo p key).map Sent.line)
  next : ∀ e ∈ r.sentTo p key,
    w.nextOffset = nextLine (bytesOf e.opened) + (r.sentTo p key).length

/-- A producer between two steps. -/
structure Account (rp : Path) (r : ProducerRun) (p : ProducerId) (pr : Producer) : Prop where
  keys : (pr.writers.map Prod.fst).Nodup
  running : ∀ key w, Assoc.get? pr.writers key = some w → Running rp r p key w
  /-- It has sent nothing to a partition that it has not opened. -/
  unopened : pr.closed = false → ∀ key, Assoc.get? pr.writers key = none → r.sentTo p key = []
  /-- What is on its way was not answered, and is expected at its place. -/
  pending : ∀ x ∈ pr.pending, ∃ e ∈ r.sent, e.producer = p ∧ x = (e.ticket, e.place) ∧
    r.answer? e = none
  closed : pr.closed = true → pr.writers = [] ∧ pr.pending = []

/-- The line of an append is in the file, with those that its producer sent before. -/
def Written (r : ProducerRun) (e : Sent) : Prop :=
  ∃ since, r.marks e.key = e.opened ++ since ∧
    repair (bytesOf e.opened) ++
      ended (((r.sentTo e.producer e.key).take (e.index + 1)).map Sent.line) <+:
        ownIn e.producer since

/-- An append is on its way, or it was answered with its place and its line is in the file, or its
producer was let go of before. -/
inductive Status (r : ProducerRun) (e : Sent) : Prop
  | pending (unanswered : r.answer? e = none) (isOpen : (r.log.producer e.producer).closed = false)
    (mem : (e.ticket, e.place) ∈ (r.log.producer e.producer).pending)
  | acknowledged (answered : r.answer? e = some (.ok e.place)) (written : r.Written e)
  | abandoned (answered : r.answer? e = some (.error .closed))
    (isClosed : (r.log.producer e.producer).closed = true)

/-- What was noted of the appends, in a run that began with the marks `before`. -/
structure Noted (before : PartitionKey → List Mark) (r : ProducerRun) : Prop where
  /-- Every ticket was given out. -/
  ticket : ∀ e ∈ r.sent, e.ticket < r.log.deliveries.size
  distinct : (r.sent.map Sent.ticket).Nodup
  producer : ∀ e ∈ r.sent, e.producer < r.log.producers.size
  /-- Appends become one line each. -/
  oneLine : ∀ e ∈ r.sent, lineFeed ∉ e.line
  /-- What a producer found in a partition is still there, and is not its own. -/
  opened : ∀ e ∈ r.sent, before e.key <+: e.opened ∧ e.opened <+: r.marks e.key ∧
    ∀ m ∈ e.opened, m.writer ≠ some e.producer
  /-- A producer opens a partition once. -/
  once : ∀ e ∈ r.sent, ∀ e' ∈ r.sent, e.producer = e'.producer → e.key = e'.key →
    e.opened = e'.opened
  index : ∀ p key i (e : Sent), (r.sentTo p key)[i]? = some e → e.index = i

/-- The files and the notes of a run agree, and so do all accounts. -/
structure Good (root rp : Path) (before : PartitionKey → List Mark) (r : ProducerRun) : Prop where
  atRoot : r.log.root = root
  found : r.log.files.find root = .ok (rp, .directory)
  sound : r.log.files.Sound
  /-- The marks are those of the bytes that are there. -/
  bytes : ∀ key, bytesOf (r.marks key) = partitionBytes root r.log.files key
  grown : ∀ key, before key <+: r.marks key
  noted : r.Noted before
  /-- Who has sent nothing to a partition has written nothing there. -/
  unsent : ∀ p key, r.sentTo p key = [] → ∀ m ∈ r.marks key, m.writer ≠ some p
  account : ∀ p, r.Account rp p (r.log.producer p)
  status : ∀ e ∈ r.sent, r.Status e

/-! ## A turn of one producer -/

/-- One producer has acted: it has added to some partitions, its appends may be more, and whatever
belongs to the others is as it was. -/
structure Turn (root rp : Path) (p : ProducerId) (r r' : ProducerRun)
    (more : PartitionKey → Bytes) : Prop where
  /-- The log is at its place. -/
  atRoot : r'.log.root = r.log.root
  added : Added root rp r.log.files r'.log.files more
  marks : ∀ key, r'.marks key = r.marks key ++ markAll (some p) (more key)
  sent : ∃ news, r'.sent = r.sent ++ news ∧ ∀ e ∈ news, e.producer = p
  others : ∀ q, q ≠ p → r'.log.producer q = r.log.producer q
  answers : ∀ e ∈ r.sent, e.producer ≠ p → r'.answer? e = r.answer? e

section Turn

variable {root rp : Path} {before : PartitionKey → List Mark} {p q : ProducerId}
  {r r' : ProducerRun} {more : PartitionKey → Bytes} {key : PartitionKey} {e : Sent}

theorem mem_sentTo : e ∈ r.sentTo p key ↔ e ∈ r.sent ∧ e.producer = p ∧ e.key = key := by
  rw [sentTo, List.mem_filter, decide_eq_true_eq]

theorem mem_sentTo_self (h : e ∈ r.sent) : e ∈ r.sentTo e.producer e.key :=
  mem_sentTo.mpr ⟨h, rfl, rfl⟩

theorem sentTo_same (hsent : r'.sent = r.sent) (q : ProducerId) (key : PartitionKey) :
    r'.sentTo q key = r.sentTo q key := by
  rw [sentTo, hsent]
  rfl

theorem Turn.sentTo_other (h : Turn root rp p r r' more) (hq : q ≠ p) (key : PartitionKey) :
    r'.sentTo q key = r.sentTo q key := by
  obtain ⟨news, hsent, hnews⟩ := h.sent
  have hnone : news.filter (fun e => e.producer = q ∧ e.key = key) = [] := by
    refine List.filter_eq_nil_iff.mpr fun e he => ?_
    rw [hnews e he]
    simp [Ne.symm hq]
  rw [sentTo, hsent, List.filter_append, hnone, List.append_nil]
  rfl

theorem Turn.sentTo_mono (h : Turn root rp p r r' more) (q : ProducerId) (key : PartitionKey) :
    r.sentTo q key <+: r'.sentTo q key := by
  obtain ⟨news, hsent, -⟩ := h.sent
  rw [sentTo, sentTo, hsent, List.filter_append]
  exact List.prefix_append _ _

/-- The appends up to one are the same at any later time. -/
theorem Noted.take_sentTo (h : r.Noted before) (he : e ∈ r.sent)
    (hmore : r.sentTo e.producer e.key <+: r'.sentTo e.producer e.key) :
    (r'.sentTo e.producer e.key).take (e.index + 1) =
      (r.sentTo e.producer e.key).take (e.index + 1) := by
  obtain ⟨i, hi⟩ := List.mem_iff_getElem?.mp (mem_sentTo_self he)
  have hlt : i < (r.sentTo e.producer e.key).length := (List.getElem?_eq_some_iff.mp hi).1
  obtain ⟨later, hlater⟩ := hmore
  rw [h.index _ _ _ _ hi, ← hlater, List.take_append_of_le_length hlt]

/-- A line that is in the file stays there. -/
theorem Turn.written (h : Turn root rp p r r' more) (hnoted : r.Noted before) (he : e ∈ r.sent)
    (hwritten : r.Written e) : r'.Written e := by
  obtain ⟨since, hmarks, hprefix⟩ := hwritten
  refine ⟨since ++ markAll (some p) (more e.key), ?_, ?_⟩
  · rw [h.marks, hmarks, List.append_assoc]
  · rw [hnoted.take_sentTo he (h.sentTo_mono _ _), ownIn_append]
    exact hprefix.trans (List.prefix_append _ _)

/-- A writer goes on as it was, but for what its producer has sent to the file of what it held. -/
theorem Turn.running (h : Turn root rp p r r' more) (hsent : r'.sentTo q key = r.sentTo q key)
    {w w' : PartitionWriter} (hhandle : w'.handle = w.handle) (hnext : w'.nextOffset = w.nextOffset)
    (hbuffer : (if q = p then more key else []) ++ w'.buffer = w.buffer)
    (hw : Running rp r q key w) : Running rp r' q key w' := by
  have hown : ownIn q (markAll (some p) (more key)) = if q = p then more key else [] := by
    split
    · rename_i hq
      rw [hq, ownIn_markAll]
    · rename_i hq
      exact ownIn_markAll_other (by simpa using Ne.symm hq) _
  obtain ⟨k, hk, hspot⟩ := hw.spot
  refine ⟨⟨k, hhandle.trans hk, hspot.keeps h.added.files⟩, by rw [hsent]; exact hw.sent,
    fun e he => ?_, ?_⟩
  · rw [hsent] at he ⊢
    obtain ⟨since, hmarks, hwritten⟩ := hw.written e he
    refine ⟨since ++ markAll (some p) (more key), ?_, ?_⟩
    · rw [h.marks, hmarks, List.append_assoc]
    · rw [ownIn_append, hown, List.append_assoc, hbuffer]
      exact hwritten
  · rw [hsent, hnext]
    exact hw.next

/-- The account of another producer is as it was. -/
theorem Turn.account (h : Turn root rp p r r' more) (hq : q ≠ p)
    (hpr : r.Account rp q (r.log.producer q)) : r'.Account rp q (r'.log.producer q) := by
  rw [h.others q hq]
  refine ⟨hpr.keys, fun key w hw => h.running (h.sentTo_other hq key) rfl rfl
    (by rw [if_neg hq, List.nil_append]) (hpr.running key w hw),
    fun hopen key hnone => ?_, fun x hx => ?_, hpr.closed⟩
  · rw [h.sentTo_other hq]
    exact hpr.unopened hopen key hnone
  · obtain ⟨e, he, hproducer, hplace, hnone⟩ := hpr.pending x hx
    obtain ⟨news, hsent, -⟩ := h.sent
    refine ⟨e, by rw [hsent]; exact List.mem_append_left _ he, hproducer, hplace, ?_⟩
    rw [h.answers e he (by rw [hproducer]; exact hq)]
    exact hnone

/-- The account of a producer that has sent nothing but what it held. -/
theorem Turn.account_moved (h : Turn root rp p r r' more) (hsent : r'.sent = r.sent)
    {pr pr' : Producer} (hpr : r.Account rp p pr) (hmoved : pr.writers.Moved pr'.writers more)
    (hclosed : pr'.closed = pr.closed) (hsub : pr'.pending ⊆ pr.pending)
    (hanswers : ∀ e ∈ r.sent, (e.ticket, e.place) ∈ pr'.pending → r'.answer? e = r.answer? e) :
    r'.Account rp p pr' := by
  have hsentTo := sentTo_same hsent p
  refine ⟨hmoved.keys, fun key w' hw' => ?_, fun hopen key hnone => ?_, fun x hx => ?_,
    fun hclosed' => ?_⟩
  · obtain ⟨w, hw, hhandle, hnext, hbuffer⟩ := hmoved.earlier hw'
    exact h.running (hsentTo key) hhandle hnext (by rw [if_pos rfl]; exact hbuffer)
      (hpr.running key w hw)
  · rw [hsentTo]
    cases hw : Assoc.get? pr.writers key with
    | none => exact hpr.unopened (hclosed.symm.trans hopen) key hw
    | some w =>
        obtain ⟨w', hw', -⟩ := hmoved.opened key w hw
        rw [hw'] at hnone
        cases hnone
  · obtain ⟨e, he, hproducer, rfl, hnone⟩ := hpr.pending x (hsub hx)
    exact ⟨e, hsent ▸ he, hproducer, rfl, (hanswers e he hx).trans hnone⟩
  · obtain ⟨hwriters, hpending⟩ := hpr.closed (hclosed.symm.trans hclosed')
    rw [hpending] at hsub
    exact ⟨hmoved.eq_nil hwriters, List.subset_nil.mp hsub⟩

/-- An append stands as before if it is answered as before, and its producer is as before but for what
it has sent since. -/
theorem Turn.status_kept (h : Turn root rp p r r' more) (hnoted : r.Noted before) (he : e ∈ r.sent)
    (hanswer : r'.answer? e = r.answer? e)
    (hclosed : (r'.log.producer e.producer).closed = (r.log.producer e.producer).closed)
    (hpending : (r.log.producer e.producer).pending ⊆ (r'.log.producer e.producer).pending)
    (hstatus : r.Status e) : r'.Status e := by
  cases hstatus with
  | pending unanswered isOpen mem =>
      exact .pending (hanswer.trans unanswered) (hclosed.trans isOpen) (hpending mem)
  | acknowledged answered written =>
      exact .acknowledged (hanswer.trans answered) (h.written hnoted he written)
  | abandoned answered isClosed =>
      exact .abandoned (hanswer.trans answered) (hclosed.trans isClosed)

/-- **A turn of one producer** keeps a run good if it does so for what belongs to the producer. -/
theorem Good.turn (h : r.Good root rp before) (hturn : Turn root rp p r r' more)
    (hnoted : r'.Noted before) (hmore : ∀ key, r'.sentTo p key = [] → more key = [])
    (haccount : r'.Account rp p (r'.log.producer p))
    (hstatus : ∀ e ∈ r'.sent, e.producer = p → r'.Status e) : r'.Good root rp before := by
  refine ⟨hturn.atRoot.trans h.atRoot, hturn.added.found, hturn.added.sound, fun key => ?_,
    fun key => ?_, hnoted, fun q key hnone m hm => ?_, fun q => ?_, fun e he => ?_⟩
  · rw [hturn.marks, bytesOf_append, bytesOf_markAll, h.bytes, hturn.added.bytes]
  · rw [hturn.marks]
    exact (h.grown key).trans (List.prefix_append _ _)
  · have hold : r.sentTo q key = [] := by
      have hprefix := hturn.sentTo_mono q key
      rw [hnone] at hprefix
      exact List.prefix_nil.mp hprefix
    rw [hturn.marks] at hm
    rcases List.mem_append.mp hm with hm | hm
    · exact h.unsent q key hold m hm
    · by_cases hq : q = p
      · subst hq
        rw [hmore key hnone] at hm
        cases hm
      · rw [writer_of_mem_markAll hm]
        simpa using Ne.symm hq
  · by_cases hq : q = p
    · subst hq
      exact haccount
    · exact hturn.account hq (h.account q)
  · by_cases hq : e.producer = p
    · exact hstatus e he hq
    · -- what is new is the producer's own
      obtain ⟨news, hsent, hnews⟩ := hturn.sent
      rw [hsent] at he
      have hold := (List.mem_append.mp he).resolve_right fun hnew => hq (hnews e hnew)
      have hproducer := hturn.others e.producer hq
      exact hturn.status_kept h.noted hold (hturn.answers e hold hq) (by rw [hproducer])
        (by rw [hproducer]; exact List.Subset.refl _) (h.status e hold)

/-- If no append was accepted, what was noted stays true. -/
theorem Noted.turn (h : r.Noted before) (hturn : Turn root rp p r r' more)
    (hsent : r'.sent = r.sent) (hsize : r'.log.deliveries.size = r.log.deliveries.size)
    (hproducers : r.log.producers.size ≤ r'.log.producers.size) : r'.Noted before := by
  refine ⟨?_, ?_, ?_, ?_, ?_, ?_, fun q key i e hi => ?_⟩
  · rw [hsent, hsize]
    exact h.ticket
  · rw [hsent]
    exact h.distinct
  · rw [hsent]
    exact fun e he => Nat.lt_of_lt_of_le (h.producer e he) hproducers
  · rw [hsent]
    exact h.oneLine
  · rw [hsent]
    intro e he
    obtain ⟨hbefore, hopened, hwriter⟩ := h.opened e he
    refine ⟨hbefore, ?_, hwriter⟩
    rw [hturn.marks]
    exact hopened.trans (List.prefix_append _ _)
  · rw [hsent]
    exact h.once
  · rw [sentTo_same hsent] at hi
    exact h.index q key i e hi

end Turn

end ProducerRun

end SchemaHistory.FileLog
