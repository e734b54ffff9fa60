import SchemaHistory.Proofs.File.Accounts

/-!
# Where acknowledged appends are

A producer answers an append with the place it expected for its line. When it is the only one
that writes to a partition, that is where the line is, and where it stays. When others write
to the partition too, the place is the number that the producer has counted by itself. The
line feeds of others are not counted, so the place is that of the line exactly if no other has
ended a line in between, and the line is the append's alone exactly if no other has written
into it.
-/

namespace SchemaHistory.FileLog

open FileTree Text

namespace ProducerRun

/-- The line feed behind `since` ends the line of an append, which its producer wrote behind its
earlier lines. -/
structure Landed (r : ProducerRun) (e : Sent) (since : List Mark) : Prop where
  marks : ∃ after, r.marks e.key = e.opened ++ since ++ ⟨some e.producer, lineFeed⟩ :: after
  own : ownIn e.producer since = repair (bytesOf e.opened) ++
    ended (((r.sentTo e.producer e.key).take e.index).map Sent.line) ++ e.line

/-- Before the line feed no other has ended a line since the producer opened the partition, nor written
into the line that it ends. -/
def Undisturbed (e : Sent) (since : List Mark) : Prop :=
  lineFeed ∉ othersIn e.producer since ∧
    ∀ m ∈ lastPiece (e.opened ++ since), m.writer = some e.producer

/-- What a step does to the answers. -/
structure Resolves (r : ProducerRun) (s : ProducerStep) : Prop where
  /-- An answer stays. -/
  keeps : ∀ e ∈ r.sent, ∀ ack, r.answer? e = some ack → (r.step s).answer? e = some ack
  /-- A place is answered only by a flush or a close of the producer that follows the append. -/
  acknowledges : ∀ e ∈ (r.step s).sent, ∀ place, (r.step s).answer? e = some (.ok place) →
    e ∈ r.sent ∧ (r.answer? e = some (.ok place) ∨ s = .flush e.producer ∨ s = .close e.producer)
  /-- A flush and a close leave nothing on its way. -/
  settles : ∀ e ∈ (r.step s).sent, s = .flush e.producer ∨ s = .close e.producer →
    (r.step s).answer? e ≠ none
  /-- What is on its way when the producer is dropped is answered by the closing. -/
  abandons : ∀ e ∈ (r.step s).sent, s = .drop e.producer → r.answer? e = none →
    (r.step s).answer? e = some (.error .closed)

section Acknowledging

variable {root rp : Path} {before : PartitionKey → List Mark} {r : ProducerRun} {e e' : Sent}
  {s : ProducerStep} {since since' : List Mark}

theorem sentTo_getElem? (h : r.Noted before) (he : e ∈ r.sent) :
    (r.sentTo e.producer e.key)[e.index]? = some e := by
  obtain ⟨i, hi⟩ := List.mem_iff_getElem?.mp (mem_sentTo_self he)
  rw [h.index _ _ _ _ hi]
  exact hi

/-- What is answered with a place has landed, and the place is the expected one. -/
theorem Good.landed (h : r.Good root rp before) (he : e ∈ r.sent) {place : Placement}
    (hanswer : r.answer? e = some (.ok place)) : place = e.place ∧ ∃ since, r.Landed e since := by
  cases h.status e he with
  | pending unanswered isOpen mem =>
      rw [hanswer] at unanswered
      cases unanswered
  | abandoned answered isClosed =>
      rw [hanswer] at answered
      cases answered
  | acknowledged answered written =>
      rw [hanswer] at answered
      cases answered
      obtain ⟨since, hmarks, rest, hown⟩ := written
      rw [List.take_add_one, sentTo_getElem? h.noted he, List.map_append, ended_append,
        ← List.append_assoc, List.append_assoc, show (List.map Sent.line (some e).toList) =
          [e.line] from rfl, ended_singleton, List.append_assoc e.line, ← List.append_assoc] at hown
      obtain ⟨upTo, after, rfl, hupTo⟩ := exists_own hown.symm
      refine ⟨rfl, upTo, ⟨after, ?_⟩, hupTo⟩
      rw [hmarks, List.append_assoc]

theorem Noted.earlier_oneLine (h : r.Noted before) (e : Sent) :
    ∀ l ∈ ((r.sentTo e.producer e.key).take e.index).map Sent.line, lineFeed ∉ l := by
  intro l hl
  obtain ⟨e', he', rfl⟩ := List.mem_map.mp hl
  exact h.oneLine e' (mem_sentTo.mp (List.mem_of_mem_take he')).1

theorem Noted.length_earlier (h : r.Noted before) (he : e ∈ r.sent) :
    (((r.sentTo e.producer e.key).take e.index).map Sent.line).length = e.index := by
  rw [List.length_map, List.length_take]
  exact Nat.min_eq_left (Nat.le_of_lt (List.getElem?_eq_some_iff.mp (sentTo_getElem? h he)).1)

/-- Only a flush and a close answer with places. -/
theorem settles_of_reply {place : Placement} (h : s.reply? e = some (.ok place)) :
    s = .flush e.producer ∨ s = .close e.producer := by
  cases s with
  | flush p =>
      rw [ProducerStep.reply?] at h
      split at h
      · rename_i hp
        exact .inl (by rw [hp])
      · cases h
  | close p =>
      rw [ProducerStep.reply?] at h
      split at h
      · rename_i hp
        exact .inr (by rw [hp])
      · cases h
  | drop p =>
      rw [ProducerStep.reply?] at h
      split at h <;> cases h
  | create => cases h
  | send p request => cases h
  | spill p key n => cases h

/-- A step resolves what it answers. -/
theorem Good.resolves (h : r.Good root rp before) (s : ProducerStep) : r.Resolves s := by
  obtain ⟨hgood, hanswers, haccepts⟩ := h.steps s
  refine ⟨fun e he ack hack => ?_, fun e he place hplace => ?_, fun e he hs hnone => ?_,
    fun e he hs hnone => ?_⟩
  · rw [hanswers e he, hack]
    rfl
  · have hold : e ∈ r.sent := (haccepts e he).resolve_right fun hnone => by
      rw [hnone] at hplace
      cases hplace
    refine ⟨hold, ?_⟩
    rw [hanswers e hold] at hplace
    cases hanswer : r.answer? e with
    | some ack =>
        rw [hanswer] at hplace
        exact .inl hplace
    | none =>
        rw [hanswer, Option.none_or] at hplace
        exact .inr (settles_of_reply hplace)
  · have hold : e ∈ r.sent := by
      rcases hs with rfl | rfl <;> exact he
    have hreply : s.reply? e = some (.ok e.place) := by
      rcases hs with rfl | rfl <;> exact if_pos rfl
    rw [hanswers e hold, hreply] at hnone
    cases hanswer : r.answer? e with
    | none =>
        rw [hanswer] at hnone
        cases hnone
    | some ack =>
        rw [hanswer] at hnone
        cases hnone
  · subst hs
    rw [hanswers e he, hnone]
    exact if_pos rfl

/-! ## One producer -/

/-- Where one producer acts, all that is added is its own. -/
theorem marks_alone {p : ProducerId} {steps : List ProducerStep}
    (halone : ∀ s ∈ steps, s.producer? = some p) (key : PartitionKey) :
    ∃ own, (r.exec steps).marks key = r.marks key ++ markAll (some p) own := by
  induction steps generalizing r with
  | nil => exact ⟨[], (List.append_nil _).symm⟩
  | cons s steps ih =>
      obtain ⟨own, hown⟩ := ih (r := r.step s) fun s' hs' => halone s' (List.mem_cons_of_mem _ hs')
      have hstep : ∃ added, (r.step s).marks key = r.marks key ++ markAll (some p) added :=
        ⟨_, by rw [← halone s List.mem_cons_self]; rfl⟩
      obtain ⟨added, hadded⟩ := hstep
      refine ⟨added ++ own, ?_⟩
      show ((r.step s).exec steps).marks key = _
      rw [hown, hadded, List.append_assoc]
      exact congrArg _ List.map_append.symm

/-- **What has landed undisturbed by others** is the line with the number that was expected. -/
theorem Good.line_alone (h : r.Good root rp before) (he : e ∈ r.sent) (hlanded : r.Landed e since)
    (hown : ∀ m ∈ since, m.writer = some e.producer) :
    (linesIn (partitionBytes root r.log.files e.key))[e.place.offset]? = some e.line := by
  obtain ⟨after, hmarks⟩ := hlanded.marks
  have hsince := hlanded.own
  have hcount : lineCount (bytesOf e.opened ++ (repair (bytesOf e.opened) ++
      ended (((r.sentTo e.producer e.key).take e.index).map Sent.line))) = e.place.offset := by
    rw [lineCount_append, lineCount_append, ← Nat.add_assoc, lineCount_repair,
      lineCount_ended (h.noted.earlier_oneLine e), h.noted.length_earlier he]
    rfl
  rw [ownIn_eq_bytesOf hown] at hsince
  have hbytes : partitionBytes root r.log.files e.key = bytesOf e.opened ++
      (repair (bytesOf e.opened) ++
        ended (((r.sentTo e.producer e.key).take e.index).map Sent.line)) ++
      (e.line ++ lineFeed :: bytesOf after) := by
    rw [← h.bytes, hmarks, bytesOf_append, bytesOf_append, hsince,
      show bytesOf (⟨some e.producer, lineFeed⟩ :: after) = lineFeed :: bytesOf after from rfl]
    simp only [List.append_assoc]
  rw [hbytes, ← hcount]
  exact line_behind (isTorn_mended _ _) (h.noted.oneLine e he) _

/-- A producer that writes alone has found what was there in the beginning. -/
theorem Noted.opened_alone (h : r.Noted before) (he : e ∈ r.sent) {own : Bytes}
    (hown : r.marks e.key = before e.key ++ markAll (some e.producer) own) :
    e.opened = before e.key := by
  obtain ⟨⟨found, hfound⟩, ⟨behind, hbehind⟩, hothers⟩ := h.opened e he
  have hrest : found ++ behind = markAll (some e.producer) own := by
    rw [← hfound, List.append_assoc] at hbehind
    exact List.append_cancel_left (hbehind.trans hown)
  have hnone : found = [] := by
    refine List.eq_nil_iff_forall_not_mem.mpr fun m hm => hothers m ?_ ?_
    · rw [← hfound]
      exact List.mem_append_right _ hm
    · have hmem : m ∈ markAll (some e.producer) own := by
        rw [← hrest]
        exact List.mem_append_left _ hm
      exact writer_of_mem_markAll hmem
  rw [← hfound, hnone, List.append_nil]

/-- Nobody else has written before what such a producer has written. -/
theorem Landed.since_alone (h : r.Landed e since) {own : Bytes}
    (hown : r.marks e.key = e.opened ++ markAll (some e.producer) own) :
    ∀ m ∈ since, m.writer = some e.producer := by
  obtain ⟨after, hmarks⟩ := h.marks
  rw [hown, List.append_assoc] at hmarks
  intro m hm
  have hmem : m ∈ markAll (some e.producer) own := by
    rw [List.append_cancel_left hmarks]
    exact List.mem_append_left _ hm
  exact writer_of_mem_markAll hmem

/--
**One producer.** The first producer of a log is the only one that writes, and it sends, flushes and
closes in any order, is dropped or not, and its buffers go to the files at any time. What the
partitions held stays. The appends to a partition are expected on the lines behind those it
had, of which a torn one counts, in the order in which they were sent; each is on its way, or
was given up, or was answered with that place, and then its payload is that line of the file.
Whatever the producer does next, answers stay; a place is answered only by a flush or a close
after the append, which leave nothing on its way; and what is on its way when the producer is
dropped is answered by the closing.
-/
theorem one_producer_acknowledges {root : Path} {files : FileTree} (hsound : files.Sound)
    (hmade : ((ofTree root files).createProducer).1 = .ok 0) {steps : List ProducerStep}
    (halone : ∀ s ∈ steps, s.producer? = some 0) :
    let held := partitionBytes root (start root files).log.files
    let r := (start root files).exec steps
    (∀ key, held key <+: partitionBytes root r.log.files key) ∧
    (∀ key i e, (r.sentTo 0 key)[i]? = some e →
      r.answer? e = none ∨ r.answer? e = some (.error .closed) ∨
        r.answer? e = some (.ok ⟨key.1, key.2, nextLine (held key) + i⟩) ∧
          (linesIn (partitionBytes root r.log.files key))[nextLine (held key) + i]? =
            some (utf8 e.payload)) ∧
    ∀ s, s.producer? = some 0 → r.Resolves s := by
  intro held r
  obtain ⟨rp, hstart⟩ := good_start hsound hmade
  have h : r.Good root rp (start root files).marks := hstart.exec steps
  refine ⟨fun key => ?_, fun key i e hi => ?_, fun s _ => h.resolves s⟩
  · obtain ⟨more, hmore⟩ := h.grown key
    rw [← h.bytes, ← hmore, bytesOf_append, hstart.bytes]
    exact List.prefix_append _ _
  · obtain ⟨he, hproducer, rfl⟩ := mem_sentTo.mp (List.mem_of_getElem? hi)
    have hindex := h.noted.index _ _ _ _ hi
    obtain ⟨own, hown⟩ := marks_alone (r := start root files) halone e.key
    rw [← hproducer] at hown
    have hopened := h.noted.opened_alone he hown
    have hplace : e.place = ⟨e.key.1, e.key.2, nextLine (held e.key) + i⟩ := by
      rw [Sent.place, hopened, hstart.bytes, hindex]
    cases h.status e he with
    | pending unanswered isOpen mem => exact .inl unanswered
    | abandoned answered isClosed => exact .inr (.inl answered)
    | acknowledged answered written =>
        obtain ⟨-, since, hlanded⟩ := h.landed he answered
        refine .inr (.inr ⟨by rw [answered, hplace], ?_⟩)
        rw [← hopened] at hown
        have hline := h.line_alone he hlanded (hlanded.since_alone hown)
        rw [hplace] at hline
        exact hline

/-- A partition with a line and the beginning of the next one. -/
def tornTree : FileTree :=
  ⟨[(["log"], .directory), (["log", "t"], .directory), (["log", "t", "0.log"], .file 0)],
    ⟨#[[0x61, 0x0A, 0x62]]⟩⟩

/-- Appends to two partitions, one of them spilled in part, a flush, and one more append before the
producer is dropped. -/
def tornSteps : List ProducerStep :=
  [.send 0 ⟨"t", 0, none, "c"⟩, .send 0 ⟨"u", 1, none, "d"⟩, .spill 0 ("t", 0) 2, .flush 0,
    .send 0 ⟨"t", 0, none, "e"⟩, .drop 0]

/-- The theorem at this run. -/
theorem one_producer_acknowledges_tornSteps :
    let r := (start ["log"] tornTree).exec tornSteps
    r.sent.map r.answer? =
      [some (.ok ⟨"t", 0, 2⟩), some (.ok ⟨"u", 1, 0⟩), some (.error .closed)] ∧
    [0x61, 0x0A, 0x62] <+: partitionBytes ["log"] r.log.files ("t", 0) ∧
    (linesIn (partitionBytes ["log"] r.log.files ("t", 0)))[2]? = some (utf8 "c") ∧
    ∀ s, s.producer? = some 0 → r.Resolves s := by
  intro r
  have hsound : tornTree.Sound := sound_of_listed (by decide)
  have hmade : ((ofTree ["log"] tornTree).createProducer).1 = .ok 0 := rfl
  have halone : ∀ s ∈ tornSteps, s.producer? = some 0 := by decide
  obtain ⟨hkept, hplaces, hresolves⟩ := one_producer_acknowledges hsound hmade halone
  have hfirst : (r.sentTo 0 ("t", 0))[0]?.map (fun e => (r.answer? e, e.payload)) =
      some (some (.ok ⟨"t", 0, 2⟩), "c") := by
    decide +kernel
  obtain ⟨e, he, hpair⟩ := Option.map_eq_some_iff.mp hfirst
  obtain ⟨hanswer, hpayload⟩ := Prod.mk.inj hpair
  refine ⟨by decide +kernel, hkept ("t", 0), ?_, hresolves⟩
  rcases hplaces ("t", 0) 0 e he with hnone | hclosed | ⟨-, hline⟩
  · rw [hanswer] at hnone
    cases hnone
  · rw [hanswer] at hclosed
    cases hclosed
  · rw [hpayload] at hline
    exact hline

/-! ## Several producers -/

/-- The number of the line that has landed, and what the line is. -/
theorem Good.line_of_landed (h : r.Good root rp before) (he : e ∈ r.sent)
    (hlanded : r.Landed e since) :
    lineCount (bytesOf (e.opened ++ since)) =
      e.place.offset + lineCount (othersIn e.producer since) ∧
    (linesIn (partitionBytes root r.log.files e.key))[lineCount (bytesOf (e.opened ++ since))]? =
      some (bytesOf (lastPiece (e.opened ++ since))) ∧
    (lineCount (bytesOf (e.opened ++ since)) = e.place.offset ∧
        lastPiece (e.opened ++ since) = markAll (some e.producer) e.line ↔ Undisturbed e since) := by
  obtain ⟨-, -, hothers⟩ := h.noted.opened e he
  obtain ⟨after, hmarks⟩ := hlanded.marks
  obtain ⟨hcount, hiff⟩ := count_own_lines hothers (h.noted.earlier_oneLine e)
    (h.noted.oneLine e he) hlanded.own
  rw [h.noted.length_earlier he] at hcount hiff
  refine ⟨hcount, ?_, hiff⟩
  rw [← h.bytes, hmarks, bytesOf_append]
  exact line_of_lastPiece _ _

/-- Appends of one producer are expected at places of their own. -/
theorem Noted.eq_of_place (h : r.Noted before) (he : e ∈ r.sent) (he' : e' ∈ r.sent)
    (hproducer : e.producer = e'.producer) (hplace : e.place = e'.place) : e = e' := by
  have hkey : e.key = e'.key :=
    Prod.ext (congrArg Placement.topic hplace) (congrArg Placement.partition hplace)
  have hnumber : nextLine (bytesOf e.opened) + e.index = nextLine (bytesOf e'.opened) + e'.index :=
    congrArg Placement.offset hplace
  rw [h.once e he e' he' hproducer hkey] at hnumber
  have hget := sentTo_getElem? h he
  have hget' := sentTo_getElem? h he'
  rw [hproducer, hkey, Nat.add_left_cancel hnumber, hget'] at hget
  exact (Option.some.inj hget).symm

/-- Undisturbed appends with one place are appends of one producer. -/
theorem Good.producer_of_place (h : r.Good root rp before) (he : e ∈ r.sent) (he' : e' ∈ r.sent)
    (hplace : e.place = e'.place) (hlanded : r.Landed e since) (hlanded' : r.Landed e' since')
    (halone : Undisturbed e since) (halone' : Undisturbed e' since') : e.producer = e'.producer := by
  have hkey : e.key = e'.key :=
    Prod.ext (congrArg Placement.topic hplace) (congrArg Placement.partition hplace)
  obtain ⟨after, hmarks⟩ := hlanded.marks
  obtain ⟨after', hmarks'⟩ := hlanded'.marks
  have hnumber := ((h.line_of_landed he hlanded).2.2.mpr halone).1
  have hnumber' := ((h.line_of_landed he' hlanded').2.2.mpr halone').1
  rw [hkey, hmarks'] at hmarks
  obtain ⟨-, hmark⟩ := eq_of_lineCount hmarks rfl rfl (by rw [hnumber, hnumber', hplace])
  exact (Option.some.inj (congrArg Mark.writer hmark)).symm

/--
**Several producers.** Producers of one log act in any order. Behind an append that was answered with a
place stands its line feed, on a line whose number is the answered one and as many more as others
have ended lines since the producer opened the partition. The answered number is that of the
line, and the line is all the append's own, exactly if no other has ended a line in between or
written into the line. The answers to one producer name different places, and so do those to
undisturbed appends of several.
-/
theorem several_producers_acknowledge {root : Path} {files : FileTree} (hsound : files.Sound)
    (hmade : ((ofTree root files).createProducer).1 = .ok 0) (steps : List ProducerStep) :
    let r := (start root files).exec steps
    (∀ e ∈ r.sent, ∀ place, r.answer? e = some (.ok place) → (place.topic, place.partition) = e.key ∧
      ∃ since, r.Landed e since ∧
        lineCount (bytesOf (e.opened ++ since)) =
          place.offset + lineCount (othersIn e.producer since) ∧
        (linesIn (partitionBytes root r.log.files e.key))[
          lineCount (bytesOf (e.opened ++ since))]? =
            some (bytesOf (lastPiece (e.opened ++ since))) ∧
        (lineCount (bytesOf (e.opened ++ since)) = place.offset ∧
            lastPiece (e.opened ++ since) = markAll (some e.producer) e.line ↔
          Undisturbed e since)) ∧
    ∀ e ∈ r.sent, ∀ e' ∈ r.sent, ∀ place, r.answer? e = some (.ok place) →
      r.answer? e' = some (.ok place) →
      (e.producer = e'.producer ∨ (∀ since, r.Landed e since → Undisturbed e since) ∧
        ∀ since, r.Landed e' since → Undisturbed e' since) → e = e' := by
  intro r
  obtain ⟨rp, hstart⟩ := good_start hsound hmade
  have h : r.Good root rp (start root files).marks := hstart.exec steps
  refine ⟨fun e he place hplace => ?_, fun e he e' he' place hplace hplace' halone => ?_⟩
  · obtain ⟨rfl, since, hlanded⟩ := h.landed he hplace
    exact ⟨rfl, since, hlanded, h.line_of_landed he hlanded⟩
  · obtain ⟨rfl, since, hlanded⟩ := h.landed he hplace
    obtain ⟨hsame, since', hlanded'⟩ := h.landed he' hplace'
    refine h.noted.eq_of_place he he' ?_ hsame
    rcases halone with hproducer | ⟨halone, halone'⟩
    · exact hproducer
    · exact h.producer_of_place he he' hsame hlanded hlanded' (halone since hlanded)
        (halone' since' hlanded')

/-- A second producer, an append of each to one partition, and then both are flushed. -/
def crossingSteps : List ProducerStep :=
  [.create, .send 0 ⟨"t", 0, none, "A"⟩, .send 1 ⟨"t", 0, none, "B"⟩, .flush 0, .flush 1]

/-- The theorem at this run: both appends are answered with the first line. -/
theorem several_producers_acknowledge_crossingSteps :
    let r := (start ["log"] .empty).exec crossingSteps
    r.sent.map (fun e => (e.payload, r.answer? e)) =
      [("A", some (.ok ⟨"t", 0, 0⟩)), ("B", some (.ok ⟨"t", 0, 0⟩))] ∧
    linesIn (partitionBytes ["log"] r.log.files ("t", 0)) = [utf8 "A", utf8 "B"] ∧
    ∃ e ∈ r.sent, ∃ since, r.Landed e since ∧ ¬ Undisturbed e since := by
  intro r
  have hsound : FileTree.empty.Sound := sound_of_listed (by decide)
  have hmade : ((ofTree ["log"] .empty).createProducer).1 = .ok 0 := rfl
  obtain ⟨-, hplaces⟩ := several_producers_acknowledge hsound hmade crossingSteps
  refine ⟨by decide +kernel, by decide +kernel, ?_⟩
  obtain ⟨a, ha, hfirst⟩ := Option.map_eq_some_iff.mp
    (show r.sent[0]?.map (fun e => (r.answer? e, e.producer)) = some (some (.ok ⟨"t", 0, 0⟩), 0) by
      decide +kernel)
  obtain ⟨b, hb, hsecond⟩ := Option.map_eq_some_iff.mp
    (show r.sent[1]?.map (fun e => (r.answer? e, e.producer)) = some (some (.ok ⟨"t", 0, 0⟩), 1) by
      decide +kernel)
  obtain ⟨hanswer, hproducer⟩ := Prod.mk.inj hfirst
  obtain ⟨hanswer', hproducer'⟩ := Prod.mk.inj hsecond
  -- undisturbed, they would have places of their own
  by_contra hnone
  push Not at hnone
  have hsame := hplaces a (List.mem_of_getElem? ha) b (List.mem_of_getElem? hb) _ hanswer hanswer'
    (.inr ⟨hnone a (List.mem_of_getElem? ha), hnone b (List.mem_of_getElem? hb)⟩)
  rw [hsame, hproducer'] at hproducer
  cases hproducer

end Acknowledging

end ProducerRun

end SchemaHistory.FileLog
