import Mathlib
import SchemaHistory.Proofs.File.Isolation
import SchemaHistory.Proofs.File.Marks

/-!
# Three ways to count lines

Where the lines of a partition end is found from behind, by its last line feed. A reader comes there
from the front, line by line, in one reading or in as many as its limits make of it, and has counted as
many lines. A writer that opens the partition counts line feeds, and a torn line that it ends: so it
is one ahead of the reader exactly if bytes follow the last line feed, and then it makes them a line.
The number it starts with is therefore the offset at which its first line is read.
-/

namespace SchemaHistory.FileLog

open FileTree Text

/-- The number of the next line, by where the lines there are end: bytes behind that are one more. -/
def numberBehind (bs : Bytes) : Nat :=
  (endOf bs).offset + if (endOf bs).byte < bs.length then 1 else 0

/-! ## Reading in portions -/

/-- What a consumer takes of one partition in some readings, each with a limit of its own and from
where the one before has stopped; with it, where it has stopped in the end. -/
def readings (t : FileTree) (topic : String) (partition : Int × Path) (cursors : Cursors) :
    List Nat → List Entry × Cursors
  | [] => ([], cursors)
  | limit :: limits =>
    let f := Fetch.readPartition ⟨limit, .earliest⟩ t topic ⟨[], cursors, .goOn⟩ partition
    let rest := readings t topic partition f.cursors limits
    (f.entries ++ rest.1, rest.2)

/-- Where the readings of a partition go on; at its start, if there were none. -/
def cursorIn (cursors : Cursors) (key : PartitionKey) : Cursor := (Assoc.get? cursors key).getD .zero

section Readings

variable {t : FileTree} {topic : String} {p : Int} {path : Path} {cursors : Cursors} {bs tail : Bytes}
  {before after : List Bytes} {limit : Nat} {limits : List Nat}

/-- **One reading** takes the next lines, and stops behind them. -/
theorem Lined.reading (h : Lined bs (before ++ after) tail) (hread : t.read path = .ok bs)
    (hat : cursorIn cursors (topic, p) = behindLines before) (hlimit : 1 ≤ limit) :
    ∃ cursors', Fetch.readPartition ⟨limit, .earliest⟩ t topic ⟨[], cursors, .goOn⟩ (p, path) =
        ⟨entriesOf topic p before.length (after.take limit), cursors', .goOn⟩ ∧
      cursorIn cursors' (topic, p) = behindLines (before ++ after.take limit) := by
  have hstart : Fetch.startIn ⟨limit, .earliest⟩ cursors (topic, p) bs = behindLines before := hat
  have hroom : ([] : List Entry).length < limit := hlimit
  rw [Fetch.readPartition_taken rfl hroom hread, hstart, Fetch.taken]
  dsimp only
  rw [List.length_nil, Nat.sub_zero, h.readFrom]
  refine ⟨_, rfl, ?_⟩
  rw [cursorIn, Assoc.get?_put, if_pos rfl]
  rfl

/-- **Some readings** take as many lines as their limits allow together. -/
theorem Lined.portions (h : Lined bs (before ++ after) tail) (hread : t.read path = .ok bs)
    (hat : cursorIn cursors (topic, p) = behindLines before) (hlimits : ∀ l ∈ limits, 1 ≤ l) :
    (readings t topic (p, path) cursors limits).1 =
        entriesOf topic p before.length (after.take limits.sum) ∧
      cursorIn (readings t topic (p, path) cursors limits).2 (topic, p) =
        behindLines (before ++ after.take limits.sum) := by
  induction limits generalizing cursors before after with
  | nil =>
      rw [List.sum_nil, List.take_zero, List.append_nil]
      exact ⟨rfl, hat⟩
  | cons limit limits ih =>
      obtain ⟨cursors', hfirst, hat'⟩ := h.reading hread hat (hlimits limit (by simp))
      have hrest : Lined bs (before ++ after.take limit ++ after.drop limit) tail := by
        rw [List.append_assoc, List.take_append_drop]
        exact h
      obtain ⟨hentries, hlast⟩ := ih hrest hat' fun l hl => hlimits l (by simp [hl])
      rw [readings, hfirst]
      dsimp only
      rw [hentries, hlast, List.sum_cons, List.take_add, entriesOf_append, List.length_append,
        List.append_assoc]
      exact ⟨rfl, rfl⟩

end Readings

/-! ## Where the lines end -/

/-- **The cursor at the end** is where a reader comes whose limit leaves no line out. -/
theorem readFrom_zero {bs : Bytes} {limit : Nat} (h : lineCount bs ≤ limit) :
    readFrom limit .zero bs = (linesIn bs, endOf bs) := by
  obtain ⟨tail, hlined⟩ := lined_linesIn bs
  have hall : Lined bs ([] ++ linesIn bs) tail := hlined
  have hread : readFrom limit .zero bs =
      ((linesIn bs).take limit, behindLines ([] ++ (linesIn bs).take limit)) := hall.readFrom limit
  rw [hread, List.take_of_length_le (by rwa [length_linesIn]), List.nil_append, hlined.endOf_eq]

/-- So do readings whose limits leave none out together. -/
theorem readings_zero {t : FileTree} {topic : String} {p : Int} {path : Path} {cursors : Cursors}
    {bs : Bytes} {limits : List Nat} (hread : t.read path = .ok bs)
    (hat : cursorIn cursors (topic, p) = .zero) (hlimits : ∀ l ∈ limits, 1 ≤ l) :
    (readings t topic (p, path) cursors limits).1 =
        (entriesOf topic p 0 (linesIn bs)).take limits.sum ∧
      (lineCount bs ≤ limits.sum →
        cursorIn (readings t topic (p, path) cursors limits).2 (topic, p) = endOf bs) := by
  obtain ⟨tail, hlined⟩ := lined_linesIn bs
  have hall : Lined bs ([] ++ linesIn bs) tail := hlined
  obtain ⟨hentries, hlast⟩ := hall.portions hread hat hlimits
  rw [take_entriesOf]
  refine ⟨hentries, fun hcount => ?_⟩
  rw [hlast, List.take_of_length_le (by rwa [length_linesIn]), List.nil_append, hlined.endOf_eq]

/-- **Both counts agree**: a writer counts the lines up to where they end, and one for what follows. -/
theorem nextLine_eq (bs : Bytes) : nextLine bs = numberBehind bs := by
  obtain ⟨tail, hlined⟩ := lined_linesIn bs
  have hlength := congrArg List.length hlined.split
  rw [List.length_append] at hlength
  rw [nextLine, numberBehind, hlined.endOf_eq, hlined.isTorn_eq, behindLines, length_linesIn]
  cases tail with
  | nil => simp [hlength]
  | cons b tail => simp [hlength]

/-! ## A writer on the file -/

/-- A file that is there is opened as it is. -/
theorem openAt_there {t : FileTree} {path : Path} {bs : Bytes} (hread : t.read path = .ok bs) :
    ∃ handle, PartitionWriter.openAt path t = (.ok (PartitionWriter.continuing handle bs t).1,
      (PartitionWriter.continuing handle bs t).2) := by
  have hpresent : PartitionWriter.present path t = .ok bs := by
    rw [PartitionWriter.present, hread]
  rw [FileTree.read] at hread
  cases hfind : t.find path with
  | error e =>
      rw [hfind] at hread
      cases hread
  | ok found =>
      obtain ⟨q, node⟩ := found
      rw [hfind] at hread
      have hfile : node ≠ .directory := by
        rintro rfl
        cases hread
      -- it has a name in a directory
      rcases List.eq_nil_or_concat path with rfl | ⟨above, name, rfl⟩
      · cases hfind
        exact absurd rfl hfile
      rw [List.concat_eq_append] at hfind hpresent ⊢
      obtain ⟨⟨d, n⟩, habove, hname⟩ := find_of_append hfind
      have hdir : n = .directory := by
        by_contra hn
        rw [walk, if_pos hn] at hname
        cases hname
      subst hdir
      have hnonempty : name ≠ "" := by
        rintro rfl
        rw [walk, if_neg (by simp), if_pos (.inl rfl)] at hname
        cases hname
        exact hfile rfl
      have hlast : (above ++ [name]).getLast? ≠ some "" := by
        rw [List.getLast?_concat]
        simpa using hnonempty
      obtain ⟨handle, hopen⟩ : ∃ handle, t.openAppend (above ++ [name]) = (.ok handle, t) := by
        rw [openAppend, if_neg hlast, hfind]
        cases node with
        | directory => exact absurd rfl hfile
        | file k => exact ⟨_, rfl⟩
        | nullDevice => exact ⟨_, rfl⟩
      refine ⟨handle, ?_⟩
      rw [PartitionWriter.openAt, List.dropLast_concat,
        makeDirectories_again (isDirectory_of_find habove)]
      dsimp only
      rw [hpresent]
      dsimp only
      rw [hopen]

/-- The line that comes behind some bytes, with what ends a torn one, is read at its number. -/
theorem entry_behind (topic : String) (p : Int) (bs : Bytes) {payload : String}
    (h : '\n' ∉ payload.toList) {later : Bytes}
    (hlater : bs ++ (repair bs ++ (utf8 payload ++ [lineFeed])) <+: later) :
    (entriesOf topic p 0 (linesIn later))[numberBehind bs]? =
      some ⟨topic, p, numberBehind bs, none, payload⟩ := by
  obtain ⟨more, rfl⟩ := hlater
  have hwhole : isTorn (bs ++ repair bs) = false := by
    have hmended := isTorn_mended bs []
    rwa [ended_nil, List.append_nil] at hmended
  have hfree : lineFeed ∉ utf8 payload := lineFeed_not_mem_encode h
  have hline := line_behind hwhole hfree more
  rw [lineCount_append, lineCount_repair, nextLine_eq] at hline
  have hbytes : bs ++ (repair bs ++ (utf8 payload ++ [lineFeed])) ++ more =
      bs ++ repair bs ++ (utf8 payload ++ lineFeed :: more) := by
    simp only [List.append_assoc, List.singleton_append]
  rw [hbytes, entriesOf, List.getElem?_mapIdx, hline, Option.map_some, Nat.zero_add,
    decodeLossy_utf8, String.ofList_toList]

/-- Whoever reads the partition from its start, in whatever portions and whatever was added since, is
handed the entry at its offset as soon as the readings come there. -/
def ReadAtOffset (bs : Bytes) (e : Entry) : Prop :=
  ∀ (t : FileTree) path later limits, bs <+: later → t.read path = .ok later →
    (∀ l ∈ limits, 1 ≤ l) → e.offset < limits.sum →
      (readings t e.topic (e.partition, path) [] limits).1[e.offset]? = some e

theorem readAtOffset_behind (topic : String) (p : Int) (bs : Bytes) {payload : String}
    (h : '\n' ∉ payload.toList) :
    ReadAtOffset (bs ++ (repair bs ++ (utf8 payload ++ [lineFeed])))
      ⟨topic, p, numberBehind bs, none, payload⟩ := by
  intro t path later limits hlater hread hlimits hsum
  rw [(readings_zero hread rfl hlimits).1, List.getElem?_take_of_lt hsum]
  exact entry_behind topic p bs h hlater

section FirstLine

variable {root rp : Path} {s s' : Producer × FileTree} {ticket : Ticket} {request : AppendRequest}

/-- Where the partition is opened for a line, this is expected at the number behind what is there. -/
theorem Sends.place (h : Sends root rp s.1 s.2 ticket request s')
    (habsent : Assoc.get? s.1.writers (request.topic, request.partition) = none) :
    (ticket, ⟨request.topic, request.partition,
      numberBehind (partitionBytes root s.2 (request.topic, request.partition))⟩) ∈ s'.1.pending := by
  obtain ⟨r, offset, w', t', hprovides, hwrite, rfl⟩ := h
  have hoffset : offset = r.1.nextOffset :=
    (congrArg Prod.fst hwrite).symm.trans (PartitionWriter.writeLine_offset _ _ _).1
  cases hprovides with
  | there present =>
      rw [habsent] at present
      cases present
  | opened absent openable opens atSpot =>
      rw [PartitionWriter.continuing_nextOffset, nextLine_eq] at hoffset
      rw [← hoffset]
      exact List.mem_append_right _ (List.mem_singleton_self _)

/-- **The first line** that a producer sends to a partition is expected at the number with which the
writer starts, and goes behind what the partition holds. -/
theorem Tended.first_line (h : Tended root rp s)
    (habsent : Assoc.get? s.1.writers (request.topic, request.partition) = none)
    (hwritable : Writable root s.2 (request.topic, request.partition)) (ticket : Ticket)
    (hline : '\n' ∉ request.payload.toList) :
    let bs := partitionBytes root s.2 (request.topic, request.partition)
    ∃ s', s.1.send root ticket request s.2 = (.ok (), s') ∧ Tended root rp s' ∧ SameLinks s.2 s'.2 ∧
      (ticket, ⟨request.topic, request.partition, numberBehind bs⟩) ∈ s'.1.pending ∧
      (shareOf root (request.topic, request.partition) s').total =
        bs ++ (repair bs ++ (utf8 request.payload ++ [lineFeed])) := by
  intro bs
  obtain ⟨hopenable, hfile⟩ := (writable_iff h.found h.standing _).mp hwritable
  rcases send_made h.found h.standing s.1 ticket request with
    ⟨e, -, hclosed | hbreak⟩ | ⟨e, t', -, hrefuses⟩ | ⟨-, s', hsend, hsends⟩
  · rw [h.isOpen] at hclosed
    cases hclosed
  · exact absurd hbreak hline
  · exact absurd hopenable hrefuses.shut
  · obtain ⟨htended, hlinks, -⟩ := h.sends hsends
    refine ⟨s', hsend, htended, hlinks, hsends.place habsent, ?_⟩
    rw [h.share_sends hsends hfile, Share.total_send, shareOf, Writers.share, habsent]
    simp [Share.total, bs]

/-- A flush that succeeds answers all that is on its way with the places. -/
theorem Producer.flush_answers {pr : Producer} {t : FileTree} (hopen : pr.closed = false)
    (hstored : (pr.flush t).1 = .ok ()) :
    (pr.flush t).2.1 = pr.pending.map fun x => (x.1, .ok x.2) := by
  rw [Producer.flush, if_neg (ne_true_of_eq_false hopen), Producer.settle] at hstored ⊢
  generalize pr.writers.syncAll t = r at hstored ⊢
  obtain ⟨result, ws, t'⟩ := r
  cases result with
  | ok u => rfl
  | error e => cases hstored

end FirstLine

/--
**The counts of lines agree.** Where the lines of a partition end is where a reader comes from the start
if its limit leaves none out. Readings with limits of at least one take the same entries, as many
as their limits allow together, and come to the same place once they leave none out; so do any
readings that are no fewer than the lines. A writer that opens a file starts with the number of the
lines up to there, and with one more exactly if bytes follow. So the first line that a producer sends
to a partition is answered with the offset at which a reader finds it, however much is added later.
Where there are no links to the device the flush that answers it succeeds.
-/
theorem counts_agree :
    (∀ bs limit, lineCount bs ≤ limit → (readFrom limit .zero bs).2 = endOf bs) ∧
    (∀ (t : FileTree) topic p path bs limits, t.read path = .ok bs → (∀ l ∈ limits, 1 ≤ l) →
      let all := entriesOf topic p 0 (readFrom (lineCount bs) .zero bs).1
      let r := readings t topic (p, path) [] limits
      r.1 = all.take limits.sum ∧
      (lineCount bs ≤ limits.sum → cursorIn r.2 (topic, p) = endOf bs) ∧
      (lineCount bs ≤ limits.length → r.1 = all ∧ cursorIn r.2 (topic, p) = endOf bs)) ∧
    (∀ (t : FileTree) path bs, t.read path = .ok bs →
      ∃ w t', PartitionWriter.openAt path t = (.ok w, t') ∧
        w.nextOffset = (endOf bs).offset + if (endOf bs).byte < bs.length then 1 else 0) ∧
    ∀ (root : Path) (t : FileTree), t.Standing → t.isDirectory root = true → ∀ calls ticket request,
      let s := ProducerCall.run root (.fresh, t) calls
      let bs := partitionBytes root s.2 (request.topic, request.partition)
      Assoc.get? s.1.writers (request.topic, request.partition) = none →
      Writable root s.2 (request.topic, request.partition) → '\n' ∉ request.payload.toList →
      ∃ pr t', s.1.send root ticket request s.2 = (.ok (), pr, t') ∧
        (t.Sound → (pr.flush t').1 = .ok ()) ∧
        ((pr.flush t').1 = .ok () →
          (ticket, .ok ⟨request.topic, request.partition, numberBehind bs⟩) ∈ (pr.flush t').2.1 ∧
          ReadAtOffset (partitionBytes root (pr.flush t').2.2.2 (request.topic, request.partition))
            ⟨request.topic, request.partition, numberBehind bs, none, request.payload⟩) := by
  refine ⟨fun bs limit hlimit => congrArg Prod.snd (readFrom_zero hlimit),
    fun t topic p path bs limits hread hlimits => ?_, fun t path bs hread => ?_,
    fun root t hstanding hdirectory calls ticket request => ?_⟩
  · intro all r
    have hstart : cursorIn [] (topic, p) = .zero := rfl
    obtain ⟨hentries, hlast⟩ := readings_zero hread hstart hlimits
    have hall : all = entriesOf topic p 0 (linesIn bs) := by
      rw [show all = entriesOf topic p 0 (readFrom (lineCount bs) .zero bs).1 from rfl,
        readFrom_zero (Nat.le_refl _)]
    have hcount : all.length = lineCount bs := by
      rw [hall, length_entriesOf, length_linesIn]
    rw [← hall] at hentries
    refine ⟨hentries, hlast, fun hlength => ?_⟩
    have hsum : lineCount bs ≤ limits.sum :=
      hlength.trans (List.length_le_sum_of_one_le limits hlimits)
    exact ⟨hentries.trans (List.take_of_length_le (hcount.trans_le hsum)), hlast hsum⟩
  · obtain ⟨handle, hopen⟩ := openAt_there hread
    refine ⟨_, _, hopen, ?_⟩
    rw [PartitionWriter.continuing_nextOffset]
    exact nextLine_eq bs
  · intro s bs habsent hwritable hline
    obtain ⟨rp, hroot⟩ := find_of_makeDirectories (makeDirectories_again hdirectory)
    obtain ⟨hbefore, hlinks⟩ := (tended_fresh hroot hstanding).run calls
    have hfile := ((writable_iff hbefore.found hbefore.standing _).mp hwritable).2
    obtain ⟨⟨pr, t'⟩, hsend, hafter, hlinks', hpending, htotal⟩ :=
      hbefore.first_line habsent hwritable ticket hline
    refine ⟨pr, t', hsend, fun hsound => ?_, fun hstored => ⟨?_, ?_⟩⟩
    · exact hafter.flush.2.2.2 fun path hn => hsound.plain path ((hlinks path).mp ((hlinks' path).mp hn))
    · rw [Producer.flush_answers hafter.isOpen hstored]
      exact List.mem_map.mpr ⟨_, hpending, rfl⟩
    · have hbytes := hafter.flush_bytes (fun hn => hfile ((hlinks' _).mp hn)) hstored
      rw [hbytes, htotal]
      exact readAtOffset_behind _ _ _ hline

/-- Where a torn line is all there is, the next line has the number 1, and is read there. -/
theorem counts_agree_tornTree :
    (∃ w t', PartitionWriter.openAt ["log", "t", "0.log"] tornTree = (.ok w, t') ∧ w.nextOffset = 1) ∧
    (readings tornTree "t" (0, ["log", "t", "0.log"]) [] [1]).1 = [] ∧
    ∃ pr t', Producer.fresh.send ["log"] 7 ⟨"t", 0, none, "b"⟩ tornTree = (.ok (), pr, t') ∧
      (7, .ok ⟨"t", 0, 1⟩) ∈ (pr.flush t').2.1 ∧
      ReadAtOffset (partitionBytes ["log"] (pr.flush t').2.2.2 ("t", 0)) ⟨"t", 0, 1, none, "b"⟩ := by
  obtain ⟨-, hread, hopen, hfirst⟩ := counts_agree
  have hsound : tornTree.Sound := sound_of_listed (by decide)
  have hwritable : Writable ["log"] tornTree ("t", 0) := ⟨_, _, rfl, by decide +kernel⟩
  obtain ⟨pr, t', hsend, hstored, hanswered⟩ :=
    hfirst ["log"] tornTree hsound.standing rfl [] 7 ⟨"t", 0, none, "b"⟩ rfl hwritable (by decide)
  obtain ⟨hack, hfound⟩ := hanswered (hstored hsound)
  obtain ⟨hentries, -⟩ := hread tornTree "t" 0 ["log", "t", "0.log"] [0x61] [1] rfl (by decide)
  exact ⟨hopen tornTree ["log", "t", "0.log"] [0x61] rfl, hentries.trans rfl, pr, t', hsend, hack, hfound⟩

end SchemaHistory.FileLog
