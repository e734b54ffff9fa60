import SchemaHistory.Proofs.File.Partition
import SchemaHistory.Proofs.Text.Utf8

/-!
# Writing the partition

What a producer writes goes through a buffer, so what is in the file and what is still in
the buffer belong together: the buffer may be sent to the file at any time, and what is in
both, one after the other, is what was written. Between the calls of a history every buffer
is empty, because each append is followed by a flush. A file that was torn gets its line
feed with the first append after it was opened, in the same call.
-/

namespace SchemaHistory

open Text

namespace FileTree

variable {t : FileTree}

theorem append_nil (h : Handle) : t.append h [] = t := by
  cases h with
  | nullDevice => rfl
  | file k =>
      rw [append, Registry.modify_same fun bs => List.append_nil bs]

theorem append_append (h : Handle) (xs ys : Bytes) :
    (t.append h xs).append h ys = t.append h (xs ++ ys) := by
  cases h with
  | nullDevice => rfl
  | file k =>
      simp only [append]
      rw [Registry.modify_modify]
      simp only [List.append_assoc]

theorem append_nodes (h : Handle) (bs : Bytes) : (t.append h bs).nodes = t.nodes := by
  cases h <;> rfl

end FileTree

namespace FileLog

open FileTree

theorem OnFile.append {t : FileTree} {directory : Path} {k : Nat} {bs : Bytes}
    (h : OnFile t directory k bs) (more : Bytes) :
    OnFile (t.append (.file k) more) directory k (bs ++ more) := by
  refine h.withContents ?_
  rw [Registry.get?_modify, if_pos rfl, h.contents]
  rfl

/-- The line feed that a torn file gets before the next line. -/
def repair (bs : Bytes) : Bytes := if isTorn bs then [lineFeed] else []

theorem isTorn_lineFeed (bs : Bytes) : isTorn (bs ++ [lineFeed]) = false := by
  rw [isTorn, List.getLast?_concat]
  simp

namespace PartitionWriter

variable {w w' : PartitionWriter} {t t' : FileTree} {r : PartitionWriter × FileTree}

/-! ## Through the buffer -/

/-- Writing `bs` leads to `r`: some bytes went to the file, and with what the buffer holds they are
what it held before and `bs`. -/
def Wrote (w : PartitionWriter) (t : FileTree) (bs : Bytes) (r : PartitionWriter × FileTree) :
    Prop :=
  r.1.handle = w.handle ∧ ∃ ys, r.2 = t.append w.handle ys ∧ ys ++ r.1.buffer = w.buffer ++ bs

theorem Wrote.trans {xs ys : Bytes} (h : w.Wrote t xs (w', t')) (h' : w'.Wrote t' ys r) :
    w.Wrote t (xs ++ ys) r := by
  obtain ⟨hhandle, ss, hfile, hbuffer⟩ := h
  obtain ⟨hhandle', ss', hfile', hbuffer'⟩ := h'
  dsimp only at hhandle hfile hbuffer
  refine ⟨hhandle'.trans hhandle, ss ++ ss', ?_, ?_⟩
  · rw [hfile', hhandle, hfile, append_append]
  · rw [List.append_assoc, hbuffer', ← List.append_assoc, hbuffer, List.append_assoc]

theorem write_wrote (w : PartitionWriter) (bs : Bytes) (t : FileTree) :
    w.Wrote t bs (w.write bs t) := by
  have hroom : w.Wrote t []
      (if bufferSize < w.buffer.length + bs.length then w.spill t else (w, t)) := by
    split
    · exact ⟨rfl, w.buffer, rfl, rfl⟩
    · exact ⟨rfl, [], (append_nil _).symm, by simp⟩
  generalize hmade : (if bufferSize < w.buffer.length + bs.length then w.spill t else (w, t)) = r
    at hroom
  obtain ⟨w', t'⟩ := r
  rw [write, hmade]
  dsimp only
  refine hroom.trans ?_
  split
  · exact ⟨rfl, [], (append_nil _).symm, rfl⟩
  · rename_i hlarge
    refine ⟨rfl, bs, rfl, ?_⟩
    -- what is as large as a buffer was written behind an empty one
    have hempty : w'.buffer = [] := by
      split at hmade
      · cases hmade
        rfl
      · cases hmade
        exact List.eq_nil_of_length_eq_zero (by omega)
    show bs ++ w'.buffer = w'.buffer ++ bs
    rw [hempty, List.append_nil, List.nil_append]

theorem writeLine_wrote (w : PartitionWriter) (line : Bytes) (t : FileTree) :
    w.Wrote t (line ++ [lineFeed]) (w.writeLine line t).2 := by
  have hline := write_wrote w line t
  have hfeed := write_wrote (w.write line t).1 [lineFeed] (w.write line t).2
  obtain ⟨hhandle, hwrote⟩ := hline.trans hfeed
  exact ⟨hhandle, hwrote⟩

/-- A writer that goes on behind some bytes ends their last line. -/
theorem continuing_wrote (handle : Handle) (bs : Bytes) (t : FileTree) :
    (⟨handle, [], lineCount bs⟩ : PartitionWriter).Wrote t (repair bs) (continuing handle bs t) := by
  rw [continuing, repair]
  split
  · obtain ⟨hhandle, hwrote⟩ := write_wrote ⟨handle, [], lineCount bs⟩ [lineFeed] t
    exact ⟨hhandle, hwrote⟩
  · exact ⟨rfl, [], (append_nil _).symm, rfl⟩

/-- Sending the buffer to the file completes what was written. -/
theorem Wrote.spill {bs : Bytes} (h : w.Wrote t bs (w', t')) :
    w'.spill t' = ({ w' with buffer := [] }, t.append w.handle (w.buffer ++ bs)) := by
  obtain ⟨hhandle, ys, hfile, hbuffer⟩ := h
  dsimp only at hhandle hfile hbuffer
  rw [PartitionWriter.spill, hfile, hhandle, append_append, hbuffer]

end PartitionWriter

/-! ## The number of the next line -/

/-- The number of the line that is written next behind some bytes. -/
def nextLine (bs : Bytes) : Nat := lineCount bs + if isTorn bs then 1 else 0

theorem lineCount_append (xs ys : Bytes) : lineCount (xs ++ ys) = lineCount xs + lineCount ys :=
  List.count_append

/-- What ends a torn line is counted. -/
theorem lineCount_repair (bs : Bytes) : lineCount bs + lineCount (repair bs) = nextLine bs := by
  rw [nextLine, repair]
  split <;> rfl

namespace PartitionWriter

theorem write_nextOffset (w : PartitionWriter) (bs : Bytes) (t : FileTree) :
    (w.write bs t).1.nextOffset = w.nextOffset := by
  have hroom : (if bufferSize < w.buffer.length + bs.length then w.spill t
      else (w, t)).1.nextOffset = w.nextOffset := by
    split <;> rfl
  rw [write]
  dsimp only
  split
  · exact hroom
  · exact hroom

/-- A line is expected at the next offset. -/
theorem writeLine_offset (w : PartitionWriter) (line : Bytes) (t : FileTree) :
    (w.writeLine line t).1 = w.nextOffset ∧
      (w.writeLine line t).2.1.nextOffset = w.nextOffset + 1 := by
  have hnext : (((w.write line t).1).write [lineFeed] (w.write line t).2).1.nextOffset =
      w.nextOffset := (write_nextOffset _ _ _).trans (write_nextOffset _ _ _)
  exact ⟨hnext, congrArg (· + 1) hnext⟩

/-- A writer goes on with the next line behind what the partition holds. -/
theorem continuing_nextOffset (handle : Handle) (bs : Bytes) (t : FileTree) :
    (continuing handle bs t).1.nextOffset = nextLine bs := by
  rw [continuing, nextLine]
  split
  · exact congrArg (· + 1) (write_nextOffset _ _ _)
  · rfl

end PartitionWriter

/-- A line that is written counts for one, with what ends the line before it. -/
theorem nextLine_line (bs : Bytes) {line : Bytes} (h : lineFeed ∉ line) :
    nextLine (bs ++ (repair bs ++ (line ++ [lineFeed]))) = nextLine bs + 1 := by
  have htorn : isTorn (bs ++ (repair bs ++ (line ++ [lineFeed]))) = false := by
    rw [← List.append_assoc, ← List.append_assoc]
    exact isTorn_lineFeed _
  have hline : lineCount (line ++ [lineFeed]) = 1 := by
    rw [lineCount_append, lineCount, List.count_eq_zero.mpr h]
    rfl
  rw [nextLine, htorn, lineCount_append, lineCount_append, ← Nat.add_assoc, lineCount_repair, hline]
  rfl

/-! ## A producer between the calls of its history -/

/-- The producer is open, nothing of it is on the way, and if it has opened the partition, whose
bytes are `bs`, then the last line there is ended. -/
structure Producer.Ready (p : Producer) (t : FileTree) (directory : Path) (topic : String)
    (bs : Bytes) : Prop where
  isOpen : p.closed = false
  /-- Nothing is to be answered. -/
  pending : p.pending = []
  /-- It has opened nothing, or the partition. -/
  writers : p.writers = [] ∨ ∃ w k, p.writers = [((topic, historyPartition), w)] ∧
    w.handle = .file k ∧ w.buffer = [] ∧
    Assoc.get? t.nodes (directory ++ [partitionFile]) = some (.file k) ∧ isTorn bs = false

theorem ready_fresh (t : FileTree) (directory : Path) (topic : String) (bs : Bytes) :
    Producer.fresh.Ready t directory topic bs := ⟨rfl, rfl, .inl rfl⟩

/-- A producer is ready still when another one has written. -/
theorem Producer.Ready.keeps {p : Producer} {t t' : FileTree} {directory : Path} {topic : String}
    {bs bs' : Bytes} (h : p.Ready t directory topic bs) (hkeeps : KeepsFiles t t')
    (hbs : isTorn bs = false → isTorn bs' = false) : p.Ready t' directory topic bs' := by
  refine ⟨h.isOpen, h.pending, ?_⟩
  rcases h.writers with hnone | ⟨w, k, hw, hhandle, hbuffer, hfile, htorn⟩
  · exact .inl hnone
  · exact .inr ⟨w, k, hw, hhandle, hbuffer, hkeeps _ _ hfile, hbs htorn⟩

/-- If the producer has opened the partition, it expects its next line behind those of `bs`. -/
def Producer.Counts (p : Producer) (topic : String) (bs : Bytes) : Prop :=
  ∀ w, Assoc.get? p.writers (topic, historyPartition) = some w → w.nextOffset = nextLine bs

theorem counts_fresh (topic : String) (bs : Bytes) : Producer.fresh.Counts topic bs := by
  intro w hw
  cases hw

/-- A flush of a producer that has nothing on the way does nothing. -/
theorem Producer.Ready.settle {p : Producer} {t : FileTree} {directory : Path} {topic : String}
    {bs : Bytes} (h : p.Ready t directory topic bs) :
    p.settle t = (.ok (), [], p, t) ∧ p.writers.spillAll t = (p.writers, t) := by
  obtain ⟨writers, pending, closed⟩ := p
  have hpending : pending = [] := h.pending
  subst hpending
  rcases h.writers with hnone | ⟨⟨handle, buffer, next⟩, k, hw, hhandle, hbuffer, -, -⟩
  · have hwriters : writers = [] := hnone
    subst hwriters
    exact ⟨rfl, rfl⟩
  · have hwriters : writers = [((topic, historyPartition), ⟨handle, buffer, next⟩)] := hw
    have hh : handle = .file k := hhandle
    have hb : buffer = [] := hbuffer
    subst hwriters hh hb
    have hspill : (⟨.file k, [], next⟩ : PartitionWriter).spill t = (⟨.file k, [], next⟩, t) := by
      rw [PartitionWriter.spill]
      exact congrArg (Prod.mk _) (append_nil _)
    refine ⟨?_, ?_⟩
    · rw [Producer.settle, Writers.syncAll, hspill]
      rfl
    · rw [Writers.spillAll, hspill]
      rfl

section Sending

variable {p : Producer} {t : FileTree} {root rp : Path} {topic : String} {bs : Bytes}

/-- The open file of the partition: what is in its buffer ends the last line, if that is torn. -/
theorem Producer.Ready.writerFor (h : p.Ready t (rp ++ [topic]) topic bs)
    (hholds : Holds t (rp ++ [topic]) bs) (hroot : t.find root = .ok (rp, .directory))
    (hlegal : isTopicName topic = true) (hshort : topic.utf8ByteSize ≤ maxName) :
    ∃ w k t₁ t', p.writerFor root topic historyPartition t = (.ok w, t') ∧
      t₁.find root = .ok (rp, .directory) ∧ OnFile t₁ (rp ++ [topic]) k bs ∧ KeepsFiles t t₁ ∧
      (∃ next, (⟨.file k, [], next⟩ : PartitionWriter).Wrote t₁ (repair bs) (w, t')) ∧
      (p.Counts topic bs → w.nextOffset = nextLine bs) := by
  rcases h.writers with hnone | ⟨w, k, hw, hhandle, hbuffer, hfile, htorn⟩
  · -- the first append of this producer opens the file
    obtain ⟨k, t₁, hopen, hroot₁, honfile, hkeeps⟩ :=
      hholds.openAt hroot (proper_of_isTopicName hlegal) hshort
    refine ⟨(PartitionWriter.continuing (.file k) bs t₁).1, k, t₁,
      (PartitionWriter.continuing (.file k) bs t₁).2, ?_, hroot₁, honfile, hkeeps,
      ⟨_, PartitionWriter.continuing_wrote (.file k) bs t₁⟩,
      fun _ => PartitionWriter.continuing_nextOffset (.file k) bs t₁⟩
    rw [Producer.writerFor, hnone]
    dsimp only [Assoc.get?]
    rw [partitionPath_eq hlegal]
    dsimp only
    rw [hopen]
  · -- the file was opened before, so the partition is no more torn
    have honfile : OnFile t (rp ++ [topic]) k bs := by
      rcases hholds with ⟨hbare, -⟩ | ⟨k', honfile⟩
      · rw [hbare.file] at hfile
        cases hfile
      · rw [honfile.file] at hfile
        cases hfile
        exact honfile
    have hget : Assoc.get? p.writers (topic, historyPartition) = some w := by
      rw [hw, Assoc.get?, if_pos rfl]
    refine ⟨w, k, t, t, ?_, hroot, honfile, fun _ _ hk => hk,
      ⟨w.nextOffset, hhandle, [], (append_nil _).symm, ?_⟩, fun hcounts => hcounts w hget⟩
    · rw [Producer.writerFor, hget]
    · rw [repair, htorn, hbuffer]
      rfl

/--
**An append and its flush.** They put the line behind what the partition holds, after a line feed
if that was torn, and answer with a place. It is that of the line, if the producer has counted the
lines.
-/
theorem Producer.Ready.append (h : p.Ready t (rp ++ [topic]) topic bs)
    (hholds : Holds t (rp ++ [topic]) bs) (hroot : t.find root = .ok (rp, .directory))
    (hlegal : isTopicName topic = true) (hshort : topic.utf8ByteSize ≤ maxName)
    (ticket : Ticket) (key : Option String) {payload : String} (hline : '\n' ∉ payload.toList) :
    ∃ p₁ t₁ place p₂ t₂ k,
      p.send root ticket ⟨topic, historyPartition, key, payload⟩ t = (.ok (), p₁, t₁) ∧
      p₁.flush t₁ = (.ok (), [(ticket, .ok place)], p₂, t₂) ∧
      t₂.find root = .ok (rp, .directory) ∧ KeepsFiles t t₂ ∧
      OnFile t₂ (rp ++ [topic]) k (bs ++ (repair bs ++ (utf8 payload ++ [lineFeed]))) ∧
      p₂.Ready t₂ (rp ++ [topic]) topic (bs ++ (repair bs ++ (utf8 payload ++ [lineFeed]))) ∧
      (p.Counts topic bs → place = ⟨topic, historyPartition, nextLine bs⟩ ∧
        p₂.Counts topic (bs ++ (repair bs ++ (utf8 payload ++ [lineFeed])))) := by
  obtain ⟨w, k, t₁, t', hwriter, hroot₁, honfile, hkeeps, ⟨next, hrepair⟩, hcount⟩ :=
    h.writerFor hholds hroot hlegal hshort
  have hfree : lineFeed ∉ utf8 payload := lineFeed_not_mem_encode hline
  -- the line goes behind what repairs the file, through the same buffer
  have hwrote := hrepair.trans (w.writeLine_wrote (utf8 payload) t')
  have hoffset := w.writeLine_offset (utf8 payload) t'
  generalize hmade : w.writeLine (utf8 payload) t' = made at hwrote hoffset
  obtain ⟨offset, w', t''⟩ := made
  obtain ⟨rfl, hnext⟩ := hoffset
  have hspill := hwrote.spill
  have hhandle : w'.handle = .file k := hwrote.1
  have hwriters : Assoc.put (topic, historyPartition) w' p.writers =
      [((topic, historyPartition), w')] := by
    rcases h.writers with hnone | ⟨w₀, k₀, hw, -⟩
    · rw [hnone]
      rfl
    · rw [hw, Assoc.put, if_pos rfl]
  have hsend : p.send root ticket ⟨topic, historyPartition, key, payload⟩ t =
      (.ok (), ⟨[((topic, historyPartition), w')],
        [(ticket, ⟨topic, historyPartition, w.nextOffset⟩)], p.closed⟩, t'') := by
    rw [Producer.send, if_neg (ne_true_of_eq_false h.isOpen), if_neg (by simpa using hline)]
    dsimp only
    rw [hwriter]
    dsimp only
    rw [hmade]
    dsimp only
    rw [hwriters, h.pending]
    rfl
  refine ⟨_, _, ⟨topic, historyPartition, w.nextOffset⟩,
    ⟨[((topic, historyPartition), { w' with buffer := [] })], [], p.closed⟩, _, k, hsend, ?_, ?_, ?_,
    honfile.append _, ⟨h.isOpen, rfl, .inr ⟨{ w' with buffer := [] }, k, rfl, hhandle, rfl, ?_, ?_⟩⟩,
    fun hcounts => ⟨by rw [hcount hcounts], fun w'' hw'' => ?_⟩⟩
  · rw [Producer.flush, if_neg (ne_true_of_eq_false h.isOpen), Producer.settle]
    dsimp only
    rw [Writers.syncAll, hspill]
    dsimp only
    rw [hhandle]
    rfl
  · exact (find_nodes (append_nodes _ _) root).trans hroot₁
  · exact hkeeps
  · exact honfile.file
  · rw [← List.append_assoc, ← List.append_assoc]
    exact isTorn_lineFeed _
  · rw [Assoc.get?, if_pos rfl] at hw''
    cases hw''
    rw [nextLine_line bs hfree, ← hcount hcounts]
    exact hnext

/-- An append to a topic with a name that is too long is refused. -/
theorem Producer.Ready.append_long (h : p.Ready t (rp ++ [topic]) topic bs)
    (hbare : Bare t (rp ++ [topic])) (hroot : t.find root = .ok (rp, .directory))
    (hlegal : isTopicName topic = true) (hlong : maxName < topic.utf8ByteSize)
    (ticket : Ticket) (key : Option String) {payload : String} (hline : '\n' ∉ payload.toList) :
    p.send root ticket ⟨topic, historyPartition, key, payload⟩ t =
      (.error (.io SystemError.nameTooLong.message), p, t) := by
  -- there is no file that could have been opened
  have hnone : p.writers = [] := by
    rcases h.writers with hnone | ⟨w, k, -, -, -, hfile, -⟩
    · exact hnone
    · rw [hbare.file] at hfile
      cases hfile
  rw [Producer.send, if_neg (ne_true_of_eq_false h.isOpen), if_neg (by simpa using hline)]
  dsimp only
  rw [Producer.writerFor, hnone]
  dsimp only [Assoc.get?]
  rw [partitionPath_eq hlegal]
  dsimp only
  rw [openAt_long hroot (proper_of_isTopicName hlegal) hlong]

end Sending

end FileLog

end SchemaHistory
