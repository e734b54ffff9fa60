import SchemaHistory.Log.File.Broker
import SchemaHistory.Proofs.File.Sending

/-!
# Appending to a partition that is there

A producer that appends to a partition whose file is there opens that file and makes nothing,
and when it flushes, the line is in the file. So an append that is flushed leaves the tree as it
is, but for one more line at the end of one file, and the producer holds nothing back behind it.
-/

namespace SchemaHistory.FileLog

open FileTree Text

variable {root rp : Path} {t : FileTree} {key : PartitionKey} {k : Nat}

/-! ## Opening -/

theorem OnSpot.find (h : OnSpot t rp key k) (hroot : t.find root = .ok (rp, .directory))
    (hsound : t.Sound) :
    t.find (root ++ [key.1] ++ [partitionName key.2]) = .ok (spot rp key, .file k) := by
  have hparent : Assoc.get? t.nodes (rp ++ [key.1]) = some .directory :=
    (hsound.parent _ _ _ h.file).resolve_left (by simp)
  rw [find_partition hroot h.fits, hparent, h.file]

theorem OnSpot.read (h : OnSpot t rp key k) (hroot : t.find root = .ok (rp, .directory))
    (hsound : t.Sound) :
    t.read (root ++ [key.1] ++ [partitionName key.2]) = .ok (partitionBytes root t key) := by
  rw [FileTree.read, h.find hroot hsound, h.bytes hsound hroot]
  rfl

/-- Opening a partition that is there makes nothing. -/
theorem OnSpot.openAt (h : OnSpot t rp key k) (hroot : t.find root = .ok (rp, .directory))
    (hsound : t.Sound) :
    PartitionWriter.openAt (root ++ [key.1] ++ [partitionName key.2]) t =
      (.ok (PartitionWriter.continuing (.file k) (partitionBytes root t key) t).1,
        (PartitionWriter.continuing (.file k) (partitionBytes root t key) t).2) := by
  have hchild := find_child hroot (proper_of_isTopicName h.fits.legal) h.fits.topic
  have hparent : Assoc.get? t.nodes (rp ++ [key.1]) = some .directory :=
    (hsound.parent _ _ _ h.file).resolve_left (by simp)
  rw [hparent] at hchild
  have hlast := getLast?_partitionName (root ++ [key.1]) key.2
  rw [PartitionWriter.openAt, List.dropLast_concat,
    makeDirectories_again (isDirectory_of_find hchild)]
  dsimp only
  rw [PartitionWriter.present, h.read hroot hsound]
  dsimp only
  rw [openAppend_file hlast (h.find hroot hsound)]

/-! ## The buffers -/

namespace Writers

variable {ws : Writers}

/-- A partition has one file. -/
theorem Placed.handle (h : ws.Placed t rp) (hspot : OnSpot t rp key k) {w : PartitionWriter}
    (hw : Assoc.get? ws key = some w) : w.handle = .file k := by
  obtain ⟨j, hj, hspot'⟩ := h.spot key w (Assoc.mem_of_get? hw)
  have hsame := hspot'.file.symm.trans hspot.file
  cases hsame
  exact hj

theorem Placed.put (h : ws.Placed t rp) (hspot : OnSpot t rp key k) {w : PartitionWriter}
    (hw : w.handle = .file k) : Placed (Assoc.put key w ws) t rp := by
  refine ⟨Assoc.nodup_put h.keys _ _, fun key' w' hmem => ?_⟩
  rcases Assoc.mem_put hmem with hnew | hold
  · cases hnew
    exact ⟨k, hw, hspot⟩
  · exact h.spot key' w' hold

theorem buffered_put (ws : Writers) (key other : PartitionKey) (w : PartitionWriter) :
    buffered (Assoc.put key w ws) other = if other = key then w.buffer else ws.buffered other := by
  rw [buffered, Assoc.get?_put]
  by_cases hother : other = key
  · rw [if_pos hother, if_pos hother.symm]
    rfl
  · rw [if_neg hother, if_neg (Ne.symm hother)]
    rfl

end Writers

/-! ## A producer -/

namespace Producer

variable {pr : Producer} {request : AppendRequest}

/-- The file of a partition that is there is open, and nothing was made. -/
theorem writerFor_there (hroot : t.find root = .ok (rp, .directory)) (hsound : t.Sound)
    (hplaced : pr.writers.Placed t rp) (hspot : OnSpot t rp key k) :
    ∃ w₀ : PartitionWriter, ∃ bs w t', pr.writerFor root key.1 key.2 t = (.ok w, t') ∧
      w₀.handle = .file k ∧ w₀.Wrote t bs (w, t') ∧
      pr.Finds t root key (w₀.buffer ++ bs) w.nextOffset := by
  rw [writerFor]
  cases hw : Assoc.get? pr.writers (key.1, key.2) with
  | some w =>
      exact ⟨w, [], w, t, rfl, hplaced.handle hspot hw,
        ⟨rfl, [], (append_nil _).symm, by simp⟩, .inl ⟨w, hw, List.append_nil _, rfl⟩⟩
  | none =>
      dsimp only
      rw [hspot.fits.path]
      dsimp only
      rw [hspot.openAt hroot hsound]
      exact ⟨_, _, _, _, rfl, rfl,
        PartitionWriter.continuing_wrote (.file k) (partitionBytes root t key) t,
        .inr ⟨hw, rfl, PartitionWriter.continuing_nextOffset _ _ _⟩⟩

/-- **A send** of one line to a partition that is there is accepted. -/
theorem send_there (hroot : t.find root = .ok (rp, .directory)) (hsound : t.Sound)
    (hplaced : pr.writers.Placed t rp) (hopen : pr.closed = false)
    (hline : '\n' ∉ request.payload.toList)
    (hspot : OnSpot t rp (request.topic, request.partition) k) (ticket : Ticket) :
    ∃ held offset ys w', pr.SendsLine t root rp ticket request
      (request.topic, request.partition) k t held offset ys w' := by
  obtain ⟨w₀, bs, w, t', hwriter, hhandle, hwrote, hfinds⟩ :=
    writerFor_there hroot hsound hplaced hspot
  obtain ⟨ys, w', hwrite, hhandle', hnext, hbuffer⟩ := hwrote.line hhandle (utf8 request.payload)
  refine ⟨_, _, ys, w', hopen, hline, .refl hroot hsound, hspot, ?_, hhandle', hnext, hbuffer, hfinds⟩
  rw [send, if_neg (ne_true_of_eq_false hopen), if_neg (by simpa using hline), hwriter]
  dsimp only
  rw [hwrite]

/-- The producer is open, writes to the files of its partitions, and holds nothing back. -/
structure Flushed (pr : Producer) (t : FileTree) (rp : Path) : Prop where
  isOpen : pr.closed = false
  placed : pr.writers.Placed t rp
  nothing : ∀ key, pr.writers.buffered key = []

theorem flushed_fresh (t : FileTree) (rp : Path) : fresh.Flushed t rp :=
  ⟨rfl, ⟨.nil, fun _ _ h => (List.not_mem_nil h).elim⟩, fun _ => rfl⟩

/-- Behind whole lines nothing is held for a partition when a line comes. -/
theorem Flushed.held (h : pr.Flushed t rp) (hwhole : isTorn (partitionBytes root t key) = false)
    {held : Bytes} {offset : Nat} (hfinds : pr.Finds t root key held offset) : held = [] := by
  rcases hfinds with ⟨w, hw, rfl, -⟩ | ⟨-, rfl, -⟩
  · have hbuffered := h.nothing key
    rw [Writers.buffered, hw] at hbuffered
    exact hbuffered
  · rw [repair, hwhole]
    rfl

/-- A flush writes to files that are there already. -/
theorem flush_nodes (pr : Producer) (t : FileTree) : (pr.flush t).2.2.2.nodes = t.nodes := by
  rw [flush]
  split
  · rfl
  · exact Writers.syncAll_nodes _ _

/-- **An append that is flushed** puts its line behind the others of its partition, and leaves
everything else in the tree as it is. -/
theorem Flushed.append (h : pr.Flushed t rp) (hroot : t.find root = .ok (rp, .directory))
    (hsound : t.Sound) (hline : '\n' ∉ request.payload.toList)
    (hspot : OnSpot t rp (request.topic, request.partition) k)
    (hwhole : isTorn (partitionBytes root t (request.topic, request.partition)) = false)
    (ticket : Ticket) :
    ∃ pr₁ t₁ acks pr₂ t₂, pr.send root ticket request t = (.ok (), pr₁, t₁) ∧
      pr₁.flush t₁ = (.ok (), acks, pr₂, t₂) ∧ pr₂.Flushed t₂ rp ∧ t₂.nodes = t.nodes ∧
      Added root rp t t₂ fun other => if other = (request.topic, request.partition)
        then utf8 request.payload ++ [lineFeed] else [] := by
  obtain ⟨held, offset, ys, w', hsends⟩ :=
    send_there hroot hsound h.placed h.isOpen hline hspot ticket
  obtain rfl := h.held hwhole hsends.finds
  have hsent := added_append hroot hsound hspot ys
  have hplaced := (h.placed.put hspot hsends.handle).keeps hsent.files
  obtain ⟨pr₁, hpr₁⟩ : ∃ pr₁ : Producer, pr₁ =
      { pr with
        writers := Assoc.put (request.topic, request.partition) w' pr.writers
        pending := pr.pending ++ [(ticket, ⟨request.topic, request.partition, offset⟩)] } := ⟨_, rfl⟩
  have hsend := hsends.sent
  rw [← hpr₁] at hsend
  have hwriters : pr₁.writers = Assoc.put (request.topic, request.partition) w' pr.writers := by
    rw [hpr₁]
  have hopen : pr₁.closed = false := by
    rw [hpr₁]
    exact h.isOpen
  rw [← hwriters] at hplaced
  obtain ⟨t₂, hflush, hadded⟩ := flush_open hplaced hsent.found hsent.sound hopen
  have hnodes : t₂.nodes = t.nodes := by
    have hflushed := pr₁.flush_nodes (t.append (.file k) ys)
    rw [hflush] at hflushed
    exact hflushed.trans (append_nodes _ _)
  have hall := hsent.trans hadded
  refine ⟨pr₁, _, _, _, t₂, hsend, hflush,
    ⟨hopen, hplaced.emptied.keeps hadded.files, Writers.buffered_emptied _⟩, hnodes, hall.found,
    hall.sound, hall.files, fun other => ?_⟩
  rw [hall.bytes, hwriters, Writers.buffered_put]
  split
  · rw [hsends.buffer, List.nil_append]
  · rw [h.nothing, List.append_nil]

end Producer

/-! ## A log -/

variable {s : FileLog} {p : ProducerId} {pr : Producer}

/-- The same on a log, whose consumers do not notice. -/
theorem append_flushed (request : AppendRequest) (hp : s.producers.get? p = some pr)
    (h : pr.Flushed s.files rp)
    (hroot : s.files.find s.root = .ok (rp, .directory)) (hsound : s.files.Sound)
    (hline : '\n' ∉ request.payload.toList)
    (hspot : OnSpot s.files rp (request.topic, request.partition) k)
    (hwhole : isTorn (partitionBytes s.root s.files (request.topic, request.partition)) = false) :
    ∃ ticket s₁ s₂ pr', s.send p request = (.ok ticket, s₁) ∧ s₁.flush p = (.ok (), s₂) ∧
      s₂.root = s.root ∧ s₂.consumers = s.consumers ∧ s₂.producers.get? p = some pr' ∧
      pr'.Flushed s₂.files rp ∧ s₂.files.nodes = s.files.nodes ∧
      Added s.root rp s.files s₂.files fun other =>
        if other = (request.topic, request.partition) then utf8 request.payload ++ [lineFeed]
        else [] := by
  obtain ⟨pr₁, t₁, acks, pr₂, t₂, hsend, hflush, hflushed, hnodes, hadded⟩ :=
    h.append hroot hsound hline hspot hwhole s.deliveries.next
  have hproducer : s.producer p = pr := by
    rw [producer, hp]
    rfl
  obtain ⟨s₁, hs₁⟩ : ∃ s₁ : FileLog, s₁ = { s with
      files := t₁
      producers := s.producers.set p pr₁
      deliveries := s.deliveries.expect } := ⟨_, rfl⟩
  have hp₁ : s₁.producers.get? p = some pr₁ := by
    rw [hs₁]
    exact Registry.get?_set_self hp pr₁
  have hfiles : s₁.files = t₁ := by rw [hs₁]
  refine ⟨s.deliveries.next, s₁, s₁.settled p acks pr₂ t₂, pr₂, ?_, ?_, ?_, ?_,
    Registry.get?_set_self hp₁ pr₂, hflushed, hnodes, hadded⟩
  · rw [send, hproducer, hsend, hs₁]
  · rw [flush, producer, hp₁, Option.getD_some, hfiles, hflush]
  · rw [settled, hs₁]
  · rw [settled, hs₁]

end SchemaHistory.FileLog
