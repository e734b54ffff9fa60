import SchemaHistory.Proofs.File.Spot

/-!
# What a producer does to the partitions

Each operation of a producer adds some bytes to the partitions it has opened and does
nothing else to the files. A send either fails, and then no partition has changed, or it
puts a line behind what the writer of the partition holds, and expects it at the writer's
next offset. Where a partition is opened, the writer counts on from the lines that are
there, and a last line that is torn counts as one.
-/

namespace SchemaHistory.FileLog

open FileTree Text

/-! ## One line -/

namespace PartitionWriter

/-- A line goes behind what was written before, and is expected at the next offset. -/
theorem Wrote.line {w₀ w : PartitionWriter} {t t' : FileTree} {bs : Bytes}
    (h : w₀.Wrote t bs (w, t')) {k : Nat} (hhandle : w₀.handle = .file k) (line : Bytes) :
    ∃ ys w', w.writeLine line t' = (w.nextOffset, w', t.append (.file k) ys) ∧
      w'.handle = .file k ∧ w'.nextOffset = w.nextOffset + 1 ∧
      ys ++ w'.buffer = w₀.buffer ++ bs ++ (line ++ [lineFeed]) := by
  obtain ⟨hhandle', ys, hfile, hbuffer⟩ := h.trans (w.writeLine_wrote line t')
  obtain ⟨hoffset, hnext⟩ := w.writeLine_offset line t'
  refine ⟨ys, (w.writeLine line t').2.1, ?_, hhandle'.trans hhandle, hnext,
    hbuffer.trans (List.append_assoc _ _ _).symm⟩
  rw [← hhandle, ← hfile]
  exact Prod.ext hoffset rfl

end PartitionWriter

/-! ## Adding to partitions -/

/-- The tree has changed by what was added to partitions, and perhaps by directories and empty files
that were made. -/
structure Added (root rp : Path) (t t' : FileTree) (more : PartitionKey → Bytes) : Prop where
  /-- The root is there. -/
  found : t'.find root = .ok (rp, .directory)
  sound : t'.Sound
  /-- Files stay at their spots. -/
  files : KeepsFiles t t'
  /-- Each partition holds more. -/
  bytes : ∀ key, partitionBytes root t' key = partitionBytes root t key ++ more key

section Added

variable {root rp : Path} {t t' t'' : FileTree} {more more' : PartitionKey → Bytes}

theorem Kept.added (h : Kept root rp t t') : Added root rp t t' fun _ => [] :=
  ⟨h.found, h.sound, h.files, fun key => (h.bytes key).trans (List.append_nil _).symm⟩

theorem Added.trans (h : Added root rp t t' more) (h' : Added root rp t' t'' more') :
    Added root rp t t'' fun key => more key ++ more' key :=
  ⟨h'.found, h'.sound, fun path k hk => h'.files path k (h.files path k hk),
    fun key => by rw [h'.bytes, h.bytes, List.append_assoc]⟩

theorem added_append (hroot : t.find root = .ok (rp, .directory)) (hsound : t.Sound)
    {key : PartitionKey} {k : Nat} (hspot : OnSpot t rp key k) (ys : Bytes) :
    Added root rp t (t.append (.file k) ys) fun other => if other = key then ys else [] := by
  refine ⟨(find_nodes (append_nodes _ _) root).trans hroot, hsound.append _ _, fun _ _ hk => hk,
    fun other => ?_⟩
  rw [partitionBytes_append hsound.standing hroot hspot]
  split
  · rfl
  · exact (List.append_nil _).symm

/-- Bytes that are added to a partition when its file was made, if it was missing. -/
theorem Kept.append (h : Kept root rp t t') {key : PartitionKey} {k : Nat}
    (hspot : OnSpot t' rp key k) (ys : Bytes) :
    Added root rp t (t'.append (.file k) ys) fun other => if other = key then ys else [] := by
  have hadded := added_append h.found h.sound hspot ys
  refine ⟨hadded.found, hadded.sound, fun path j hj => hadded.files path j (h.files path j hj),
    fun other => ?_⟩
  rw [hadded.bytes, h.bytes]

end Added

/-! ## The writers of a producer -/

namespace Writers

/-- Each writer writes to the file at the spot of its partition. -/
structure Placed (ws : Writers) (t : FileTree) (rp : Path) : Prop where
  keys : (ws.map Prod.fst).Nodup
  spot : ∀ key w, (key, w) ∈ ws → ∃ k, w.handle = .file k ∧ OnSpot t rp key k

/-- What the buffer for a partition holds. -/
def buffered (ws : Writers) (key : PartitionKey) : Bytes :=
  ((Assoc.get? ws key).map PartitionWriter.buffer).getD []

/-- The writers with empty buffers. -/
def emptied (ws : Writers) : Writers := ws.map fun x => (x.1, { x.2 with buffer := [] })

variable {ws : Writers} {t t' : FileTree} {root rp : Path}

theorem get?_emptied (ws : Writers) (key : PartitionKey) : Assoc.get? ws.emptied key =
    (Assoc.get? ws key).map fun w => { w with buffer := [] } := by
  induction ws with
  | nil => rfl
  | cons x ws ih =>
      obtain ⟨k, w⟩ := x
      show Assoc.get? ((k, _) :: emptied ws) key = _
      rw [Assoc.get?, Assoc.get?]
      split
      · rfl
      · exact ih

theorem buffered_emptied (ws : Writers) (key : PartitionKey) : ws.emptied.buffered key = [] := by
  rw [buffered, get?_emptied]
  cases Assoc.get? ws key <;> rfl

theorem Placed.keeps (h : ws.Placed t rp) (hfiles : KeepsFiles t t') : ws.Placed t' rp := by
  refine ⟨h.keys, fun key w hw => ?_⟩
  obtain ⟨k, hk, hspot⟩ := h.spot key w hw
  exact ⟨k, hk, hspot.keeps hfiles⟩

theorem Placed.emptied (h : ws.Placed t rp) : ws.emptied.Placed t rp := by
  have hkeys : ws.emptied.map Prod.fst = ws.map Prod.fst := by
    rw [Writers.emptied, List.map_map]
    rfl
  refine ⟨by rw [hkeys]; exact h.keys, fun key w hw => ?_⟩
  obtain ⟨x, hx, he⟩ := List.mem_map.mp hw
  cases he
  exact h.spot x.1 x.2 hx

/-- The writers go on with their files, and `more` is what they have sent there of what they held. -/
structure Moved (ws ws' : Writers) (more : PartitionKey → Bytes) : Prop where
  keys : (ws'.map Prod.fst).Nodup
  unopened : ∀ key, Assoc.get? ws key = none → Assoc.get? ws' key = none ∧ more key = []
  opened : ∀ key w, Assoc.get? ws key = some w → ∃ w', Assoc.get? ws' key = some w' ∧
    w'.handle = w.handle ∧ w'.nextOffset = w.nextOffset ∧ more key ++ w'.buffer = w.buffer

theorem moved_refl (hkeys : (ws.map Prod.fst).Nodup) : ws.Moved ws fun _ => [] :=
  ⟨hkeys, fun _ hnone => ⟨hnone, rfl⟩, fun _ w hw => ⟨w, hw, rfl, rfl, rfl⟩⟩

theorem Placed.moved_emptied (h : ws.Placed t rp) : ws.Moved ws.emptied ws.buffered := by
  refine ⟨h.emptied.keys, fun key hnone => ?_, fun key w hw => ?_⟩
  · rw [get?_emptied, buffered, hnone]
    exact ⟨rfl, rfl⟩
  · rw [get?_emptied, buffered, hw]
    exact ⟨_, rfl, rfl, rfl, List.append_nil _⟩

/-- One writer has sent the first bytes of its buffer. -/
theorem moved_put (hkeys : (ws.map Prod.fst).Nodup) {key : PartitionKey} {w : PartitionWriter}
    (hw : Assoc.get? ws key = some w) (n : Nat) :
    ws.Moved (Assoc.put key { w with buffer := w.buffer.drop n } ws)
      fun other => if other = key then w.buffer.take n else [] := by
  refine ⟨Assoc.nodup_put hkeys _ _, fun other hnone => ?_, fun other w' hw' => ?_⟩
  · have hother : other ≠ key := by
      rintro rfl
      rw [hw] at hnone
      cases hnone
    rw [Assoc.get?_put, if_neg (Ne.symm hother)]
    exact ⟨hnone, if_neg hother⟩
  · rw [Assoc.get?_put]
    by_cases hother : other = key
    · subst hother
      obtain rfl : w = w' := Option.some.inj (hw.symm.trans hw')
      rw [if_pos rfl, if_pos rfl]
      exact ⟨_, rfl, rfl, rfl, List.take_append_drop _ _⟩
    · rw [if_neg (Ne.symm hother), if_neg hother]
      exact ⟨w', hw', rfl, rfl, rfl⟩

/-- Every writer was there before. -/
theorem Moved.earlier {ws' : Writers} {more : PartitionKey → Bytes} (h : ws.Moved ws' more)
    {key : PartitionKey} {w' : PartitionWriter} (hw' : Assoc.get? ws' key = some w') :
    ∃ w, Assoc.get? ws key = some w ∧ w'.handle = w.handle ∧ w'.nextOffset = w.nextOffset ∧
      more key ++ w'.buffer = w.buffer := by
  cases hw : Assoc.get? ws key with
  | none =>
      rw [(h.unopened key hw).1] at hw'
      cases hw'
  | some w =>
      obtain ⟨w'', hget, hsame⟩ := h.opened key w hw
      obtain rfl : w' = w'' := Option.some.inj (hw'.symm.trans hget)
      exact ⟨w, rfl, hsame⟩

theorem Moved.eq_nil {ws' : Writers} {more : PartitionKey → Bytes} (h : ws.Moved ws' more)
    (hws : ws = []) : ws' = [] := by
  subst hws
  cases ws' with
  | nil => rfl
  | cons x rest =>
      have hnone := (h.unopened x.1 rfl).1
      rw [Assoc.get?, if_pos rfl] at hnone
      cases hnone

/-- What adding to files preserves is preserved by sending all buffers to their files. -/
theorem spillAll_preserves {P : FileTree → Prop} (happend : ∀ t h bs, P t → P (t.append h bs))
    (ws : Writers) (h : P t) : P (ws.spillAll t).2 := by
  induction ws generalizing t with
  | nil => exact h
  | cons x ws ih => exact ih (happend _ _ _ h)

/-- So it is by storing the files. -/
theorem syncAll_preserves {P : FileTree → Prop} (happend : ∀ t h bs, P t → P (t.append h bs))
    (ws : Writers) (h : P t) : P (ws.syncAll t).2.2 := by
  induction ws generalizing t with
  | nil => exact h
  | cons x ws ih =>
      have hspill : P (x.2.spill t).2 := happend _ _ _ h
      rw [syncAll]
      dsimp only
      split
      · exact hspill
      · exact ih hspill

theorem syncAll_nodes (ws : Writers) (t : FileTree) : (ws.syncAll t).2.2.nodes = t.nodes :=
  syncAll_preserves (P := fun t' => t'.nodes = t.nodes)
    (fun _ h bs hnodes => (append_nodes h bs).trans hnodes) ws rfl

/-- The writers keep their partitions. -/
theorem syncAll_keys (ws : Writers) (t : FileTree) :
    (ws.syncAll t).2.1.map Prod.fst = ws.map Prod.fst := by
  induction ws generalizing t with
  | nil => rfl
  | cons x ws ih =>
      rw [syncAll]
      dsimp only
      split
      · rfl
      · exact congrArg (List.cons x.1) (ih _)

/-- **Sending all buffers to their files** adds to each partition what was held for it. -/
theorem Placed.spillAll (h : ws.Placed t rp) (hroot : t.find root = .ok (rp, .directory))
    (hsound : t.Sound) : ∃ t', ws.spillAll t = (ws.emptied, t') ∧
      ws.syncAll t = (.ok (), ws.emptied, t') ∧ Added root rp t t' ws.buffered := by
  induction ws generalizing t with
  | nil =>
      exact ⟨t, rfl, rfl, hroot, hsound, fun _ _ hk => hk, fun _ => (List.append_nil _).symm⟩
  | cons x ws ih =>
      obtain ⟨key, w⟩ := x
      obtain ⟨k, hhandle, hspot⟩ := h.spot key w (by simp)
      have hkeys := List.nodup_cons.mp h.keys
      have hfirst := added_append hroot hsound hspot w.buffer
      have hrest : Placed ws (t.append (.file k) w.buffer) rp :=
        ⟨hkeys.2, fun key' w' hw' => by
          obtain ⟨j, hj, hspot'⟩ := h.spot key' w' (List.mem_cons_of_mem _ hw')
          exact ⟨j, hj, hspot'.keeps hfirst.files⟩⟩
      obtain ⟨t', hspill, hsync, hadded⟩ := ih hrest hfirst.found hfirst.sound
      have hone : w.spill t = ({ w with buffer := [] }, t.append (.file k) w.buffer) := by
        rw [PartitionWriter.spill, hhandle]
      refine ⟨t', ?_, ?_, (hfirst.trans hadded).found, (hfirst.trans hadded).sound,
        (hfirst.trans hadded).files, fun other => ?_⟩
      · rw [Writers.spillAll, hone]
        dsimp only
        rw [hspill]
        rfl
      · have hstored : FileTree.sync w.handle = .ok () := by
          rw [hhandle]
          rfl
        rw [Writers.syncAll, hone]
        dsimp only
        rw [hstored, hsync]
        rfl
      · rw [(hfirst.trans hadded).bytes]
        refine congrArg _ ?_
        by_cases hother : other = key
        · -- no other writer has this partition
          subst hother
          have hnone : Assoc.get? ws other = none := Assoc.get?_eq_none.mpr hkeys.1
          rw [if_pos rfl, buffered, hnone, buffered, Assoc.get?, if_pos rfl]
          exact List.append_nil _
        · rw [if_neg hother, List.nil_append, buffered, buffered, Assoc.get?,
            if_neg (Ne.symm hother)]

end Writers

/-! ## Opening and sending -/

/-- A producer has a writer for the partition, or it opens one; with it, the files then. -/
inductive Provides (root rp : Path) (pr : Producer) (t : FileTree) (key : PartitionKey) :
    PartitionWriter × FileTree → Prop
  | there {w : PartitionWriter} (present : Assoc.get? pr.writers key = some w) :
    Provides root rp pr t key (w, t)
  | opened {handle : Handle} {t₁ : FileTree} (absent : Assoc.get? pr.writers key = none)
    (openable : Openable t rp key) (opens : Opens root rp key t t₁)
    (atSpot : AtSpot t₁ rp key handle) :
    Provides root rp pr t key (PartitionWriter.continuing handle (partitionBytes root t key) t₁)

/-- The partition has no writer, and the attempt to open it has made the directory of its topic at
most. -/
structure Refuses (root rp : Path) (pr : Producer) (key : PartitionKey) (t t' : FileTree) : Prop where
  absent : Assoc.get? pr.writers key = none
  shut : ¬ Openable t rp key
  topic : MadeTopic root rp key.1 t t'

/-- The producer has written the line with the writer that it has for the partition, and expects it
at the offset at which the writer has put it. -/
def Sends (root rp : Path) (pr : Producer) (t : FileTree) (ticket : Ticket) (request : AppendRequest)
    (s : Producer × FileTree) : Prop :=
  ∃ r offset w' t', Provides root rp pr t (request.topic, request.partition) r ∧
    r.1.writeLine (utf8 request.payload) r.2 = (offset, w', t') ∧
    s = ({ pr with
      writers := Assoc.put (request.topic, request.partition) w' pr.writers
      pending := pr.pending ++ [(ticket, ⟨request.topic, request.partition, offset⟩)] }, t')

section Sending

variable {t : FileTree} {root rp : Path} {pr : Producer}

/-- **The writer for a partition** is there, or the partition is opened, or it cannot be opened. -/
theorem writerFor_made (hroot : t.find root = .ok (rp, .directory)) (hstanding : t.Standing)
    (pr : Producer) (key : PartitionKey) :
    (∃ e t', pr.writerFor root key.1 key.2 t = (.error e, t') ∧ Refuses root rp pr key t t') ∨
      ∃ r, pr.writerFor root key.1 key.2 t = (.ok r.1, r.2) ∧ Provides root rp pr t key r := by
  rw [Producer.writerFor]
  cases hw : Assoc.get? pr.writers (key.1, key.2) with
  | some w => exact .inr ⟨(w, t), rfl, .there hw⟩
  | none =>
      dsimp only
      cases hpath : partitionPath root key.1 key.2 with
      | error e =>
          refine .inl ⟨e, t, rfl, hw, fun h => ?_, .refl hroot hstanding key.1⟩
          rw [h.fits.path] at hpath
          cases hpath
      | ok path =>
          dsimp only
          rcases openAt_made hroot hstanding hpath with ⟨hshut, e, t', hopen, htopic⟩ |
            ⟨hopenable, handle, t₁, hopen, hopens, hspot⟩
          · rw [hopen]
            exact .inl ⟨_, t', rfl, hw, hshut, htopic⟩
          · rw [hopen]
            exact .inr ⟨_, rfl, .opened hw hopenable hopens hspot⟩

/-- **A send** is refused at once, or the partition cannot be opened, or the line is written. -/
theorem send_made (hroot : t.find root = .ok (rp, .directory)) (hstanding : t.Standing)
    (pr : Producer) (ticket : Ticket) (request : AppendRequest) :
    (∃ e, pr.send root ticket request t = (.error e, pr, t) ∧
      (pr.closed = true ∨ '\n' ∈ request.payload.toList)) ∨
    (∃ e t', pr.send root ticket request t = (.error e, pr, t') ∧
      Refuses root rp pr (request.topic, request.partition) t t') ∨
    (pr.closed = false ∧ '\n' ∉ request.payload.toList) ∧
      ∃ s, pr.send root ticket request t = (.ok (), s) ∧ Sends root rp pr t ticket request s := by
  rw [Producer.send]
  by_cases hclosed : pr.closed = true
  · rw [if_pos hclosed]
    exact .inl ⟨_, rfl, .inl hclosed⟩
  rw [if_neg hclosed]
  by_cases hbreak : request.payload.toList.contains '\n' = true
  · rw [if_pos hbreak]
    exact .inl ⟨_, rfl, .inr (by simpa using hbreak)⟩
  rw [if_neg hbreak]
  rcases writerFor_made hroot hstanding pr (request.topic, request.partition) with
    ⟨e, t', hwriter, hrefuses⟩ | ⟨r, hwriter, hprovides⟩
  · rw [hwriter]
    exact .inr (.inl ⟨e, t', rfl, hrefuses⟩)
  · rw [hwriter]
    exact .inr (.inr ⟨⟨eq_false_of_ne_true hclosed, by simpa using hbreak⟩,
      _, rfl, r, _, _, _, hprovides, rfl, rfl⟩)

end Sending

/-! ## The operations, where there are no links to the device -/

namespace Producer

variable {pr : Producer} {t : FileTree} {root rp : Path}

/-- What is held for a partition when a line comes behind it, and the offset at which the line is
expected: as the writer of the partition says, or, if the partition is opened now, as its bytes do. -/
def Finds (pr : Producer) (t : FileTree) (root : Path) (key : PartitionKey) (held : Bytes)
    (offset : Nat) : Prop :=
  (∃ w, Assoc.get? pr.writers key = some w ∧ held = w.buffer ∧ offset = w.nextOffset) ∨
    Assoc.get? pr.writers key = none ∧ held = repair (partitionBytes root t key) ∧
      offset = nextLine (partitionBytes root t key)

/-- Where a writer is provided, the file of the partition is open, and what is held for the partition
is on its way there. -/
theorem finds_of_provides (hroot : t.find root = .ok (rp, .directory)) (hsound : t.Sound)
    (hplaced : pr.writers.Placed t rp) {key : PartitionKey} {r : PartitionWriter × FileTree}
    (h : Provides root rp pr t key r) :
    ∃ k t₁, ∃ w₀ : PartitionWriter, ∃ bs, Kept root rp t t₁ ∧ OnSpot t₁ rp key k ∧
      w₀.handle = .file k ∧ w₀.Wrote t₁ bs r ∧
      pr.Finds t root key (w₀.buffer ++ bs) r.1.nextOffset := by
  cases h with
  | @there w present =>
      obtain ⟨k, hhandle, hspot⟩ := hplaced.spot _ w (Assoc.mem_of_get? present)
      exact ⟨k, t, w, [], .refl hroot hsound, hspot, hhandle,
        ⟨rfl, [], (append_nil _).symm, by simp⟩, .inl ⟨w, present, List.append_nil _, rfl⟩⟩
  | @opened handle t₁ absent openable opens atSpot =>
      have hkept := opens.made.kept hsound
      obtain ⟨k, rfl, hspot⟩ := atSpot.onSpot hkept.sound
      exact ⟨k, t₁, _, _, hkept, hspot, rfl, PartitionWriter.continuing_wrote (.file k) _ t₁,
        .inr ⟨absent, rfl, PartitionWriter.continuing_nextOffset _ _ _⟩⟩

/-- A line is sent to the partition: it goes behind what is held for it, `ys` of both goes to the file,
and the writer `w'` holds the rest. -/
structure SendsLine (pr : Producer) (t : FileTree) (root rp : Path) (ticket : Ticket)
    (request : AppendRequest) (key : PartitionKey) (k : Nat) (t₁ : FileTree) (held : Bytes)
    (offset : Nat) (ys : Bytes) (w' : PartitionWriter) : Prop where
  isOpen : pr.closed = false
  oneLine : '\n' ∉ request.payload.toList
  kept : Kept root rp t t₁
  spot : OnSpot t₁ rp key k
  sent : pr.send root ticket request t = (.ok (),
    { pr with
      writers := Assoc.put key w' pr.writers
      pending := pr.pending ++ [(ticket, ⟨request.topic, request.partition, offset⟩)] },
    t₁.append (.file k) ys)
  handle : w'.handle = .file k
  next : w'.nextOffset = offset + 1
  buffer : ys ++ w'.buffer = held ++ (utf8 request.payload ++ [lineFeed])
  finds : pr.Finds t root key held offset

/-- **A send** fails, and no partition has changed, or it sends a line. -/
theorem send_cases (hroot : t.find root = .ok (rp, .directory)) (hsound : t.Sound)
    (hplaced : pr.writers.Placed t rp) (ticket : Ticket) (request : AppendRequest) :
    (∃ e t', pr.send root ticket request t = (.error e, pr, t') ∧ Kept root rp t t') ∨
      ∃ k t₁ held offset ys w', pr.SendsLine t root rp ticket request
        (request.topic, request.partition) k t₁ held offset ys w' := by
  rcases send_made hroot hsound.standing pr ticket request with ⟨e, hsend, -⟩ |
    ⟨e, t', hsend, hrefuses⟩ |
    ⟨⟨hopen, hbreak⟩, s, hsend, ⟨w, t₀⟩, offset, w', t', hprovides, hline, rfl⟩
  · exact .inl ⟨e, t, hsend, .refl hroot hsound⟩
  · exact .inl ⟨e, t', hsend, hrefuses.topic.made.kept hsound⟩
  · obtain ⟨k, t₁, w₀, bs, hkept, hspot, hhandle, hwrote, hfinds⟩ :=
      finds_of_provides hroot hsound hplaced hprovides
    obtain ⟨ys, w'', hwrite, hhandle', hnext, hbuffer⟩ := hwrote.line hhandle (utf8 request.payload)
    rw [hwrite] at hline
    cases hline
    exact .inr ⟨k, t₁, _, _, ys, w', hopen, hbreak, hkept, hspot, hsend, hhandle', hnext, hbuffer,
      hfinds⟩

section Settling

variable (hplaced : pr.writers.Placed t rp) (hroot : t.find root = .ok (rp, .directory))
  (hsound : t.Sound)

include hplaced hroot hsound

/-- **A flush** of a producer that is open adds all that is held, and answers with the places. -/
theorem flush_open (hopen : pr.closed = false) : ∃ t',
    pr.flush t = (.ok (), pr.pending.map fun x => (x.1, .ok x.2),
      { pr with writers := pr.writers.emptied, pending := [] }, t') ∧
    Added root rp t t' pr.writers.buffered := by
  obtain ⟨t', -, hsync, hadded⟩ := hplaced.spillAll hroot hsound
  refine ⟨t', ?_, hadded⟩
  rw [flush, if_neg (ne_true_of_eq_false hopen), settle, hsync]
  rfl

/-- **A close** does the same, and lets go of the files. -/
theorem close_open (hopen : pr.closed = false) : ∃ t',
    pr.close t = (.ok (), pr.pending.map fun x => (x.1, .ok x.2), ⟨[], [], true⟩, t') ∧
    Added root rp t t' pr.writers.buffered := by
  obtain ⟨t₁, -, hsync, hadded⟩ := hplaced.spillAll hroot hsound
  obtain ⟨t', hspill, -, hadded'⟩ :=
    (hplaced.emptied.keeps hadded.files).spillAll hadded.found hadded.sound
  have hall := hadded.trans hadded'
  refine ⟨t', ?_, hall.found, hall.sound, hall.files, fun key => ?_⟩
  · rw [close, if_neg (ne_true_of_eq_false hopen), settle, hsync]
    dsimp only
    rw [hspill]
    rfl
  · rw [hall.bytes, Writers.buffered_emptied, List.append_nil]

/-- **A drop** adds all that is held, and answers what is on its way by the closing. -/
theorem drop_adds : ∃ t',
    pr.drop t = (pr.pending.map fun x => (x.1, .error .closed), ⟨[], [], true⟩, t') ∧
    Added root rp t t' pr.writers.buffered := by
  obtain ⟨t', hspill, -, hadded⟩ := hplaced.spillAll hroot hsound
  refine ⟨t', ?_, hadded⟩
  rw [drop, hspill]

end Settling

end Producer

end SchemaHistory.FileLog
