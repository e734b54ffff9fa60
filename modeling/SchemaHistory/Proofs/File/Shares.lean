import SchemaHistory.Proofs.File.Sending

/-!
# What each partition gets of the calls of a producer

One producer writes to many partitions, and its flushes and failures concern all of them. Still
each partition is on its own: what its file holds, and what is held back for it, follows from the
lines that were sent to it and from the flushes, through a buffer that knows of no other
partition. A call that sends elsewhere may make directories and files, but nothing that this
partition could notice. So a run that is seen from one partition is the run of its own calls.
-/

namespace SchemaHistory.FileLog

open FileTree Text

/-! ## Through the buffer -/

/-- What goes to the file, and what the buffer holds then, when bytes are written behind what it
holds. -/
def staged (held bs : Bytes) : Bytes × Bytes :=
  let (out, held) := if bufferSize < held.length + bs.length then (held, []) else ([], held)
  if bs.length < bufferSize then (out, held ++ bs) else (out ++ bs, held)

/-- Nothing is lost, and nothing overtakes. -/
theorem staged_append (held bs : Bytes) : (staged held bs).1 ++ (staged held bs).2 = held ++ bs := by
  rw [staged]
  by_cases hroom : bufferSize < held.length + bs.length
  · rw [if_pos hroom]
    dsimp only
    split
    · rfl
    · exact List.append_nil _
  · rw [if_neg hroom]
    dsimp only
    split
    · rfl
    · -- what is as large as a buffer fits only behind an empty one
      have hempty : held = [] := List.eq_nil_of_length_eq_zero (by omega)
      rw [hempty, List.append_nil]

theorem PartitionWriter.write_staged (w : PartitionWriter) (bs : Bytes) (t : FileTree) :
    w.write bs t = ({ w with buffer := (staged w.buffer bs).2 },
      t.append w.handle (staged w.buffer bs).1) := by
  rw [PartitionWriter.write, staged]
  by_cases hroom : bufferSize < w.buffer.length + bs.length
  · rw [if_pos hroom, if_pos hroom]
    dsimp only [PartitionWriter.spill]
    split
    · rfl
    · rw [append_append]
  · rw [if_neg hroom, if_neg hroom]
    dsimp only
    split
    · rw [FileTree.append_nil]
    · rfl

/-! ## The share of one partition -/

/-- What the file of a partition holds, and what a producer holds back for it, if it has opened it. -/
@[ext] structure Share where
  file : Bytes
  held : Option Bytes

namespace Share

/-- What is in the file and what is held back. -/
def total (c : Share) : Bytes := c.file ++ c.held.getD []

/-- Bytes are written behind what is held back. -/
def write (c : Share) (bs : Bytes) : Share :=
  let (out, held) := staged (c.held.getD []) bs
  ⟨c.file ++ out, some held⟩

/-- The partition is opened, if it is not, and a torn line is ended. -/
def opened (c : Share) : Share :=
  match c.held with
  | some _ => c
  | none => if isTorn c.file then (⟨c.file, some []⟩ : Share).write [lineFeed] else ⟨c.file, some []⟩

/-- A line is sent to the partition. -/
def send (c : Share) (line : Bytes) : Share := (c.opened.write line).write [lineFeed]

/-- What is held back goes to the file. -/
def flush (c : Share) : Share := ⟨c.total, c.held.map fun _ => []⟩

theorem total_write (c : Share) (bs : Bytes) : (c.write bs).total = c.total ++ bs := by
  show c.file ++ (staged (c.held.getD []) bs).1 ++ (staged (c.held.getD []) bs).2 =
    c.file ++ c.held.getD [] ++ bs
  rw [List.append_assoc, staged_append, List.append_assoc]

theorem total_opened (c : Share) :
    c.opened.total = c.total ++ if c.held = none then repair c.file else [] := by
  obtain ⟨file, held⟩ := c
  cases held with
  | some bs => exact (List.append_nil _).symm
  | none =>
      rw [opened, if_pos rfl, repair]
      dsimp only
      split
      · rw [total_write]
        rfl
      · exact (List.append_nil _).symm

theorem total_send (c : Share) (line : Bytes) : (c.send line).total =
    c.total ++ (if c.held = none then repair c.file else []) ++ (line ++ [lineFeed]) := by
  rw [send, total_write, total_write, total_opened, List.append_assoc]

theorem total_flush (c : Share) : c.flush.total = c.total := by
  rw [flush, total]
  cases c.held <;> exact List.append_nil _

end Share

/-! ## The calls of a producer -/

/-- What is asked of a producer before it is closed. -/
inductive ProducerCall
  | send (ticket : Ticket) (request : AppendRequest)
  | flush

namespace ProducerCall

/-- The producer and the files after a call. -/
def act (root : Path) (s : Producer × FileTree) : ProducerCall → Producer × FileTree
  | send ticket request => (s.1.send root ticket request s.2).2
  | flush => (s.1.flush s.2).2.2

/-- The line that a call sends to the partition. What is more than a line is refused. -/
def line? (key : PartitionKey) : ProducerCall → Option Bytes
  | send _ request =>
    if (request.topic, request.partition) = key ∧ '\n' ∉ request.payload.toList then
      some (utf8 request.payload)
    else none
  | flush => none

/-- What a call does to the share of the partition. -/
def share (key : PartitionKey) (c : Share) : ProducerCall → Share
  | send ticket request => (((send ticket request).line? key).map c.send).getD c
  | flush => c.flush

/-- The call is a flush, or sends to the partition. -/
def concerns (key : PartitionKey) : ProducerCall → Bool
  | send _ request => (request.topic, request.partition) = key
  | flush => true

end ProducerCall

/-- What a partition is to a producer with these writers. -/
def Writers.share (root : Path) (key : PartitionKey) (ws : Writers) (t : FileTree) : Share :=
  ⟨partitionBytes root t key, (Assoc.get? ws key).map PartitionWriter.buffer⟩

/-- What a partition is to a producer. -/
def shareOf (root : Path) (key : PartitionKey) (s : Producer × FileTree) : Share :=
  s.1.writers.share root key s.2

/-! ## Adding at one spot -/

section Spots

variable {t t' : FileTree} {root rp : Path} {key other : PartitionKey} {handle : Handle}

theorem AtSpot.grown (h : AtSpot t rp key handle) (hnodes : t.Extends t') : AtSpot t' rp key handle :=
  ⟨h.fits, hnodes _ _ h.node⟩

theorem AtSpot.bytes_other (h : AtSpot t rp key handle) (hroot : t.find root = .ok (rp, .directory))
    (hstanding : t.Standing) (hother : other ≠ key) (ys : Bytes) :
    partitionBytes root (t.append handle ys) other = partitionBytes root t other := by
  cases handle with
  | nullDevice => rfl
  | file k => rw [partitionBytes_append hstanding hroot ⟨h.fits, h.node⟩, if_neg hother]

theorem AtSpot.bytes_own (h : AtSpot t rp key handle) (hroot : t.find root = .ok (rp, .directory))
    (hstanding : t.Standing) (hfile : Assoc.get? t.nodes (spot rp key) ≠ some .nullDevice)
    (ys : Bytes) :
    partitionBytes root (t.append handle ys) key = partitionBytes root t key ++ ys := by
  cases handle with
  | nullDevice => exact absurd h.node hfile
  | file k => rw [partitionBytes_append hstanding hroot ⟨h.fits, h.node⟩, if_pos rfl]

/-- Whether a partition can be opened shows in the nodes. -/
theorem openable_nodes (h : t'.nodes = t.nodes) : Openable t' rp key ↔ Openable t rp key :=
  ⟨fun ho => ⟨ho.fits, h ▸ ho.topic, h ▸ ho.file⟩,
    fun ho => ⟨ho.fits, h.symm ▸ ho.topic, h.symm ▸ ho.file⟩⟩

end Spots

/-! ## A writer on a file -/

/-- A writer, with the files, is open on the file at the spot of its partition. -/
structure Serving (root rp : Path) (key : PartitionKey) (r : PartitionWriter × FileTree) : Prop where
  found : r.2.find root = .ok (rp, .directory)
  standing : r.2.Standing
  atSpot : AtSpot r.2 rp key r.1.handle
  file : Assoc.get? r.2.nodes (spot rp key) ≠ some .nullDevice

namespace Serving

variable {root rp : Path} {key : PartitionKey} {r : PartitionWriter × FileTree}

/-- What the partition is to the writer. -/
def share (root : Path) (key : PartitionKey) (r : PartitionWriter × FileTree) : Share :=
  ⟨partitionBytes root r.2 key, some r.1.buffer⟩

theorem write (h : Serving root rp key r) (bs : Bytes) : Serving root rp key (r.1.write bs r.2) ∧
    share root key (r.1.write bs r.2) = (share root key r).write bs := by
  rw [PartitionWriter.write_staged]
  have hnodes := append_nodes (t := r.2) r.1.handle (staged r.1.buffer bs).1
  refine ⟨⟨(find_nodes hnodes root).trans h.found, h.standing.append _ _,
    ⟨h.atSpot.fits, ?_⟩, ?_⟩, ?_⟩
  · rw [hnodes]
    exact h.atSpot.node
  · rw [hnodes]
    exact h.file
  · rw [share]
    dsimp only
    rw [h.atSpot.bytes_own h.found h.standing h.file]
    rfl

theorem writeLine (h : Serving root rp key r) (line : Bytes) :
    share root key (r.1.writeLine line r.2).2 =
      ((share root key r).write line).write [lineFeed] := by
  obtain ⟨hserving, hline⟩ := h.write line
  obtain ⟨-, hfeed⟩ := hserving.write [lineFeed]
  rw [← hline, ← hfeed]
  rfl

/-- A writer that was just opened ends a torn line. -/
theorem continuing {t : FileTree} {handle : Handle} (hroot : t.find root = .ok (rp, .directory))
    (hstanding : t.Standing) (hspot : AtSpot t rp key handle)
    (hfile : Assoc.get? t.nodes (spot rp key) ≠ some .nullDevice) :
    Serving root rp key (PartitionWriter.continuing handle (partitionBytes root t key) t) ∧
      share root key (PartitionWriter.continuing handle (partitionBytes root t key) t) =
        (⟨partitionBytes root t key, none⟩ : Share).opened := by
  have h : Serving root rp key (⟨handle, [], lineCount (partitionBytes root t key)⟩, t) :=
    ⟨hroot, hstanding, hspot, hfile⟩
  rw [PartitionWriter.continuing, Share.opened]
  dsimp only
  split
  · obtain ⟨hserving, hshare⟩ := h.write [lineFeed]
    exact ⟨⟨hserving.found, hserving.standing, hserving.atSpot, hserving.file⟩, hshare⟩
  · exact ⟨h, rfl⟩

end Serving

/-! ## Between two calls -/

/-- A producer that is open, and the files: each of its writers is open on what stands at the spot
of its partition. -/
structure Tended (root rp : Path) (s : Producer × FileTree) : Prop where
  found : s.2.find root = .ok (rp, .directory)
  standing : s.2.Standing
  isOpen : s.1.closed = false
  keys : (s.1.writers.map Prod.fst).Nodup
  spots : ∀ key w, Assoc.get? s.1.writers key = some w → AtSpot s.2 rp key w.handle

section Tended

variable {root rp : Path} {s s' : Producer × FileTree} {key other : PartitionKey}
  {r : PartitionWriter × FileTree}

/-- A call has not touched what the partition is to the producer. -/
structure Untouched (root rp : Path) (key : PartitionKey) (s s' : Producer × FileTree) : Prop where
  openable : Openable s'.2 rp key ↔ Openable s.2 rp key
  share : shareOf root key s' = shareOf root key s

/-- The links to the device are the same. -/
def SameLinks (t t' : FileTree) : Prop :=
  ∀ path, Assoc.get? t'.nodes path = some .nullDevice ↔ Assoc.get? t.nodes path = some .nullDevice

theorem Made.sameLinks {t t' : FileTree} (h : Made root rp t t') : SameLinks t t' :=
  fun path => ⟨h.links path, h.nodes path _⟩

theorem Tended.refused (h : Tended root rp s) {t' : FileTree}
    (hrefuses : Refuses root rp s.1 key s.2 t') : Tended root rp (s.1, t') ∧ SameLinks s.2 t' ∧
      ∀ other, Untouched root rp other s (s.1, t') := by
  have hmade := hrefuses.topic.made
  refine ⟨⟨hmade.found, hmade.standing, h.isOpen, h.keys,
    fun key w hw => (h.spots key w hw).grown hmade.nodes⟩, hmade.sameLinks,
    fun other => ⟨hrefuses.topic.openable_iff other, ?_⟩⟩
  rw [shareOf, Writers.share, hmade.bytes]
  rfl

/-- What a writer that is provided has behind it: directories and files may have been made, and
some bytes were written at the spot of the partition. -/
theorem Tended.provided (h : Tended root rp s) (hr : Provides root rp s.1 s.2 key r) :
    ∃ t₁, ∃ w₀ : PartitionWriter, ∃ bs, Made root rp s.2 t₁ ∧ AtSpot t₁ rp key w₀.handle ∧
      w₀.Wrote t₁ bs r ∧ ∀ other, other ≠ key → (Openable t₁ rp other ↔ Openable s.2 rp other) := by
  cases hr with
  | @there w present =>
      exact ⟨s.2, w, [], .refl h.found h.standing, h.spots key w present,
        ⟨rfl, [], (FileTree.append_nil _).symm, by simp⟩, fun _ _ => Iff.rfl⟩
  | opened absent openable opens atSpot =>
      exact ⟨_, _, _, opens.made, atSpot, PartitionWriter.continuing_wrote _ _ _,
        fun _ hother => opens.openable_iff hother⟩

/-- A line that is written at one spot touches no other partition. -/
theorem Tended.sends (h : Tended root rp s) {ticket : Ticket} {request : AppendRequest}
    (hs : Sends root rp s.1 s.2 ticket request s') : Tended root rp s' ∧ SameLinks s.2 s'.2 ∧
      ∀ other, other ≠ (request.topic, request.partition) → Untouched root rp other s s' := by
  obtain ⟨r, offset, w', t', hr, hline, rfl⟩ := hs
  obtain ⟨t₁, w₀, bs, hmade, hspot, hwrote, hopenable⟩ := h.provided hr
  have hwritten := hwrote.trans (r.1.writeLine_wrote (utf8 request.payload) r.2)
  rw [hline] at hwritten
  obtain ⟨hhandle, ys, rfl, -⟩ := hwritten
  have hnodes := append_nodes (t := t₁) w₀.handle ys
  refine ⟨⟨(find_nodes hnodes root).trans hmade.found, hmade.standing.append _ _, h.isOpen,
    Assoc.nodup_put h.keys _ _, fun key w hw => ?_⟩, fun path => ?_,
    fun other hother => ⟨?_, ?_⟩⟩
  · have hat : AtSpot t₁ rp key w.handle := by
      rw [Assoc.get?_put] at hw
      split at hw
      · rename_i hkey
        cases hw
        rw [← hkey, hhandle]
        exact hspot
      · exact (h.spots key w hw).grown hmade.nodes
    exact ⟨hat.fits, hnodes.symm ▸ hat.node⟩
  · rw [hnodes]
    exact hmade.sameLinks path
  · exact (openable_nodes hnodes).trans (hopenable other hother)
  · rw [shareOf, Writers.share, hspot.bytes_other hmade.found hmade.standing hother, hmade.bytes,
      Assoc.get?_put, if_neg (Ne.symm hother)]
    rfl

/-- A writer that is provided stands where the partition was opened. -/
theorem Tended.serving (h : Tended root rp s) (hr : Provides root rp s.1 s.2 key r)
    (hfile : Assoc.get? s.2.nodes (spot rp key) ≠ some .nullDevice) :
    Serving root rp key r ∧ Serving.share root key r = (shareOf root key s).opened := by
  cases hr with
  | @there w present =>
      refine ⟨⟨h.found, h.standing, h.spots key w present, hfile⟩, ?_⟩
      rw [shareOf, Writers.share, present]
      rfl
  | @opened handle t₁ absent openable opens atSpot =>
      have hmade := opens.made
      have hfile₁ := fun hn => hfile (hmade.links _ hn)
      obtain ⟨hserving, hshare⟩ :=
        Serving.continuing hmade.found hmade.standing atSpot hfile₁
      rw [hmade.bytes] at hserving hshare
      refine ⟨hserving, ?_⟩
      rw [hshare, shareOf, Writers.share, absent]
      rfl

/-- A line that is written to a file goes behind what is held back for it. -/
theorem Tended.share_sends (h : Tended root rp s) {ticket : Ticket} {request : AppendRequest}
    (hs : Sends root rp s.1 s.2 ticket request s')
    (hfile : Assoc.get? s.2.nodes (spot rp (request.topic, request.partition)) ≠ some .nullDevice) :
    shareOf root (request.topic, request.partition) s' =
      (shareOf root (request.topic, request.partition) s).send (utf8 request.payload) := by
  obtain ⟨r, offset, w', t', hr, hline, rfl⟩ := hs
  obtain ⟨hserving, hshare⟩ := h.serving hr hfile
  have hwritten := hserving.writeLine (utf8 request.payload)
  rw [hline, hshare] at hwritten
  rw [Share.send, ← hwritten, shareOf, Writers.share, Assoc.get?_put, if_pos rfl]
  rfl

end Tended

/-! ## Flushing -/

section Flushing

variable {root rp : Path} {t : FileTree} {ws : Writers} {key : PartitionKey}

/-- Without a writer nothing is held back, and a flush changes nothing. -/
theorem Writers.share_flush_absent (habsent : Assoc.get? ws key = none) (root : Path)
    (t : FileTree) : (ws.share root key t).flush = ws.share root key t := by
  rw [share, habsent]
  exact congrArg₂ Share.mk (List.append_nil _) rfl

theorem Writers.share_other {k : PartitionKey} (h : key ≠ k) (root : Path) (w : PartitionWriter)
    (ws : Writers) (t : FileTree) : share root key ((k, w) :: ws) t = ws.share root key t := by
  rw [share, share, Assoc.get?, if_neg (Ne.symm h)]

/-- What storing the files of the writers leads to: each share that is on a file was flushed, or
the storing has failed before it came to that. -/
structure Synced (root rp : Path) (ws : Writers) (t : FileTree)
    (r : Except SystemError Unit × Writers × FileTree) : Prop where
  handles : ∀ key, (Assoc.get? r.2.1 key).map PartitionWriter.handle =
    (Assoc.get? ws key).map PartitionWriter.handle
  shares : ∀ key, Assoc.get? t.nodes (spot rp key) ≠ some .nullDevice →
    r.2.1.share root key r.2.2 = (ws.share root key t).flush ∨
      r.1 ≠ .ok () ∧ r.2.1.share root key r.2.2 = ws.share root key t
  stored : (∀ path, Assoc.get? t.nodes path ≠ some .nullDevice) → r.1 = .ok ()

/-- **Storing the files** of the writers, one after another up to the first failure. -/
theorem Writers.syncAll_synced (hroot : t.find root = .ok (rp, .directory)) (hstanding : t.Standing)
    (hkeys : (ws.map Prod.fst).Nodup)
    (hspots : ∀ key w, (key, w) ∈ ws → AtSpot t rp key w.handle) :
    Synced root rp ws t (ws.syncAll t) := by
  induction ws generalizing t with
  | nil =>
      exact ⟨fun _ => rfl, fun key _ => .inl (share_flush_absent rfl root t).symm, fun _ => rfl⟩
  | cons x ws ih =>
      obtain ⟨k, handle, buffer, next⟩ := x
      have hspot : AtSpot t rp k handle := hspots k ⟨handle, buffer, next⟩ (by simp)
      obtain ⟨hnew, hrestKeys⟩ := List.nodup_cons.mp hkeys
      rw [Writers.syncAll, PartitionWriter.spill]
      dsimp only
      cases handle with
      | nullDevice =>
          -- the failure leaves the files of the others, and this one is the device
          rw [sync]
          dsimp only
          refine ⟨fun key => ?_, fun key hfile => .inr ⟨by simp, ?_⟩,
            fun hplain => absurd hspot.node (hplain _)⟩
          · rw [Assoc.get?, Assoc.get?]
            split <;> rfl
          · have hother : key ≠ k := by
              rintro rfl
              exact hfile hspot.node
            rw [share_other hother, share_other hother]
            rfl
      | file j =>
          have hnodes := append_nodes (t := t) (.file j) buffer
          have hrest := ih ((find_nodes hnodes root).trans hroot) (hstanding.append _ _) hrestKeys
            fun key w hw =>
              have hat := hspots key w (List.mem_cons_of_mem _ hw)
              ⟨hat.fits, hnodes.symm ▸ hat.node⟩
          rw [sync]
          dsimp only
          refine ⟨fun key => ?_, fun key hfile => ?_,
            fun hplain => hrest.stored (hnodes.symm ▸ hplain)⟩
          · rw [Assoc.get?, Assoc.get?]
            split
            · rfl
            · exact hrest.handles key
          · have hshares := hrest.shares key (hnodes.symm ▸ hfile)
            by_cases hkey : key = k
            · -- what comes after has no writer for this partition
              subst hkey
              rw [share_flush_absent (Assoc.get?_eq_none.mpr hnew)] at hshares
              have hbytes := congrArg Share.file (hshares.elim id And.right)
              left
              rw [share, share, Assoc.get?, if_pos rfl, Assoc.get?, if_pos rfl]
              refine congrArg₂ Share.mk (hbytes.trans ?_) rfl
              exact hspot.bytes_own hroot hstanding hfile buffer
            · have hbefore : share root key ws (t.append (.file j) buffer) = share root key ws t :=
                congrArg₂ Share.mk (hspot.bytes_other hroot hstanding hkey buffer) rfl
              rw [hbefore] at hshares
              rw [share_other hkey, share_other hkey]
              exact hshares

/-- **A flush** of a producer that is open: each share that is on a file is flushed, or the flush
fails before it comes to that. Without links to the device it does not fail. -/
theorem Tended.flush {s : Producer × FileTree} (h : Tended root rp s) :
    Tended root rp (ProducerCall.flush.act root s) ∧
      (ProducerCall.flush.act root s).2.nodes = s.2.nodes ∧
      (∀ key, Assoc.get? s.2.nodes (spot rp key) ≠ some .nullDevice →
        shareOf root key (ProducerCall.flush.act root s) = (shareOf root key s).flush ∨
          (s.1.flush s.2).1 ≠ .ok () ∧
            shareOf root key (ProducerCall.flush.act root s) = shareOf root key s) ∧
      ((∀ path, Assoc.get? s.2.nodes path ≠ some .nullDevice) → (s.1.flush s.2).1 = .ok ()) := by
  have hsynced := Writers.syncAll_synced h.found h.standing h.keys
    fun key w hw => h.spots key w (Assoc.get?_of_mem h.keys hw)
  have hkeys := s.1.writers.syncAll_keys s.2
  have hstanding : (s.1.writers.syncAll s.2).2.2.Standing :=
    Writers.syncAll_preserves (fun _ handle bs ht => ht.append handle bs) _ h.standing
  have hnodes := s.1.writers.syncAll_nodes s.2
  rw [ProducerCall.act, Producer.flush, if_neg (ne_true_of_eq_false h.isOpen), Producer.settle]
  generalize s.1.writers.syncAll s.2 = r at hsynced hkeys hstanding hnodes
  obtain ⟨result, ws, t'⟩ := r
  dsimp only at hsynced hkeys hstanding hnodes ⊢
  refine ⟨⟨(find_nodes hnodes root).trans h.found, hstanding, h.isOpen, hkeys ▸ h.keys,
    fun key w hw => ?_⟩, hnodes, fun key hfile => ?_, fun hplain => ?_⟩
  · have hhandle := hsynced.handles key
    rw [hw] at hhandle
    obtain ⟨w₀, hw₀, he⟩ := Option.map_eq_some_iff.mp hhandle.symm
    have hat := h.spots key w₀ hw₀
    rw [he] at hat
    exact ⟨hat.fits, hnodes.symm ▸ hat.node⟩
  · refine (hsynced.shares key hfile).imp_right fun hfails => ⟨?_, hfails.2⟩
    cases result with
    | ok u => exact absurd rfl hfails.1
    | error e => simp
  · have hok : result = .ok () := hsynced.stored hplain
    rw [hok]

/-- If it does not fail, the file of a partition holds what was there and what was held back. -/
theorem Tended.flush_bytes {s : Producer × FileTree} (h : Tended root rp s)
    (hfile : Assoc.get? s.2.nodes (spot rp key) ≠ some .nullDevice)
    (hstored : (s.1.flush s.2).1 = .ok ()) :
    partitionBytes root (s.1.flush s.2).2.2.2 key = (shareOf root key s).total := by
  rcases h.flush.2.2.1 key hfile with hflushed | ⟨hfails, -⟩
  · exact congrArg Share.file hflushed
  · exact absurd hstored hfails

end Flushing

end SchemaHistory.FileLog
