import SchemaHistory.History
import SchemaHistory.Proofs.File.Writer
import SchemaHistory.Proofs.Payload

/-!
# What is left of what was written

A store puts a record's payload and a line feed behind what the partition holds. A crash
inside it leaves a number of these bytes, counted from the first. So the partition is a list
of pieces of payloads, each on its line, and perhaps one more piece behind the last line. The
ledger keeps these pieces. It knows nothing of bytes but how many were left of which record,
and its own bytes are the bytes of the partition.
-/

namespace SchemaHistory

open Text FileLog

/-- The first bytes of the payload of a record. -/
structure Piece where
  record : Record
  /-- How many bytes there are. -/
  kept : Nat

namespace Piece

/-- The bytes. -/
def line (p : Piece) : Bytes := (utf8 p.record.payload).take p.kept

/-- All of the payload is there. -/
def isWhole (p : Piece) : Bool := (utf8 p.record.payload).length ≤ p.kept

/-- What is read from the piece, when it has become a line. -/
def reading (p : Piece) : Option Record := if p.isWhole then p.record.returned else none

/-- The whole payload of a record. -/
def ofRecord (r : Record) : Piece := ⟨r, (utf8 r.payload).length⟩

theorem isWhole_ofRecord (r : Record) : (ofRecord r).isWhole = true := by
  simp [isWhole, ofRecord]

theorem line_ofRecord (r : Record) : (ofRecord r).line = utf8 r.payload := List.take_length

theorem lineFeed_not_mem_line (p : Piece) : lineFeed ∉ p.line :=
  fun h => Record.lineFeed_not_mem_payload p.record (List.mem_of_mem_take h)

theorem line_ne_nil {p : Piece} (h : 0 < p.kept) : p.line ≠ [] := by
  intro hnil
  rcases List.take_eq_nil_iff.mp hnil with hkept | hpayload
  · omega
  · exact Record.payload_ne_nil p.record hpayload

/-- A line gives a record only if all of its payload is there. -/
theorem ofLine_line (p : Piece) : Record.ofLine p.line = p.reading := by
  unfold reading isWhole line
  by_cases h : (utf8 p.record.payload).length ≤ p.kept
  · rw [if_pos (by simpa using h), List.take_of_length_le h]
    exact Record.ofLine_payload p.record
  · rw [if_neg (by simpa using h)]
    exact Record.ofLine_take (Nat.lt_of_not_le h)

end Piece

/-- The pieces of payloads that a partition holds. -/
structure Ledger where
  /-- Those that have become lines. -/
  lines : List Piece
  /-- The one behind the last line, if there is one. -/
  tail : Option Piece

namespace Ledger

/-- Nothing was written. -/
def empty : Ledger := ⟨[], none⟩

/-- The tail becomes a line. -/
def repaired (l : Ledger) : Ledger := ⟨l.lines ++ l.tail.toList, none⟩

/-- The first `n` bytes of a record's payload and its line feed come behind the last line. -/
def put (l : Ledger) (r : Record) (n : Nat) : Ledger :=
  if n = 0 then l
  else if n ≤ (utf8 r.payload).length then { l with tail := some ⟨r, n⟩ }
  else { l with lines := l.lines ++ [.ofRecord r] }

/-- A record is stored. -/
def store (l : Ledger) (r : Record) : Ledger := l.repaired.put r ((utf8 r.payload).length + 1)

/-- A crash leaves the first `n` bytes of what the store of a record appends. If there is a tail, the
first of them ends it. -/
def crash (l : Ledger) (r : Record) (n : Nat) : Ledger :=
  match l.tail with
  | none => l.put r n
  | some _ =>
    match n with
    | 0 => l
    | n + 1 => l.repaired.put r n

/-- The records of which all of the payload has become a line. -/
def whole (l : Ledger) : List Record := (l.lines.filter Piece.isWhole).map Piece.record

/-- The records of which something is there. -/
def records (l : Ledger) : List Record := (l.lines ++ l.tail.toList).map Piece.record

/-- The bytes behind the last line. -/
def tailBytes (l : Ledger) : Bytes := (l.tail.map Piece.line).getD []

/-- The bytes of the partition. -/
def bytes (l : Ledger) : Bytes := ended (l.lines.map Piece.line) ++ l.tailBytes

/-- If there is a tail it has bytes. -/
def Sound (l : Ledger) : Prop := ∀ p, l.tail = some p → 0 < p.kept

/-! ## Its bytes -/

variable {l : Ledger}

theorem lined (l : Ledger) : Lined l.bytes (l.lines.map Piece.line) l.tailBytes := by
  refine ⟨rfl, fun line hline => ?_, ?_⟩
  · obtain ⟨p, -, rfl⟩ := List.mem_map.mp hline
    exact p.lineFeed_not_mem_line
  · unfold tailBytes
    cases l.tail with
    | none => exact List.not_mem_nil
    | some p => exact p.lineFeed_not_mem_line

theorem repair_bytes (h : l.Sound) :
    repair l.bytes = if l.tail.isSome then [lineFeed] else [] := by
  rw [repair, l.lined.isTorn_eq, tailBytes]
  cases ht : l.tail with
  | none => rfl
  | some p => simp [Piece.line_ne_nil (h p ht)]

theorem sound_repaired (l : Ledger) : l.repaired.Sound := fun p hp => by cases hp

theorem bytes_repaired (h : l.Sound) : l.repaired.bytes = l.bytes ++ repair l.bytes := by
  rw [repair_bytes h]
  obtain ⟨lines, tail⟩ := l
  cases tail with
  | none => simp [repaired, bytes, tailBytes]
  | some p =>
      simp [repaired, bytes, tailBytes, ended_append, ended_singleton]

theorem sound_put (h : l.Sound) (r : Record) (n : Nat) : (l.put r n).Sound := by
  rw [put]
  split
  · exact h
  split
  · rintro p hp
    cases hp
    exact Nat.pos_of_ne_zero (by assumption)
  · exact h

theorem bytes_put (h : l.tail = none) (r : Record) (n : Nat) :
    (l.put r n).bytes = l.bytes ++ (utf8 r.payload ++ [lineFeed]).take n := by
  obtain ⟨lines, tail⟩ := l
  obtain rfl : tail = none := h
  rw [put]
  split
  · rename_i hn
    rw [hn, List.take_zero, List.append_nil]
  split
  · -- the cut is before the line feed, so a tail is left
    rename_i hle
    rw [List.take_append_of_le_length hle]
    simp [bytes, tailBytes, Piece.line]
  · -- all of the payload is there, and the line feed with it
    rename_i hlt
    rw [List.take_of_length_le (by simp; omega)]
    simp [bytes, tailBytes, ended_append, ended_singleton, Piece.line_ofRecord]

theorem sound_store (l : Ledger) (r : Record) : (l.store r).Sound := sound_put l.sound_repaired r _

/-- **A store** appends the payload and a line feed, after a line feed if there is a tail. -/
theorem bytes_store (h : l.Sound) (r : Record) : (l.store r).bytes =
    l.bytes ++ (repair l.bytes ++ (utf8 r.payload ++ [lineFeed])) := by
  rw [store, bytes_put rfl, bytes_repaired h, List.append_assoc,
    List.take_of_length_le (by simp)]

theorem sound_crash (h : l.Sound) (r : Record) (n : Nat) : (l.crash r n).Sound := by
  unfold crash
  split
  · exact sound_put h r n
  split
  · exact h
  · exact sound_put l.sound_repaired r _

/-- **A crash** leaves the first bytes of what the store appends. -/
theorem bytes_crash (h : l.Sound) (r : Record) (n : Nat) : (l.crash r n).bytes =
    l.bytes ++ (repair l.bytes ++ (utf8 r.payload ++ [lineFeed])).take n := by
  unfold crash
  split
  · rename_i hnone
    rw [bytes_put hnone, repair_bytes h, hnone]
    rfl
  · rename_i p hsome
    -- the first byte of the append is the line feed that ends the tail
    have hfeed : repair l.bytes = [lineFeed] := by
      rw [repair_bytes h, hsome]
      rfl
    split
    · rw [List.take_zero, List.append_nil]
    · rw [bytes_put rfl, bytes_repaired h, hfeed, List.append_assoc]
      rfl

/-! ## Its records -/

theorem whole_append (xs : List Piece) (tail tail' : Option Piece) (p : Piece) :
    (⟨xs, tail⟩ : Ledger).whole.Sublist (⟨xs ++ [p], tail'⟩ : Ledger).whole := by
  rw [whole, whole, List.filter_append, List.map_append]
  exact List.sublist_append_left _ _

theorem whole_repaired (l : Ledger) : l.whole.Sublist l.repaired.whole := by
  obtain ⟨lines, tail⟩ := l
  cases tail with
  | none =>
      simpa only [repaired, Option.toList_none, List.append_nil]
        using List.Sublist.refl (⟨lines, none⟩ : Ledger).whole
  | some p => exact whole_append lines _ _ p

theorem whole_put (l : Ledger) (r : Record) (n : Nat) : l.whole.Sublist (l.put r n).whole := by
  rw [put]
  split
  · exact List.Sublist.refl _
  split
  · exact List.Sublist.refl _
  · exact whole_append l.lines _ _ _

/-- A record that was stored is there. -/
theorem whole_store (l : Ledger) (r : Record) : (l.whole ++ [r]).Sublist (l.store r).whole := by
  have hlast : (l.store r).whole = l.repaired.whole ++ [r] := by
    rw [store, put, if_neg (by omega), if_neg (by omega), whole, List.filter_append,
      List.filter_cons_of_pos (Piece.isWhole_ofRecord r), List.map_append]
    rfl
  rw [hlast]
  exact (whole_repaired l).append_right [r]

theorem whole_crash (l : Ledger) (r : Record) (n : Nat) : l.whole.Sublist (l.crash r n).whole := by
  unfold crash
  split
  · exact whole_put l r n
  split
  · exact List.Sublist.refl _
  · exact (whole_repaired l).trans (whole_put _ r _)

theorem records_repaired (l : Ledger) : l.repaired.records = l.records := by
  rw [records, records, repaired, Option.toList_none, List.append_nil]

theorem records_put (h : l.tail = none) (r : Record) (n : Nat) :
    (l.put r n).records.Sublist (l.records ++ [r]) := by
  obtain ⟨lines, tail⟩ := l
  obtain rfl : tail = none := h
  rw [put]
  split
  · exact List.sublist_append_left _ _
  split
  · simp [records]
  · simp [records, Piece.ofRecord]

theorem records_crash (l : Ledger) (r : Record) (n : Nat) :
    (l.crash r n).records.Sublist (l.records ++ [r]) := by
  unfold crash
  split
  · rename_i hnone
    exact records_put hnone r n
  split
  · exact List.sublist_append_left _ _
  · rw [← records_repaired l]
    exact records_put rfl r _

theorem whole_sublist_records (l : Ledger) : l.whole.Sublist l.records := by
  rw [whole, records]
  exact List.Sublist.map _ (List.filter_sublist.trans (List.sublist_append_left _ _))

end Ledger

/-! ## The journal -/

/-- How far a store had come when its process died. -/
inductive Cut
  /-- The directory of the topic was there, and no more was done. -/
  | directory
  /-- The file was open, and so many bytes of what the store appends had reached it. -/
  | kept (bytes : Nat)

/-- A write to a log in files. -/
inductive FileWrite
  | stored (record : Record) (result : Except HistoryError StoreOutcome)
  /-- The process died while a history stored a record, which would have had this result. -/
  | crashed (record : Record) (result : Except HistoryError StoreOutcome) (cut : Cut)

namespace FileWrite

/-- What it was about. -/
def record : FileWrite → Record
  | .stored r _ => r
  | .crashed r _ _ => r

/-- The record, if the call was acknowledged. -/
def acknowledged? : FileWrite → Option Record
  | .stored r (.ok (.acknowledged _)) => some r
  | _ => none

/-- The ledger after a write. A call that fails appends nothing. -/
def enter (l : Ledger) : FileWrite → Ledger
  | .stored r (.ok _) => l.store r
  | .crashed r (.ok _) (.kept n) => l.crash r n
  | _ => l

end FileWrite

/-- The ledger of a journal. -/
def Ledger.ofJournal (ws : List FileWrite) : Ledger := ws.foldl FileWrite.enter .empty

namespace FileWrite

variable {l : Ledger}

theorem enter_sound (h : l.Sound) (w : FileWrite) : (enter l w).Sound := by
  unfold enter
  split
  · exact l.sound_store _
  · exact Ledger.sound_crash h _ _
  · exact h

theorem enter_whole (l : Ledger) (w : FileWrite) :
    (l.whole ++ w.acknowledged?.toList).Sublist (enter l w).whole := by
  unfold enter
  split
  · rename_i r o
    refine List.Sublist.trans ?_ (l.whole_store r)
    rw [List.append_sublist_append_left]
    cases o with
    | acknowledged p => exact List.Sublist.refl _
    | _ => exact List.nil_sublist _
  · rename_i r o n
    rw [show (crashed r (.ok o) (.kept n)).acknowledged? = none from rfl, Option.toList_none,
      List.append_nil]
    exact l.whole_crash r n
  · -- a call that failed was not acknowledged
    rename_i hstored hcrashed
    have hnone : w.acknowledged? = none := by
      unfold acknowledged?
      split
      · exact absurd rfl (hstored _ _)
      · rfl
    simpa only [hnone, Option.toList_none, List.append_nil] using List.Sublist.refl l.whole

theorem enter_records (l : Ledger) (w : FileWrite) :
    (enter l w).records.Sublist (l.records ++ [w.record]) := by
  unfold enter
  split
  · rw [← Ledger.records_repaired l]
    exact Ledger.records_put rfl _ _
  · exact l.records_crash _ _
  · exact List.sublist_append_left _ _

/-! ### All writes -/

theorem foldl_enter_sound (h : l.Sound) (ws : List FileWrite) : (ws.foldl enter l).Sound := by
  induction ws generalizing l with
  | nil => exact h
  | cons w ws ih => exact ih (enter_sound h w)

theorem foldl_enter_whole (l : Ledger) (ws : List FileWrite) :
    (l.whole ++ ws.filterMap acknowledged?).Sublist (ws.foldl enter l).whole := by
  induction ws generalizing l with
  | nil =>
      rw [List.filterMap_nil, List.append_nil]
      exact List.Sublist.refl _
  | cons w ws ih =>
      have hfirst : (w :: ws).filterMap acknowledged? =
          w.acknowledged?.toList ++ ws.filterMap acknowledged? := by
        rw [List.filterMap_cons]
        cases w.acknowledged? <;> rfl
      rw [hfirst, ← List.append_assoc]
      exact ((enter_whole l w).append_right _).trans (ih (enter l w))

theorem foldl_enter_records (l : Ledger) (ws : List FileWrite) :
    (ws.foldl enter l).records.Sublist (l.records ++ ws.map record) := by
  induction ws generalizing l with
  | nil =>
      rw [List.map_nil, List.append_nil]
      exact List.Sublist.refl _
  | cons w ws ih =>
      refine (ih (enter l w)).trans ?_
      have := (enter_records l w).append_right (ws.map record)
      rwa [List.append_assoc] at this

end FileWrite

namespace Ledger

theorem sound_ofJournal (ws : List FileWrite) : (ofJournal ws).Sound :=
  FileWrite.foldl_enter_sound (fun p hp => by cases hp) ws

/-- Every record that was acknowledged is there, in the order of the calls. -/
theorem acknowledged_sublist (ws : List FileWrite) :
    (ws.filterMap FileWrite.acknowledged?).Sublist (ofJournal ws).whole :=
  FileWrite.foldl_enter_whole .empty ws

/-- Nothing is there that was not to be stored, and the order is that of the calls. -/
theorem records_sublist (ws : List FileWrite) :
    (ofJournal ws).records.Sublist (ws.map FileWrite.record) :=
  FileWrite.foldl_enter_records .empty ws

theorem ofJournal_concat (ws : List FileWrite) (w : FileWrite) :
    ofJournal (ws ++ [w]) = FileWrite.enter (ofJournal ws) w := List.foldl_append

end Ledger

end SchemaHistory
