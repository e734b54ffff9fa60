import Mathlib.Data.List.DropRight
import SchemaHistory.Proofs.File.Sending

/-!
# Who wrote what

A partition that several producers write to is a list of bytes, each with the producer that
wrote it. What one producer wrote can be read off it, and so can the line that each line
feed ends. A producer that has counted its own lines knows the number of its line as long as
nobody else ends a line in between, and it has the line to itself as long as nobody else
writes into it.
-/

namespace SchemaHistory.FileLog

open Text

/-- A byte of a partition, with the producer that wrote it, if one did. -/
structure Mark where
  writer : Option ProducerId
  byte : UInt8
  deriving DecidableEq

/-- The bytes alone. -/
def bytesOf (ms : List Mark) : Bytes := ms.map Mark.byte

/-- Bytes that were all written by one. -/
def markAll (writer : Option ProducerId) (bs : Bytes) : List Mark := bs.map (Mark.mk writer)

/-- The bytes that a producer wrote. -/
def ownIn (p : ProducerId) (ms : List Mark) : Bytes := bytesOf (ms.filter (·.writer = some p))

/-- The bytes that it did not write. -/
def othersIn (p : ProducerId) (ms : List Mark) : Bytes := bytesOf (ms.filter (·.writer ≠ some p))

/-- What is behind the last line feed. -/
def lastPiece (ms : List Mark) : List Mark := ms.rtakeWhile (·.byte ≠ lineFeed)

section Marks

variable {p : ProducerId} {ms ns : List Mark}

theorem bytesOf_append (ms ns : List Mark) : bytesOf (ms ++ ns) = bytesOf ms ++ bytesOf ns :=
  List.map_append

theorem length_bytesOf (ms : List Mark) : (bytesOf ms).length = ms.length := List.length_map _

theorem bytesOf_markAll (writer : Option ProducerId) (bs : Bytes) :
    bytesOf (markAll writer bs) = bs := by
  rw [bytesOf, markAll, List.map_map]
  exact List.map_id _

theorem ownIn_append (p : ProducerId) (ms ns : List Mark) :
    ownIn p (ms ++ ns) = ownIn p ms ++ ownIn p ns := by
  rw [ownIn, List.filter_append, bytesOf_append]
  rfl

theorem ownIn_eq_nil (h : ∀ m ∈ ms, m.writer ≠ some p) : ownIn p ms = [] := by
  rw [ownIn, List.filter_eq_nil_iff.mpr fun m hm => by simpa using h m hm]
  rfl

/-- Where all was written by a producer, all bytes are its own. -/
theorem ownIn_eq_bytesOf (h : ∀ m ∈ ms, m.writer = some p) : ownIn p ms = bytesOf ms := by
  rw [ownIn, List.filter_eq_self.mpr fun m hm => by simpa using h m hm]

theorem writer_of_mem_markAll {writer : Option ProducerId} {bs : Bytes} {m : Mark}
    (h : m ∈ markAll writer bs) : m.writer = writer := by
  obtain ⟨b, -, rfl⟩ := List.mem_map.mp h
  rfl

theorem ownIn_markAll (p : ProducerId) (bs : Bytes) : ownIn p (markAll (some p) bs) = bs :=
  (ownIn_eq_bytesOf fun _ => writer_of_mem_markAll).trans (bytesOf_markAll _ _)

theorem ownIn_markAll_other {writer : Option ProducerId} (h : writer ≠ some p) (bs : Bytes) :
    ownIn p (markAll writer bs) = [] :=
  ownIn_eq_nil fun m hm => by rw [writer_of_mem_markAll hm]; exact h

theorem ownIn_cons (p : ProducerId) (m : Mark) (ms : List Mark) :
    ownIn p (m :: ms) = if m.writer = some p then m.byte :: ownIn p ms else ownIn p ms := by
  rw [ownIn, List.filter_cons]
  by_cases hm : m.writer = some p
  · rw [if_pos hm, if_pos (decide_eq_true hm)]
    rfl
  · rw [if_neg hm, if_neg (by simpa using hm)]
    rfl

theorem othersIn_cons (p : ProducerId) (m : Mark) (ms : List Mark) :
    othersIn p (m :: ms) = if m.writer = some p then othersIn p ms else m.byte :: othersIn p ms := by
  rw [othersIn, List.filter_cons]
  by_cases hm : m.writer = some p
  · rw [if_pos hm, if_neg (by simpa using hm)]
    rfl
  · rw [if_neg hm, if_pos (by simpa using hm)]
    rfl

/-- Every line feed is one of the producer or one of others. -/
theorem lineCount_bytesOf (p : ProducerId) (ms : List Mark) :
    lineCount (bytesOf ms) = lineCount (ownIn p ms) + lineCount (othersIn p ms) := by
  induction ms with
  | nil => rfl
  | cons m ms ih =>
      have hcons : bytesOf (m :: ms) = m.byte :: bytesOf ms := rfl
      rw [hcons, ownIn_cons, othersIn_cons]
      simp only [lineCount] at ih ⊢
      split <;>
        · simp only [List.count_cons]
          omega

/-- A byte that a producer wrote behind some others of its own has a place. -/
theorem exists_own {xs rest : Bytes} {b : UInt8} (h : ownIn p ms = xs ++ b :: rest) :
    ∃ before after, ms = before ++ ⟨some p, b⟩ :: after ∧ ownIn p before = xs := by
  induction ms generalizing xs with
  | nil => simp [ownIn, bytesOf] at h
  | cons m ms ih =>
      obtain ⟨writer, byte⟩ := m
      rw [ownIn_cons] at h
      by_cases hw : writer = some p
      · subst hw
        rw [if_pos rfl] at h
        cases xs with
        | nil =>
            cases h
            exact ⟨[], ms, rfl, rfl⟩
        | cons x xs =>
            obtain ⟨rfl, hrest⟩ := List.cons.inj h
            obtain ⟨before, after, rfl, hbefore⟩ := ih hrest
            exact ⟨⟨some p, byte⟩ :: before, after, rfl, by rw [ownIn_cons, if_pos rfl, hbefore]⟩
      · rw [if_neg hw] at h
        obtain ⟨before, after, rfl, hbefore⟩ := ih h
        exact ⟨⟨writer, byte⟩ :: before, after, rfl, by rw [ownIn_cons, if_neg hw, hbefore]⟩

end Marks

/-! ## The line that a line feed ends -/

theorem lineFeed_notMem_lastPiece (ms : List Mark) : lineFeed ∉ bytesOf (lastPiece ms) := by
  intro h
  obtain ⟨m, hm, hbyte⟩ := List.mem_map.mp h
  simpa [hbyte] using List.mem_rtakeWhile_imp hm

/-- Before the last piece there is nothing, or a line feed. -/
theorem exists_lastPiece (ms : List Mark) : ∃ front, ms = front ++ lastPiece ms ∧
    (front = [] ∨ ∃ whole m, front = whole ++ [m] ∧ m.byte = lineFeed) := by
  refine ⟨ms.rdropWhile (·.byte ≠ lineFeed), (List.rdropWhile_append_rtakeWhile).symm, ?_⟩
  rcases List.eq_nil_or_concat (ms.rdropWhile (·.byte ≠ lineFeed)) with hnil | ⟨whole, m, hm⟩
  · exact .inl hnil
  · right
    rw [List.concat_eq_append] at hm
    refine ⟨whole, m, hm, ?_⟩
    have hlast := List.rdropWhile_last_not (·.byte ≠ lineFeed) ms (by rw [hm]; simp)
    simp only [hm, List.getLast_append_singleton] at hlast
    simpa using hlast

/-- **The line that a line feed ends** is what is behind the line feed before it. -/
theorem line_of_lastPiece (ms : List Mark) (rest : Bytes) :
    (linesIn (bytesOf ms ++ lineFeed :: rest))[lineCount (bytesOf ms)]? =
      some (bytesOf (lastPiece ms)) := by
  obtain ⟨front, hms, hfront⟩ := exists_lastPiece ms
  have hpiece := lineFeed_notMem_lastPiece ms
  have htorn : isTorn (bytesOf front) = false := by
    rcases hfront with rfl | ⟨whole, m, rfl, hm⟩
    · rfl
    · rw [bytesOf_append, show bytesOf [m] = [lineFeed] by rw [← hm]; rfl]
      exact isTorn_lineFeed _
  have hbytes : bytesOf ms = bytesOf front ++ bytesOf (lastPiece ms) := by
    rw [← bytesOf_append, ← hms]
  have hcount : lineCount (bytesOf ms) = lineCount (bytesOf front) := by
    rw [hbytes, lineCount_append]
    exact (congrArg _ (List.count_eq_zero.mpr hpiece)).trans (Nat.add_zero _)
  rw [hcount, hbytes, List.append_assoc]
  exact line_behind htorn hpiece rest

/-- A line feed is known by the number of those before it. -/
theorem eq_of_lineCount {front front' after after' : List Mark} {m m' : Mark}
    (h : front ++ m :: after = front' ++ m' :: after') (hm : m.byte = lineFeed)
    (hm' : m'.byte = lineFeed) (hcount : lineCount (bytesOf front) = lineCount (bytesOf front')) :
    front = front' ∧ m = m' := by
  have hmore : ∀ {xs ys : List Mark} {n : Mark}, n.byte = lineFeed →
      lineCount (bytesOf (xs ++ n :: ys)) ≠ lineCount (bytesOf xs) := by
    intro xs ys n hn
    have hfirst : lineCount (bytesOf (n :: ys)) = lineCount (bytesOf ys) + 1 := by
      rw [show bytesOf (n :: ys) = lineFeed :: bytesOf ys by rw [← hn]; rfl, lineCount,
        List.count_cons_self]
      rfl
    rw [bytesOf_append, lineCount_append]
    omega
  rcases List.append_eq_append_iff.mp h with ⟨between, rfl, hrest⟩ | ⟨between, rfl, hrest⟩
  · cases between with
    | nil => exact ⟨(List.append_nil _).symm, (List.cons.inj hrest).1⟩
    | cons n between =>
        cases (List.cons.inj hrest).1
        exact absurd hcount.symm (hmore hm)
  · cases between with
    | nil => exact ⟨List.append_nil _, (List.cons.inj hrest).1.symm⟩
    | cons n between =>
        cases (List.cons.inj hrest).1
        exact absurd hcount (hmore hm')

/-! ## A producer that counts its own lines -/

/-- What is behind whole lines and has no line feed is found again. -/
theorem rtakeWhile_piece {front piece : Bytes} (hfront : isTorn front = false)
    (hpiece : lineFeed ∉ piece) : (front ++ piece).rtakeWhile (· ≠ lineFeed) = piece := by
  have hall : ∀ b ∈ piece.reverse, decide (b ≠ lineFeed) = true := by
    intro b hb
    refine decide_eq_true fun he => hpiece ?_
    rw [← he]
    exact List.mem_reverse.mp hb
  have hnone : front.reverse.takeWhile (· ≠ lineFeed) = [] := by
    rcases List.eq_nil_or_concat front with rfl | ⟨whole, b, rfl⟩
    · rfl
    · rw [List.concat_eq_append] at hfront ⊢
      have hb : b = lineFeed := by simpa [isTorn] using hfront
      rw [List.reverse_append, List.reverse_singleton, List.singleton_append,
        List.takeWhile_cons_of_neg (by simp [hb])]
  rw [List.rtakeWhile, List.reverse_append, List.takeWhile_append_of_pos hall, hnone,
    List.append_nil, List.reverse_reverse]

theorem isTorn_repair_ended (bs : Bytes) (lines : List Bytes) :
    isTorn (repair bs ++ ended lines) = false := by
  rcases List.eq_nil_or_concat lines with rfl | ⟨front, line, rfl⟩
  · rw [ended_nil, List.append_nil, repair]
    split <;> rfl
  · rw [List.concat_eq_append, ended_append, ended_singleton, ← List.append_assoc,
      ← List.append_assoc]
    exact isTorn_lineFeed _

/-- Behind what ends a torn line, and whole lines, nothing is torn. -/
theorem isTorn_mended (bs : Bytes) (lines : List Bytes) :
    isTorn (bs ++ (repair bs ++ ended lines)) = false := by
  rcases List.eq_nil_or_concat (repair bs ++ ended lines) with hnil | ⟨whole, b, hwhole⟩
  · have hrepair := (List.append_eq_nil_iff.mp hnil).1
    rw [hnil, List.append_nil]
    rw [repair] at hrepair
    split at hrepair
    · cases hrepair
    · exact eq_false_of_ne_true ‹_›
  · have hlast := isTorn_repair_ended bs lines
    rw [hwhole, List.concat_eq_append] at hlast ⊢
    rw [isTorn, List.getLast?_concat] at hlast
    rw [isTorn, ← List.append_assoc, List.getLast?_concat]
    exact hlast

theorem eq_markAll {writer : Option ProducerId} {ms : List Mark} (h : ∀ m ∈ ms, m.writer = writer) :
    ms = markAll writer (bytesOf ms) := by
  rw [markAll, bytesOf, List.map_map]
  refine ((List.map_congr_left fun m hm => ?_).trans (List.map_id ms)).symm
  rw [Function.comp_apply, ← h m hm]
  rfl

theorem mem_othersIn {p : ProducerId} {ms : List Mark} {m : Mark} (h : m ∈ ms)
    (hm : m.writer ≠ some p) : m.byte ∈ othersIn p ms :=
  List.mem_map_of_mem (List.mem_filter.mpr ⟨h, by simpa using hm⟩)

section Counting

variable {p : ProducerId} {opened since : List Mark} {earlier : List Bytes} {line : Bytes}

/-- A line of a producer that has a piece to itself is that piece. -/
theorem lastPiece_own (hopened : ∀ m ∈ opened, m.writer ≠ some p) (hline : lineFeed ∉ line)
    (hown : ownIn p since = repair (bytesOf opened) ++ ended earlier ++ line)
    (hothers : lineFeed ∉ othersIn p since)
    (hpiece : ∀ m ∈ lastPiece (opened ++ since), m.writer = some p) :
    lastPiece (opened ++ since) = markAll (some p) line := by
  obtain ⟨front, hsplit, hfront⟩ := exists_lastPiece (opened ++ since)
  have hfree := lineFeed_notMem_lastPiece (opened ++ since)
  generalize lastPiece (opened ++ since) = piece at *
  -- the piece has nothing of what was there before
  obtain ⟨between, rfl, rfl⟩ : ∃ between, front = opened ++ between ∧ since = between ++ piece := by
    rcases List.append_eq_append_iff.mp hsplit with h | ⟨shared, rfl, rfl⟩
    · exact h
    · cases shared with
      | nil => exact ⟨[], by simp, by simp⟩
      | cons m shared => exact absurd (hpiece m (by simp)) (hopened m (by simp))
  have hbetween : isTorn (ownIn p between) = false := by
    rcases List.eq_nil_or_concat between with rfl | ⟨whole, m, rfl⟩
    · rfl
    · rw [List.concat_eq_append] at *
      have hm : m.byte = lineFeed := by
        rcases hfront with hnil | ⟨whole', m', he, hm'⟩
        · simp at hnil
        · rw [← List.append_assoc] at he
          obtain ⟨-, hlast⟩ := List.append_inj' he rfl
          rw [List.singleton_inj.mp hlast]
          exact hm'
      have hwriter : m.writer = some p := by
        by_cases hw : m.writer = some p
        · exact hw
        · exact absurd (hm ▸ mem_othersIn (by simp) hw) hothers
      rw [ownIn_append, show ownIn p [m] = bytesOf [m] from ownIn_eq_bytesOf (by simpa using hwriter),
        show bytesOf [m] = [lineFeed] by rw [← hm]; rfl]
      exact isTorn_lineFeed _
  rw [ownIn_append, ownIn_eq_bytesOf hpiece] at hown
  have hbytes : bytesOf piece = line := by
    rw [← rtakeWhile_piece hbetween hfree, hown, rtakeWhile_piece (isTorn_repair_ended _ _) hline]
  rw [eq_markAll hpiece, hbytes]

/--
**Counting one's own lines.** A producer has opened a partition and written some lines to it since.
The line that it writes now has the number that it has counted, and the line feeds of others on
top. It has that very number and all of the line to itself exactly when no other ended a line
since, and no other wrote into the line.
-/
theorem count_own_lines (hopened : ∀ m ∈ opened, m.writer ≠ some p)
    (hearlier : ∀ l ∈ earlier, lineFeed ∉ l) (hline : lineFeed ∉ line)
    (hown : ownIn p since = repair (bytesOf opened) ++ ended earlier ++ line) :
    lineCount (bytesOf (opened ++ since)) =
      nextLine (bytesOf opened) + earlier.length + lineCount (othersIn p since) ∧
    ((lineCount (bytesOf (opened ++ since)) = nextLine (bytesOf opened) + earlier.length ∧
        lastPiece (opened ++ since) = markAll (some p) line) ↔
      lineFeed ∉ othersIn p since ∧ ∀ m ∈ lastPiece (opened ++ since), m.writer = some p) := by
  have hcount : lineCount (bytesOf (opened ++ since)) =
      nextLine (bytesOf opened) + earlier.length + lineCount (othersIn p since) := by
    have hnone : lineCount line = 0 := List.count_eq_zero.mpr hline
    rw [bytesOf_append, lineCount_append, lineCount_bytesOf p since, hown, lineCount_append,
      lineCount_append, lineCount_ended hearlier, hnone, ← lineCount_repair]
    omega
  refine ⟨hcount, fun ⟨hnumber, hpiece⟩ => ⟨?_, fun m hm => ?_⟩, fun ⟨hothers, hpiece⟩ => ⟨?_, ?_⟩⟩
  · have hzero : lineCount (othersIn p since) = 0 := by omega
    exact List.count_eq_zero.mp hzero
  · rw [hpiece] at hm
    exact writer_of_mem_markAll hm
  · have hzero : lineCount (othersIn p since) = 0 := List.count_eq_zero.mpr hothers
    rw [hcount, hzero, Nat.add_zero]
  · exact lastPiece_own hopened hline hown hothers hpiece

end Counting

end SchemaHistory.FileLog
