import SchemaHistory.Log.File.Partition
import SchemaHistory.Proofs.Replay

/-!
# The lines of a file

The bytes of a partition are lines, each with its line feed, and a tail that has none. That
view is unique, and all that counts lines or reads them agrees with it: a reader that starts
behind some lines gets the lines after them, as many as it asks for, and stops behind the
last one that it got. The tail is not read; it is what makes a file torn.
-/

namespace SchemaHistory.FileLog

open Text

/-- Some lines as they stand in a file, each with its line feed. -/
def ended (lines : List Bytes) : Bytes := lines.flatMap (· ++ [lineFeed])

@[simp] theorem ended_nil : ended [] = [] := rfl

theorem ended_cons (line : Bytes) (lines : List Bytes) :
    ended (line :: lines) = line ++ lineFeed :: ended lines := by
  rw [ended, List.flatMap_cons, List.append_assoc]
  rfl

theorem ended_append (xs ys : List Bytes) : ended (xs ++ ys) = ended xs ++ ended ys :=
  List.flatMap_append

theorem ended_singleton (line : Bytes) : ended [line] = line ++ [lineFeed] := by
  rw [ended_cons]
  rfl

/-- The bytes are these lines and, behind their last line feed, this tail. -/
structure Lined (bs : Bytes) (lines : List Bytes) (tail : Bytes) : Prop where
  /-- The bytes are the lines and the tail. -/
  split : bs = ended lines ++ tail
  line : ∀ line ∈ lines, lineFeed ∉ line
  /-- The tail is no line. -/
  tail : lineFeed ∉ tail

/-! ## Taking a line off -/

theorem splitLine?_line {line rest : Bytes} (h : lineFeed ∉ line) :
    splitLine? (line ++ lineFeed :: rest) = some (line, rest) := by
  induction line with
  | nil => rw [List.nil_append, splitLine?, if_pos rfl]
  | cons b line ih =>
      rw [List.mem_cons, not_or] at h
      rw [List.cons_append, splitLine?, if_neg (fun he => h.1 he.symm), ih h.2]
      rfl

theorem splitLine?_eq_none {bs : Bytes} : splitLine? bs = none ↔ lineFeed ∉ bs := by
  induction bs with
  | nil => simp [splitLine?]
  | cons b bs ih =>
      rw [splitLine?, List.mem_cons, not_or]
      by_cases hb : b = lineFeed
      · rw [if_pos hb]
        simp [hb]
      · rw [if_neg hb, Option.map_eq_none_iff, ih]
        exact ⟨fun h => ⟨fun he => hb he.symm, h⟩, fun h => h.2⟩

theorem splitLine?_eq_some {bs line rest : Bytes} (h : splitLine? bs = some (line, rest)) :
    lineFeed ∉ line ∧ bs = line ++ lineFeed :: rest := by
  induction bs generalizing line with
  | nil => cases h
  | cons b bs ih =>
      rw [splitLine?] at h
      split at h
      · rename_i hb
        cases h
        exact ⟨by simp, by rw [hb]; rfl⟩
      · rename_i hb
        obtain ⟨⟨front, rest'⟩, hfront, he⟩ := Option.map_eq_some_iff.mp h
        cases he
        obtain ⟨hline, rfl⟩ := ih hfront
        exact ⟨by simp [Ne.symm hb, hline], rfl⟩

/-! ## Reading lines -/

/-- A reader is behind what it has read. -/
theorem readLines_cursor (limit : Nat) (c : Cursor) (bs : Bytes) :
    (readLines limit c bs).2 = ⟨c.byte + (ended (readLines limit c bs).1).length,
      c.offset + (readLines limit c bs).1.length⟩ := by
  induction limit generalizing c bs with
  | zero => rfl
  | succ limit ih =>
      rw [readLines]
      split
      · rfl
      · rename_i line rest hline
        dsimp only
        rw [ih, ended_cons]
        simp only [List.length_append, List.length_cons, Cursor.mk.injEq]
        omega

/-- A reader that may read gets nothing only if there is no line. -/
theorem readLines_eq_nil {limit : Nat} (hlimit : 0 < limit) {c : Cursor} {bs : Bytes} :
    (readLines limit c bs).1 = [] ↔ lineFeed ∉ bs := by
  obtain ⟨limit, rfl⟩ : ∃ l, limit = l + 1 := ⟨limit - 1, by omega⟩
  rw [← splitLine?_eq_none, readLines]
  cases splitLine? bs <;> simp

section Cursor

variable {limit : Nat} {c : Cursor} {bs : Bytes}

theorem readFrom_eq_nil (hlimit : 0 < limit) :
    (readFrom limit c bs).1 = [] ↔ lineFeed ∉ bs.drop c.byte := readLines_eq_nil hlimit

theorem readFrom_cursor (limit : Nat) (c : Cursor) (bs : Bytes) :
    (readFrom limit c bs).2 = ⟨c.byte + (ended (readFrom limit c bs).1).length,
      c.offset + (readFrom limit c bs).1.length⟩ := readLines_cursor _ _ _

/-- No reader goes back. -/
theorem readFrom_onward (limit : Nat) (c : Cursor) (bs : Bytes) :
    c.byte ≤ (readFrom limit c bs).2.byte ∧ c.offset ≤ (readFrom limit c bs).2.offset := by
  rw [readFrom_cursor]
  exact ⟨Nat.le_add_right _ _, Nat.le_add_right _ _⟩

/-- Where there is no line a reader stays. -/
theorem readFrom_stays (hlimit : 0 < limit) (h : lineFeed ∉ bs.drop c.byte) :
    (readFrom limit c bs).2 = c := by
  rw [readFrom_cursor, (readFrom_eq_nil hlimit).mpr h]
  rfl

/-- Where there is a line a reader goes on. -/
theorem readFrom_moves (hlimit : 0 < limit) (h : lineFeed ∈ bs.drop c.byte) :
    c.byte < (readFrom limit c bs).2.byte := by
  rw [readFrom_cursor]
  dsimp only
  cases hlines : (readFrom limit c bs).1 with
  | nil => exact absurd h ((readFrom_eq_nil hlimit).mp hlines)
  | cons line lines =>
      rw [ended_cons, List.length_append, List.length_cons]
      omega

end Cursor

/-- A reader gets the first lines. -/
theorem readLines_lines (limit : Nat) (c : Cursor) {lines : List Bytes} {tail : Bytes}
    (hlines : ∀ line ∈ lines, lineFeed ∉ line) (htail : lineFeed ∉ tail) :
    (readLines limit c (ended lines ++ tail)).1 = lines.take limit := by
  induction lines generalizing limit c with
  | nil =>
      cases limit with
      | zero => rfl
      | succ limit =>
          rw [ended_nil, List.nil_append, List.take_nil]
          exact (readLines_eq_nil (Nat.succ_pos limit)).mpr htail
  | cons line lines ih =>
      cases limit with
      | zero => rfl
      | succ limit =>
          have hsplit : splitLine? (ended (line :: lines) ++ tail) =
              some (line, ended lines ++ tail) := by
            rw [ended_cons, List.append_assoc]
            exact splitLine?_line (hlines line (by simp))
          rw [readLines, hsplit]
          dsimp only
          rw [ih _ _ fun l hl => hlines l (by simp [hl]), List.take_succ_cons]

/-- The cursor behind some lines. -/
def behindLines (lines : List Bytes) : Cursor := ⟨(ended lines).length, lines.length⟩

/-- **A reader behind some lines** gets the next ones, and is behind them then. -/
theorem Lined.readFrom {bs : Bytes} {before after : List Bytes} {tail : Bytes}
    (h : Lined bs (before ++ after) tail) (limit : Nat) :
    FileLog.readFrom limit (behindLines before) bs =
      (after.take limit, behindLines (before ++ after.take limit)) := by
  have hrest : bs.drop (behindLines before).byte = ended after ++ tail := by
    rw [h.split, ended_append, List.append_assoc]
    exact List.drop_left
  have hlines : (readLines limit (behindLines before) (ended after ++ tail)).1 =
      after.take limit :=
    readLines_lines limit _ (fun l hl => h.line l (by simp [hl])) h.tail
  rw [FileLog.readFrom, hrest]
  refine Prod.ext hlines ?_
  rw [readLines_cursor, hlines]
  simp only [behindLines, ended_append, List.length_append]

/-- A file is torn when there is something behind its last line. -/
theorem Lined.isTorn_eq {bs : Bytes} {lines : List Bytes} {tail : Bytes}
    (h : Lined bs lines tail) : isTorn bs = !tail.isEmpty := by
  unfold isTorn
  rw [h.split, List.getLast?_append]
  cases ht : tail.getLast? with
  | some b =>
      have hne : b ≠ lineFeed := by
        rintro rfl
        exact h.tail (List.mem_of_getLast? ht)
      have hempty : tail.isEmpty = false := by
        cases tail with
        | nil => cases ht
        | cons _ _ => rfl
      simp [hne, hempty]
  | none =>
      rw [List.getLast?_eq_none_iff] at ht
      subst ht
      rcases List.eq_nil_or_concat lines with rfl | ⟨front, line, rfl⟩
      · rfl
      · rw [List.concat_eq_append, ended_append, ended_singleton, ← List.append_assoc,
          List.getLast?_append]
        rfl

/-! ## The lines there are -/

/-- The whole lines of some bytes. -/
def linesIn : Bytes → List Bytes
  | [] => []
  | b :: rest =>
    if b = lineFeed then [] :: linesIn rest
    else
      match linesIn rest with
      | [] => []
      | line :: lines => (b :: line) :: lines

theorem linesIn_eq_nil {bs : Bytes} : linesIn bs = [] ↔ lineFeed ∉ bs := by
  induction bs with
  | nil => simp [linesIn]
  | cons b bs ih =>
      rw [linesIn, List.mem_cons, not_or]
      by_cases hb : b = lineFeed
      · rw [if_pos hb]
        simp [hb]
      · rw [if_neg hb, ← ih]
        cases linesIn bs with
        | nil => simp [Ne.symm hb]
        | cons line lines => simp

theorem linesIn_line {line : Bytes} (h : lineFeed ∉ line) (rest : Bytes) :
    linesIn (line ++ lineFeed :: rest) = line :: linesIn rest := by
  induction line with
  | nil => rw [List.nil_append, linesIn, if_pos rfl]
  | cons b line ih =>
      rw [List.mem_cons, not_or] at h
      rw [List.cons_append, linesIn, if_neg (fun he => h.1 he.symm), ih h.2]

/-- Behind whole lines come the lines of what follows them. -/
theorem linesIn_ended {lines : List Bytes} (h : ∀ line ∈ lines, lineFeed ∉ line) (rest : Bytes) :
    linesIn (ended lines ++ rest) = lines ++ linesIn rest := by
  induction lines with
  | nil => rfl
  | cons line lines ih =>
      rw [ended_cons, List.append_assoc, List.cons_append, linesIn_line (h line (by simp)),
        ih fun l hl => h l (by simp [hl]), List.cons_append]

/-- All bytes are some lines and a tail. -/
theorem lined_linesIn (bs : Bytes) : ∃ tail, Lined bs (linesIn bs) tail := by
  -- whatever is read off the front, what is left is shorter
  induction hn : bs.length using Nat.strongRecOn generalizing bs with
  | ind n ih =>
      cases hsplit : splitLine? bs with
      | none =>
          have hmem := splitLine?_eq_none.mp hsplit
          rw [linesIn_eq_nil.mpr hmem]
          exact ⟨bs, rfl, by simp, hmem⟩
      | some p =>
          obtain ⟨line, rest⟩ := p
          obtain ⟨hline, rfl⟩ := splitLine?_eq_some hsplit
          obtain ⟨tail, hrest⟩ := ih rest.length (by simp at hn; omega) rest rfl
          rw [linesIn_line hline]
          refine ⟨tail, ?_, ?_, hrest.tail⟩
          · rw [ended_cons, List.append_assoc, List.cons_append, ← hrest.split]
          · intro l hl
            rcases List.mem_cons.mp hl with rfl | hl
            · exact hline
            · exact hrest.line l hl

/-- No other lines are. -/
theorem Lined.linesIn_eq {bs : Bytes} {lines : List Bytes} {tail : Bytes} (h : Lined bs lines tail) :
    linesIn bs = lines := by
  rw [h.split, linesIn_ended h.line, linesIn_eq_nil.mpr h.tail, List.append_nil]

/-- A reader gets the first of the lines that are behind its cursor. -/
theorem lines_readFrom (limit : Nat) (c : Cursor) (bs : Bytes) :
    (readFrom limit c bs).1 = (linesIn (bs.drop c.byte)).take limit := by
  obtain ⟨tail, hlined⟩ := lined_linesIn (bs.drop c.byte)
  have hlines := readLines_lines limit c hlined.line hlined.tail
  rwa [← hlined.split] at hlines

/-- The other lines are behind it then. -/
theorem linesIn_readFrom (limit : Nat) (c : Cursor) (bs : Bytes) :
    linesIn (bs.drop (readFrom limit c bs).2.byte) = (linesIn (bs.drop c.byte)).drop limit := by
  obtain ⟨tail, hlined⟩ := lined_linesIn (bs.drop c.byte)
  have hmoved : bs.drop (readFrom limit c bs).2.byte =
      ended ((linesIn (bs.drop c.byte)).drop limit) ++ tail := by
    have hparts : bs.drop c.byte = ended ((linesIn (bs.drop c.byte)).take limit) ++
        (ended ((linesIn (bs.drop c.byte)).drop limit) ++ tail) := by
      rw [← List.append_assoc, ← ended_append, List.take_append_drop]
      exact hlined.split
    rw [readFrom_cursor, lines_readFrom, ← List.drop_drop]
    conv => lhs; arg 2; rw [hparts]
    exact List.drop_left
  rw [hmoved, linesIn_ended fun line hline => hlined.line line (List.mem_of_mem_drop hline),
    linesIn_eq_nil.mpr hlined.tail, List.append_nil]

/-- What is added at the end leaves the lines that are there. -/
theorem linesIn_mono {bs bs' : Bytes} (h : bs <+: bs') : linesIn bs <+: linesIn bs' := by
  obtain ⟨more, rfl⟩ := h
  obtain ⟨tail, hlined⟩ := lined_linesIn bs
  have hmore : bs ++ more = ended (linesIn bs) ++ (tail ++ more) := by
    rw [← List.append_assoc, ← hlined.split]
  rw [hmore, linesIn_ended hlined.line]
  exact List.prefix_append _ _

theorem length_linesIn (bs : Bytes) : (linesIn bs).length = lineCount bs := by
  induction bs with
  | nil => rfl
  | cons b bs ih =>
      rw [linesIn, lineCount, List.count_cons]
      by_cases hb : b = lineFeed
      · rw [if_pos hb, List.length_cons, ih, hb]
        rfl
      · rw [if_neg hb, if_neg (by simpa using hb), Nat.add_zero]
        rw [← lineCount, ← ih]
        cases linesIn bs <;> rfl

theorem lineCount_ended {lines : List Bytes} (h : ∀ line ∈ lines, lineFeed ∉ line) :
    lineCount (ended lines) = lines.length := by
  have hlines := linesIn_ended h []
  rw [List.append_nil, show linesIn [] = [] from rfl, List.append_nil] at hlines
  rw [← length_linesIn, hlines]

/-- All lines of a file are those up to where they end. -/
theorem Lined.endOf_eq {bs : Bytes} {lines : List Bytes} {tail : Bytes} (h : Lined bs lines tail) :
    endOf bs = behindLines lines := by
  have htail : ∀ b ∈ tail.reverse, decide (b ≠ lineFeed) = true := by
    intro b hb
    refine decide_eq_true fun he => h.tail ?_
    rw [← he]
    exact List.mem_reverse.mp hb
  have hlines : (ended lines).reverse.dropWhile (· ≠ lineFeed) = (ended lines).reverse := by
    rcases List.eq_nil_or_concat lines with rfl | ⟨front, line, rfl⟩
    · rfl
    · rw [List.concat_eq_append, ended_append, ended_singleton, ← List.append_assoc,
        List.reverse_append, List.reverse_singleton, List.singleton_append,
        List.dropWhile_cons_of_neg (by simp)]
  have hcomplete : completeBytes bs = (ended lines).length := by
    rw [completeBytes, h.split, List.reverse_append, List.dropWhile_append_of_pos htail, hlines,
      List.length_reverse]
  rw [endOf, behindLines, hcomplete, h.split, List.take_left, lineCount_ended h.line]

/-- The line behind whole lines has their count as its number. -/
theorem line_behind {front line : Bytes} (hfront : isTorn front = false) (hline : lineFeed ∉ line)
    (rest : Bytes) : (linesIn (front ++ (line ++ lineFeed :: rest)))[lineCount front]? = some line := by
  obtain ⟨tail, hlined⟩ := lined_linesIn front
  have htail : tail = [] := by
    rw [hlined.isTorn_eq] at hfront
    simpa using hfront
  have hwhole := hlined.split
  rw [htail, List.append_nil] at hwhole
  rw [← length_linesIn]
  conv => lhs; arg 1; arg 1; rw [hwhole]
  rw [linesIn_ended hlined.line, linesIn_line hline, List.getElem?_append_right (Nat.le_refl _),
    Nat.sub_self]
  rfl

/-! ## Entries -/

theorem entriesOf_nil (topic : String) (partition : Int) (offset : Nat) :
    entriesOf topic partition offset [] = [] := rfl

theorem entriesOf_cons (topic : String) (partition : Int) (offset : Nat) (line : Bytes)
    (lines : List Bytes) : entriesOf topic partition offset (line :: lines) =
      ⟨topic, partition, offset, none, .ofList (decodeLossy line)⟩ ::
        entriesOf topic partition (offset + 1) lines := by
  simp only [entriesOf, List.mapIdx_cons, Nat.add_zero, Nat.add_assoc, Nat.add_comm 1]

theorem length_entriesOf (topic : String) (partition : Int) (offset : Nat) (lines : List Bytes) :
    (entriesOf topic partition offset lines).length = lines.length := List.length_mapIdx

theorem take_entriesOf (topic : String) (partition : Int) (offset n : Nat) (lines : List Bytes) :
    (entriesOf topic partition offset lines).take n =
      entriesOf topic partition offset (lines.take n) := by
  induction lines generalizing offset n with
  | nil => simp [entriesOf_nil]
  | cons line lines ih =>
      cases n with
      | zero => rfl
      | succ n =>
          rw [entriesOf_cons, List.take_succ_cons, ih, List.take_succ_cons, entriesOf_cons]

theorem drop_entriesOf (topic : String) (partition : Int) (offset n : Nat) (lines : List Bytes) :
    (entriesOf topic partition offset lines).drop n =
      entriesOf topic partition (offset + (lines.take n).length) (lines.drop n) := by
  induction lines generalizing offset n with
  | nil => simp [entriesOf_nil]
  | cons line lines ih =>
      cases n with
      | zero => rfl
      | succ n =>
          rw [entriesOf_cons, List.drop_succ_cons, ih, List.drop_succ_cons, List.take_succ_cons,
            List.length_cons]
          congr 1
          omega

theorem entriesOf_append (topic : String) (partition : Int) (offset : Nat) (xs ys : List Bytes) :
    entriesOf topic partition offset (xs ++ ys) =
      entriesOf topic partition offset xs ++ entriesOf topic partition (offset + xs.length) ys := by
  have hsplit := List.take_append_drop xs.length (entriesOf topic partition offset (xs ++ ys))
  rw [take_entriesOf, drop_entriesOf, List.take_left, List.drop_left] at hsplit
  exact hsplit.symm

/-- The entry of a line holds the record that is read from the line. -/
theorem records_entriesOf (topic : String) (partition : Int) (offset : Nat) (lines : List Bytes) :
    (entriesOf topic partition offset lines).map Entry.record? = lines.map Record.ofLine := by
  induction lines generalizing offset with
  | nil => rfl
  | cons line lines ih =>
      rw [entriesOf_cons, List.map_cons, List.map_cons, ih, Entry.record?, String.toList_ofList]
      rfl

/-- The entries of some lines are on the partition, at their offsets. -/
theorem mem_entriesOf {topic : String} {partition : Int} {offset : Nat} {lines : List Bytes}
    {e : Entry} (h : e ∈ entriesOf topic partition offset lines) :
    e.topic = topic ∧ e.partition = partition ∧ offset ≤ e.offset ∧
      e.offset < offset + lines.length := by
  obtain ⟨i, hi, rfl⟩ := List.mem_mapIdx.mp h
  refine ⟨rfl, rfl, Nat.le_add_right _ _, ?_⟩
  exact Nat.add_lt_add_left hi offset

end SchemaHistory.FileLog
