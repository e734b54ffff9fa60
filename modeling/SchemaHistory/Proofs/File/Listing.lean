import SchemaHistory.Proofs.File.Partitions

/-!
# The files of a directory as partitions

A consumer takes every file whose name reads as a number for the partition of that number. A number
has one name that producers give, but it can be spelled with a sign or with zeros before it, and such
names are read as well. So a directory in which such a file stands has two files for one number, or
one for a number that is negative. Files of one number are read one after the other from one place,
as if the second went on where the first one ends.
-/

namespace SchemaHistory

namespace FileLog

open FileTree Text

/-! ## Spellings of a number -/

/-- A text begins with a sign, or with a zero that another digit follows. -/
def Respelled : List Char → Prop
  | '+' :: _ => True
  | '-' :: _ => True
  | '0' :: c :: _ => c.isDigit = true
  | _ => False

theorem beforeEnding?_eq_some {e cs front : List Char} (h : beforeEnding? e cs = some front) :
    cs = front ++ e := by
  obtain ⟨back, hback, rfl⟩ := Option.map_eq_some_iff.mp h
  rw [← List.reverse_inj, List.reverse_append, List.reverse_reverse]
  exact (List.isPrefixOf?_eq_some_iff_append_eq.mp hback).symm

/-- No number is spelled with a sign or with a zero before it. -/
theorem not_respelled_ofNat (n : Nat) : ¬ Respelled (ofNat n ++ ending) := by
  cases hdigits : ofNat n with
  | nil => exact absurd hdigits Nat.toDigits_ne_nil
  | cons c more =>
      obtain ⟨hplus, hminus⟩ := ofNat_unsigned hdigits
      rw [List.cons_append]
      by_cases hzero : c = '0'
      · subst hzero
        rw [Json.ofNat_zero_head hdigits]
        exact Bool.false_ne_true
      · unfold Respelled
        split <;> simp_all

/-- What is read without a sign is read from digits. -/
theorem integer?_plain {min max i : Int} {cs : List Char} (hplus : cs.head? ≠ some '+')
    (hminus : cs.head? ≠ some '-') (h : integer? min max cs = some i) :
    ∃ n : Nat, digits? cs = some n ∧ i = n := by
  unfold integer? at h
  split at h
  · exact absurd rfl hplus
  · exact absurd rfl hminus
  · rw [Option.filter_eq_some_iff] at h
    obtain ⟨n, hn, rfl⟩ := Option.map_eq_some_iff.mp h.1
    exact ⟨n, hn, rfl⟩

/-- **The names that producers give** are those that are read as a number and have neither a sign nor
a zero before it. -/
theorem own_name_iff {name : String} {p : Int} (h : partitionOf? name = some p) :
    (0 ≤ p ∧ name = partitionName p) ↔ ¬ Respelled name.toList := by
  constructor
  · rintro ⟨hp, rfl⟩
    obtain ⟨n, rfl⟩ := Int.eq_ofNat_of_zero_le hp
    rw [partitionName, String.toList_ofList]
    exact not_respelled_ofNat n
  · intro hplain
    obtain ⟨cs, hcs, hread⟩ := Option.bind_eq_some_iff.mp h
    have hname := beforeEnding?_eq_some hcs
    rw [hname] at hplain
    have hsign : ∀ c, (c = '+' ∨ c = '-') → cs.head? ≠ some c := by
      rintro c hc hhead
      obtain ⟨rest, rfl⟩ := List.head?_eq_some_iff.mp hhead
      rcases hc with rfl | rfl <;> exact hplain trivial
    obtain ⟨n, hn, rfl⟩ := integer?_plain (hsign _ (.inl rfl)) (hsign _ (.inr rfl)) hread
    obtain ⟨hne, hdigits, rfl⟩ := digits?_eq_some hn
    have hspelled : ofNat (Nat.ofDigitChars 10 cs 0) = cs := by
      refine ofNat_ofDigitChars hne hdigits fun hhead => ?_
      obtain ⟨rest, rfl⟩ := List.head?_eq_some_iff.mp hhead
      cases rest with
      | nil => rfl
      | cons c rest => exact absurd (hdigits c (by simp)) hplain
    refine ⟨Int.natCast_nonneg _, ?_⟩
    rw [← String.toList_inj, hname, partitionName, String.toList_ofList]
    exact congrArg (· ++ ending) hspelled.symm

/-! ## Reading files of one number -/

/-- The lines of files that are read one after the other from one place: each file is read behind as
many bytes as were read before. -/
def linesAcross (byte : Nat) : List Bytes → List Bytes
  | [] => []
  | bs :: rest =>
    let lines := linesIn (bs.drop byte)
    lines ++ linesAcross (byte + (ended lines).length) rest

theorem linesAcross_concat (byte : Nat) (files : List Bytes) (bs : Bytes) :
    linesAcross byte (files ++ [bs]) = linesAcross byte files ++
      linesIn (bs.drop (byte + (ended (linesAcross byte files)).length)) := by
  induction files generalizing byte with
  | nil => simp [linesAcross]
  | cons file files ih =>
      rw [List.cons_append, linesAcross, linesAcross, ih, ended_append, List.length_append,
        List.append_assoc, Nat.add_assoc]

/-- The cursor behind some lines from a cursor on. -/
def Cursor.past (c : Cursor) (lines : List Bytes) : Cursor :=
  ⟨c.byte + (ended lines).length, c.offset + lines.length⟩

namespace Fetch

variable {o : ConsumerOptions} {t : FileTree} {vs done : List Visit} {cursors : Cursors} {f : Fetch}

/-- What a poll that had room for every line has done after the visits `done` of `vs`. -/
structure Shares (o : ConsumerOptions) (t : FileTree) (vs : List Visit) (cursors : Cursors)
    (done : List Visit) (f : Fetch) : Prop where
  progress : Progress o t vs cursors done f
  goesOn : f.verdict = .goOn
  /-- Of each key it has the lines across all files that were visited for it. -/
  entries : ∀ key, onPartition key f.entries =
    entriesOf key.1 key.2 (positionIn o t vs cursors key).offset
      (linesAcross (positionIn o t vs cursors key).byte (done.filterMap (Visit.bytes? t key)))
  /-- These files have one cursor, which is behind all of these lines. -/
  position : ∀ key, positionIn o t vs f.cursors key = (positionIn o t vs cursors key).past
    (linesAcross (positionIn o t vs cursors key).byte (done.filterMap (Visit.bytes? t key)))

theorem shares_start (o : ConsumerOptions) (t : FileTree) (vs : List Visit) (cursors : Cursors) :
    Shares o t vs cursors [] ⟨[], cursors, .goOn⟩ :=
  ⟨progress_start o t vs cursors, rfl, fun _ => rfl, fun _ => rfl⟩

/-- **A file is read from where the file before it of the same number was left.** -/
theorem Shares.reads (h : Shares o t vs cursors done f) {topic : String} {number : Int}
    {path : Path} {bs : Bytes} {rest : List Visit}
    (hvs : vs = done ++ .partition topic number path :: rest) (hread : t.read path = .ok bs)
    (hroom : f.entries.length < o.limit)
    (hall : (linesIn (bs.drop (positionIn o t vs f.cursors (topic, number)).byte)).length ≤
      o.limit - f.entries.length) :
    Shares o t vs cursors (done ++ [.partition topic number path])
      (f.taken o topic number bs (startIn o f.cursors (topic, number) bs)) := by
  have hstart := h.progress.start hvs hread
  have hlines : (readFrom (o.limit - f.entries.length)
      (positionIn o t vs f.cursors (topic, number)) bs).1 =
        linesIn (bs.drop (positionIn o t vs f.cursors (topic, number)).byte) := by
    rw [lines_readFrom]
    exact List.take_of_length_le hall
  have hother : ∀ key, (topic, number) ≠ key →
      (done ++ [Visit.partition topic number path]).filterMap (Visit.bytes? t key) =
        done.filterMap (Visit.bytes? t key) := by
    intro key hkey
    have hnone : Visit.bytes? t key (.partition topic number path) = none := if_neg hkey
    rw [List.filterMap_append, List.filterMap_cons_none hnone]
    exact List.append_nil _
  have hthis : (done ++ [Visit.partition topic number path]).filterMap
      (Visit.bytes? t (topic, number)) =
        done.filterMap (Visit.bytes? t (topic, number)) ++ [bs] := by
    have hsome : Visit.bytes? t (topic, number) (.partition topic number path) = some bs := by
      rw [Visit.bytes?, if_pos rfl, hread]
      rfl
    rw [List.filterMap_append, List.filterMap_cons_some hsome]
    rfl
  refine ⟨h.progress.reads hvs hread hroom, h.goesOn, fun key => ?_, fun key => ?_⟩
  · rw [taken]
    dsimp only
    rw [onPartition_append, onPartition_entriesOf, h.entries, hstart, hlines]
    split
    · rename_i hkey
      subst hkey
      rw [hthis, linesAcross_concat, entriesOf_append, h.position]
      rfl
    · rename_i hkey
      rw [hother key hkey, List.append_nil]
  · rw [positionIn_taken, hstart]
    split
    · rename_i hkey
      subst hkey
      rw [hthis, linesAcross_concat, readFrom_cursor, hlines, h.position, Cursor.past, Cursor.past,
        ended_append, List.length_append, List.length_append]
      simp only [Nat.add_assoc]
    · rename_i hkey
      rw [hother key hkey, h.position]

/-- No visit takes entries back. -/
theorem length_le_foldl_visit (f : Fetch) (vs : List Visit) :
    f.entries.length ≤ (vs.foldl (visit o t) f).entries.length := by
  induction vs generalizing f with
  | nil => exact Nat.le_refl _
  | cons v vs ih =>
      by_cases hgo : f.verdict = .goOn
      · refine Nat.le_trans ?_ (ih (f.visit o t v))
        rcases visit_cases (o := o) (t := t) hgo v with ⟨e, -, hvisit⟩ | ⟨-, hvisit⟩ |
          ⟨topic, number, path, bs, -, -, -, hvisit⟩
        · exact Nat.le_of_eq (by rw [hvisit])
        · exact Nat.le_of_eq (by rw [hvisit])
        · rw [hvisit, taken, List.length_append]
          exact Nat.le_add_right _ _
      · exact Nat.le_of_eq (by rw [foldl_visit_stopped hgo])

/-- A poll that succeeds with room left has read every file to its last line. -/
theorem Shares.foldl (h : Shares o t vs cursors done f) {more : List Visit}
    (hvs : vs = done ++ more) {es : List Entry} (hes : (more.foldl (visit o t) f).result = .ok es)
    (hroom : es.length < o.limit) :
    Shares o t vs cursors vs (more.foldl (visit o t) f) := by
  induction more generalizing done f with
  | nil =>
      rw [List.append_nil] at hvs
      subst hvs
      exact h
  | cons v more ih =>
      have hentries : es = ((v :: more).foldl (visit o t) f).entries := by
        unfold Fetch.result at hes
        split at hes <;> cases hes
        rfl
      rw [List.foldl_cons] at hes hentries ⊢
      rcases visit_cases (o := o) (t := t) h.goesOn v with ⟨e, -, hvisit⟩ | ⟨hfull, hvisit⟩ |
        ⟨topic, number, path, bs, rfl, hread, hsome, hvisit⟩
      · -- it failed
        rw [hvisit, foldl_visit_stopped (by simp)] at hes
        cases hes
      · -- it had enough, so there is no room left
        rw [hvisit, foldl_visit_stopped (by simp)] at hentries
        rw [hentries] at hroom
        exact absurd hfull (Nat.not_le.mpr hroom)
      · have hgrows := length_le_foldl_visit (o := o) (t := t)
          (f.visit o t (.partition topic number path)) more
        have hstart := h.progress.start hvs hread
        rw [← hentries, hvisit, taken, hstart] at hgrows
        dsimp only at hgrows
        rw [List.length_append, length_entriesOf, lines_readFrom, List.length_take] at hgrows
        have hreads := h.reads hvs hread hsome (by omega)
        rw [← hvisit] at hreads
        exact ih hreads (by rw [hvs, List.append_assoc]; rfl) hes

end Fetch

/-- What is found under a key by a poll, file by file. -/
def Consumer.filesOf (root : Path) (t : FileTree) (c : Consumer) (key : String × Int) :
    List Bytes := (c.visits root t).filterMap (Visit.bytes? t key)

/-- **What a poll hands over of a number**, if it has room left: the lines across all its files. -/
theorem Consumer.poll_across {root : Path} {t : FileTree} {c : Consumer} {es : List Entry}
    (hpoll : (c.poll root t).1 = .ok es) (hroom : es.length < c.options.limit)
    (key : String × Int) : onPartition key es =
      entriesOf key.1 key.2 (c.position root t key).offset
        (linesAcross (c.position root t key).byte (c.filesOf root t key)) := by
  have hreads : c.closed = false ∧ c.topics.isEmpty = false := by
    rw [poll] at hpoll
    split at hpoll
    · cases hpoll
    split at hpoll
    · cases hpoll
    · rename_i hopen htopics
      exact ⟨Bool.eq_false_iff.mpr hopen, Bool.eq_false_iff.mpr htopics⟩
  have hvisits : c.visits root t = c.topics.flatMap (Visit.ofTopic root t) := by
    rw [visits, if_neg (ne_true_of_eq_false hreads.1)]
  rw [poll_eq hreads.1 hreads.2] at hpoll
  have hentries : es = (c.fetch root t).entries := by
    change (c.fetch root t).result = .ok es at hpoll
    unfold Fetch.result at hpoll
    split at hpoll <;> cases hpoll
    rfl
  rw [fetch_eq, ← hvisits] at hpoll hentries
  have h := (Fetch.shares_start c.options t (c.visits root t) c.cursors).foldl rfl hpoll hroom
  rw [hentries]
  exact h.entries key

/-! ## The listing -/

theorem nodup_paths_partitionsIn (directory : Path) {names : List String} (hapart : names.Nodup) :
    ((partitionsIn directory names).map Prod.snd).Nodup := by
  have hperm := (List.mergeSort_perm (names.filterMap fun name =>
    (partitionOf? name).map fun n => (n, directory ++ [name])) fun a b => a.1 ≤ b.1).map Prod.snd
  rw [partitionsIn, hperm.nodup_iff, List.map_filterMap]
  refine hapart.filterMap fun name name' path hpath hpath' => ?_
  simp only [Option.map_map, Option.mem_def, Option.map_eq_some_iff] at hpath hpath'
  obtain ⟨n, -, rfl⟩ := hpath
  obtain ⟨n', -, heq⟩ := hpath'
  exact (List.singleton_inj.mp (List.append_cancel_left heq)).symm

/--
**What the files of a directory are taken for.** The files whose names read as numbers are listed by
their numbers, each once and with its own path. No number is listed twice, each is one of a partition
and each has the path of that partition, exactly if no such name is respelled. A poll with room left
hands over of each number the lines across all its files, read from one place.
-/
theorem files_of_partitions {root : Path} {t : FileTree} {topic : String} {names : List String}
    (hlegal : isTopicName topic = true) (hlist : t.list (root ++ [topic]) = .ok names)
    (hapart : names.Nodup) :
    ∃ ps, partitions root topic t = .ok ps ∧
      ps.Pairwise (fun a b => a.1 ≤ b.1) ∧ (ps.map Prod.snd).Nodup ∧
      (∀ p path, (p, path) ∈ ps ↔
        ∃ name ∈ names, partitionOf? name = some p ∧ path = root ++ [topic] ++ [name]) ∧
      (((ps.map Prod.fst).Nodup ∧
          ∀ q ∈ ps, 0 ≤ q.1 ∧ partitionPath root topic q.1 = .ok q.2) ↔
        ∀ name ∈ names, (partitionOf? name).isSome → ¬ Respelled name.toList) ∧
      ∀ (c : Consumer) (es : List Entry), (c.poll root t).1 = .ok es →
        es.length < c.options.limit → ∀ key, onPartition key es =
          entriesOf key.1 key.2 (c.position root t key).offset
            (linesAcross (c.position root t key).byte (c.filesOf root t key)) := by
  refine ⟨partitionsIn (root ++ [topic]) names, ?_, pairwise_partitionsIn _ _,
    nodup_paths_partitionsIn _ hapart, fun p path => mem_partitionsIn, ⟨?_, ?_⟩,
    fun c es => Consumer.poll_across⟩
  · rw [partitions, topicPath_eq hlegal]
    dsimp only
    rw [hlist]
  · rintro ⟨-, howns⟩ name hname hsome
    obtain ⟨p, hp⟩ := Option.isSome_iff_exists.mp hsome
    obtain ⟨hnonneg, hpath⟩ := howns (p, root ++ [topic] ++ [name])
      (mem_partitionsIn.mpr ⟨name, hname, hp, rfl⟩)
    rw [partitionPath_topic hlegal hnonneg] at hpath
    have hown : partitionName p = name :=
      List.singleton_inj.mp (List.append_cancel_left (Except.ok.inj hpath))
    exact (own_name_iff hp).mp ⟨hnonneg, hown.symm⟩
  · intro hplain
    have hown : ∀ name ∈ names, ∀ p, partitionOf? name = some p →
        0 ≤ p ∧ name = partitionName p := fun name hname p hp =>
      (own_name_iff hp).mpr (hplain name hname (by rw [hp]; rfl))
    refine ⟨nodup_partitionsIn _ hapart fun name hname p hp => (hown name hname p hp).2, ?_⟩
    rintro ⟨p, path⟩ hq
    obtain ⟨name, hname, hp, rfl⟩ := mem_partitionsIn.mp hq
    obtain ⟨hnonneg, hname⟩ := hown name hname p hp
    exact ⟨hnonneg, by rw [partitionPath_topic hlegal hnonneg, hname]⟩

/-- A topic with a line in partition 0, and a stray file with that line and another one whose name
reads as the same number. -/
def strayTree : FileTree :=
  ⟨[(["log"], .directory), (["log", "t"], .directory), (["log", "t", "00.log"], .file 0),
    (["log", "t", "0.log"], .file 1)],
    (Registry.empty.add [0x78, 0x0A, 0x79, 0x0A]).add [0x78, 0x0A]⟩

/-- The theorem at this tree: the number is not that of one file, and the stray file has a line to hand
over, as if it stood behind that of the partition. -/
theorem files_of_partitions_strayTree :
    ∃ ps, partitions ["log"] "t" strayTree = .ok ps ∧
      ¬ ((ps.map Prod.fst).Nodup ∧
        ∀ q ∈ ps, 0 ≤ q.1 ∧ partitionPath ["log"] "t" q.1 = .ok q.2) ∧
      ∃ es, (Consumer.eagerConsumer.poll ["log"] strayTree).1 = .ok es ∧
        onPartition ("t", 0) es = [⟨"t", 0, 0, none, "x"⟩, ⟨"t", 0, 1, none, "y"⟩] := by
  have hlist : strayTree.list (["log"] ++ ["t"]) = .ok ["00.log", "0.log"] := rfl
  obtain ⟨ps, hps, -, -, -, hown, hpoll⟩ :=
    files_of_partitions (show isTopicName "t" = true by decide) hlist (by decide)
  have hparts : partitions ["log"] "t" strayTree =
      .ok [(0, ["log", "t", "00.log"]), (0, ["log", "t", "0.log"])] := by
    rw [partitions, topicPath_eq (by decide)]
    dsimp only
    rw [hlist]
    dsimp only
    rw [partitionsIn, List.mergeSort_of_pairwise]
    · rfl
    · decide
  have hvisits : Consumer.eagerConsumer.visits ["log"] strayTree =
      [.partition "t" 0 ["log", "t", "00.log"], .partition "t" 0 ["log", "t", "0.log"]] := by
    show ["t"].flatMap (Visit.ofTopic ["log"] strayTree) = _
    rw [List.flatMap_cons, Visit.ofTopic, hparts]
    rfl
  have hfetched : (Consumer.eagerConsumer.poll ["log"] strayTree).1 =
      .ok [⟨"t", 0, 0, none, "x"⟩, ⟨"t", 0, 1, none, "y"⟩] := by
    rw [Consumer.poll_topic rfl rfl, Fetch.readTopic]
    dsimp only
    rw [hparts]
    decide +kernel
  refine ⟨ps, hps, fun h => ?_, _, hfetched, ?_⟩
  · exact hown.mp h "00.log" (by decide) (by decide) rfl
  · rw [hpoll _ _ hfetched (by decide) ("t", 0), Consumer.position, Consumer.filesOf, hvisits]
    decide +kernel

end FileLog

end SchemaHistory
