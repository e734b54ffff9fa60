import SchemaHistory.Log.File.Consumer
import SchemaHistory.Log.File.Producer
import SchemaHistory.Proofs.File.Lines
import SchemaHistory.Proofs.File.Tree
import SchemaHistory.Proofs.Text.Value

/-!
# The partition that histories are stored on

All that a log in files does for a history happens in one directory, which has one
partition at most. The partition is missing at first, and from then on it is one file that
is only added to. A missing partition and one without bytes are the same to everybody: a
reader finds no lines, and a writer starts with an empty file.

The name that the file of a partition is given is one of the names that are read back as
the number of the partition, so no two partitions share a file.
-/

namespace SchemaHistory.FileLog

open FileTree Text

/-! ## Names of partitions -/

theorem beforeEnding?_append (e cs : List Char) : beforeEnding? e (cs ++ e) = some cs := by
  have hback : e.reverse.isPrefixOf? (cs ++ e).reverse = some cs.reverse :=
    List.isPrefixOf?_eq_some_iff_append_eq.mpr List.reverse_append.symm
  rw [beforeEnding?, hback, Option.map_some, List.reverse_reverse]

theorem partitionOf?_name (p : Int) : partitionOf? (partitionName p) =
    (some p).filter fun j => -0x80000000 ≤ j ∧ j ≤ 0x7FFFFFFF := by
  rw [partitionOf?, partitionName, String.toList_ofList, beforeEnding?_append]
  exact integer?_ofInt _ _ p

/-- **The number of a partition is read back** from the name of its file. -/
theorem partitionOf?_partitionName {p : Int} (hlo : -0x80000000 ≤ p) (hhi : p ≤ 0x7FFFFFFF) :
    partitionOf? (partitionName p) = some p := by
  rw [partitionOf?_name]
  exact Option.filter_some_pos (decide_eq_true ⟨hlo, hhi⟩)

/-- No other number is read there. -/
theorem eq_of_partitionOf? {p q : Int} (h : partitionOf? (partitionName p) = some q) : q = p := by
  rw [partitionOf?_name, Option.filter_eq_some_iff] at h
  exact (Option.some.inj h.1).symm

theorem partitionName_injective {p q : Int} (h : partitionName p = partitionName q) : p = q := by
  have hchars := congrArg String.toList h
  rw [partitionName, partitionName, String.toList_ofList, String.toList_ofList] at hchars
  exact ofInt_injective (List.append_cancel_right hchars)

theorem proper_partitionName (p : Int) : Proper (partitionName p) := by
  -- none of the names that stand for directories ends like the name of a partition
  have hending : ∀ name : String, ¬ ending <:+ name.toList → partitionName p ≠ name := by
    rintro name hname rfl
    rw [partitionName, String.toList_ofList] at hname
    exact hname (List.suffix_append _ _)
  exact ⟨hending _ (by decide), hending _ (by decide), hending _ (by decide)⟩

/-- So a file that is named like a partition is not asked for as a directory. -/
theorem getLast?_partitionName (directory : Path) (p : Int) :
    (directory ++ [partitionName p]).getLast? ≠ some "" := by
  rw [List.getLast?_concat]
  simpa using (proper_partitionName p).nonempty

/-! ## The one that histories are stored on -/

/-- The name of the file of the partition. -/
def partitionFile : String := partitionName historyPartition

theorem proper_partitionFile : Proper partitionFile := proper_partitionName _

theorem short_partitionFile : partitionFile.utf8ByteSize ≤ maxName := by decide

theorem proper_of_isTopicName {topic : String} (h : isTopicName topic = true) : Proper topic := by
  simp only [isTopicName, Bool.and_eq_true, decide_eq_true_eq] at h
  exact ⟨h.1.1.1, h.1.1.2, h.1.2⟩

/-- The path of the partition of a topic. -/
def historyPath (root : Path) (topic : String) : Path := (root ++ [topic]) ++ [partitionFile]

theorem topicPath_eq {root : Path} {topic : String} (h : isTopicName topic = true) :
    topicPath root topic = .ok (root ++ [topic]) := by
  rw [topicPath, if_pos h]

theorem partitionPath_eq {root : Path} {topic : String} (h : isTopicName topic = true) :
    partitionPath root topic historyPartition = .ok (historyPath root topic) := by
  rw [partitionPath, if_neg (by decide), topicPath_eq h]
  rfl

/-- The directory has one partition, which is the file `k` and holds these bytes. -/
structure OnFile (t : FileTree) (directory : Path) (k : Nat) (bs : Bytes) : Prop where
  parent : Assoc.get? t.nodes directory = some .directory
  /-- The partition is all there is in it. -/
  names : t.namesIn directory = [partitionFile]
  file : Assoc.get? t.nodes (directory ++ [partitionFile]) = some (.file k)
  contents : t.contents.get? k = some bs

/-- The directory has no partition, if it is there. -/
structure Bare (t : FileTree) (directory : Path) : Prop where
  /-- If there is something it is a directory. -/
  parent : ∀ n, Assoc.get? t.nodes directory = some n → n = .directory
  /-- Nothing is in it. -/
  names : t.namesIn directory = []
  file : Assoc.get? t.nodes (directory ++ [partitionFile]) = none

/-- The partition in a directory holds these bytes; one that is missing holds none. -/
def Holds (t : FileTree) (directory : Path) (bs : Bytes) : Prop :=
  (Bare t directory ∧ bs = []) ∨ ∃ k, OnFile t directory k bs

theorem bare_of_vacant {t : FileTree} {directory : Path} (h : t.Vacant directory) :
    Bare t directory := by
  refine ⟨fun n hn => ?_, h.namesIn, h.get? (List.prefix_append _ _)⟩
  rw [h.get? (List.prefix_refl _)] at hn
  cases hn

/-- Files that are there stay under their paths. -/
def KeepsFiles (t t' : FileTree) : Prop :=
  ∀ path k, Assoc.get? t.nodes path = some (.file k) → Assoc.get? t'.nodes path = some (.file k)

theorem keepsFiles_put {t : FileTree} {new : Path} {n : Node} {contents : Registry Bytes}
    (h : Assoc.get? t.nodes new = none) :
    KeepsFiles t ⟨Assoc.put new n t.nodes, contents⟩ := by
  intro path k hk
  have hne : new ≠ path := by
    rintro rfl
    rw [h] at hk
    cases hk
  rw [Assoc.get?_put, if_neg hne]
  exact hk

/-- What is behind a change of the contents only. -/
theorem OnFile.withContents {t : FileTree} {directory : Path} {k : Nat} {bs bs' : Bytes}
    (h : OnFile t directory k bs) {contents : Registry Bytes}
    (hcontents : contents.get? k = some bs') : OnFile ⟨t.nodes, contents⟩ directory k bs' :=
  ⟨h.parent, h.names, h.file, hcontents⟩

section Opening

variable {t : FileTree} {root rp : Path} {topic : String} {bs : Bytes}

/-! ## Opening -/

/-- Making the directory of the topic changes nothing that a reader sees. -/
theorem Holds.makeDirectories (h : Holds t (rp ++ [topic]) bs)
    (hroot : t.find root = .ok (rp, .directory)) (hname : Proper topic)
    (hshort : topic.utf8ByteSize ≤ maxName) :
    ∃ t', t.makeDirectories (root ++ [topic]) = (.ok (), t') ∧
      t'.find root = .ok (rp, .directory) ∧
      t'.find (root ++ [topic]) = .ok (rp ++ [topic], .directory) ∧
      Holds t' (rp ++ [topic]) bs ∧ KeepsFiles t t' := by
  have hchild := find_child hroot hname hshort
  by_cases hthere : Assoc.get? t.nodes (rp ++ [topic]) = some .directory
  · rw [hthere] at hchild
    exact ⟨t, makeDirectories_again (isDirectory_of_find hchild), hroot, hchild, h,
      fun _ _ hk => hk⟩
  · rcases h with ⟨hbare, rfl⟩ | ⟨k, hfile⟩
    · -- the directory is missing, and making it adds one node
      have hnone : Assoc.get? t.nodes (rp ++ [topic]) = none := by
        cases hn : Assoc.get? t.nodes (rp ++ [topic]) with
        | none => rfl
        | some n =>
            obtain rfl := hbare.parent n hn
            exact absurd hn hthere
      refine ⟨_, makeDirectories_child hroot hname hshort hnone, find_put hnone rfl hroot, ?_,
        .inl ⟨⟨?_, ?_, ?_⟩, rfl⟩, keepsFiles_put hnone⟩
      · rw [find_child (find_put hnone rfl hroot) hname hshort, Assoc.get?_put, if_pos rfl]
      · intro n hn
        rw [Assoc.get?_put, if_pos rfl] at hn
        exact (Option.some.inj hn).symm
      · rw [namesIn_put hnone rfl, hbare.names, List.dropLast_concat,
          if_neg (concat_ne_self rp topic).symm]
        rfl
      · rw [Assoc.get?_put, if_neg (concat_ne_self _ partitionFile).symm, hbare.file]
    · exact absurd hfile.parent hthere

theorem OnFile.find {k : Nat} (h : OnFile t (rp ++ [topic]) k bs)
    (hroot : t.find root = .ok (rp, .directory)) (hname : Proper topic)
    (hshort : topic.utf8ByteSize ≤ maxName) :
    t.find (historyPath root topic) = .ok ((rp ++ [topic]) ++ [partitionFile], .file k) := by
  have hdirectory := find_child hroot hname hshort
  rw [h.parent] at hdirectory
  rw [historyPath, find_child hdirectory proper_partitionFile short_partitionFile, h.file]

theorem OnFile.read {k : Nat} (h : OnFile t (rp ++ [topic]) k bs)
    (hroot : t.find root = .ok (rp, .directory)) (hname : Proper topic)
    (hshort : topic.utf8ByteSize ≤ maxName) : t.read (historyPath root topic) = .ok bs := by
  rw [FileTree.read, h.find hroot hname hshort]
  show Except.ok ((t.contents.get? k).getD []) = _
  rw [h.contents]
  rfl

theorem historyPath_dropLast : (historyPath root topic).dropLast = root ++ [topic] :=
  List.dropLast_concat

theorem historyPath_getLast? : (historyPath root topic).getLast? ≠ some "" :=
  getLast?_partitionName _ _

/--
**Opening the partition.** The file is made if it is missing, and the writer goes on behind the
bytes that it holds.
-/
theorem Holds.openAt (h : Holds t (rp ++ [topic]) bs)
    (hroot : t.find root = .ok (rp, .directory)) (hname : Proper topic)
    (hshort : topic.utf8ByteSize ≤ maxName) :
    ∃ k t', PartitionWriter.openAt (historyPath root topic) t =
        (.ok (PartitionWriter.continuing (.file k) bs t').1,
          (PartitionWriter.continuing (.file k) bs t').2) ∧
      t'.find root = .ok (rp, .directory) ∧ OnFile t' (rp ++ [topic]) k bs ∧ KeepsFiles t t' := by
  obtain ⟨t₁, hmake, hroot₁, hdirectory, hholds, hkeeps⟩ := h.makeDirectories hroot hname hshort
  rw [PartitionWriter.openAt, historyPath_dropLast, hmake]
  dsimp only
  rcases hholds with ⟨hbare, rfl⟩ | ⟨k, hfile⟩
  · -- there is no file yet: it is made, and it is empty
    have hnone := find_child hdirectory proper_partitionFile short_partitionFile
    rw [hbare.file] at hnone
    have hpresent : PartitionWriter.present (historyPath root topic) t₁ = .ok [] := by
      rw [PartitionWriter.present, FileTree.read, historyPath, hnone]
    have hopen := openAppend_new hdirectory proper_partitionFile short_partitionFile hbare.file
    rw [hpresent]
    dsimp only
    rw [historyPath, hopen]
    refine ⟨t₁.contents.size, _, rfl, find_put hbare.file rfl hroot₁, ⟨?_, ?_, ?_, ?_⟩, ?_⟩
    · have hdir : Assoc.get? t₁.nodes (rp ++ [topic]) = some .directory := by
        rw [find_child hroot₁ hname hshort] at hdirectory
        split at hdirectory
        · cases hdirectory
        · rename_i n hn
          cases hdirectory
          exact hn
      rw [Assoc.get?_put, if_neg (concat_ne_self _ partitionFile), hdir]
    · rw [namesIn_put hbare.file rfl, hbare.names, List.dropLast_concat, if_pos rfl,
        List.getLast?_concat]
      rfl
    · rw [Assoc.get?_put, if_pos rfl]
    · exact Registry.get?_add_self []
    · exact fun path k hk => keepsFiles_put hbare.file path k (hkeeps path k hk)
  · -- the file is there, and is opened where it ends
    have hpresent : PartitionWriter.present (historyPath root topic) t₁ = .ok bs := by
      rw [PartitionWriter.present, hfile.read hroot₁ hname hshort]
    rw [hpresent]
    dsimp only
    rw [openAppend_file historyPath_getLast? (hfile.find hroot₁ hname hshort)]
    exact ⟨k, t₁, rfl, hroot₁, hfile, hkeeps⟩

/-- A topic with a name that is too long cannot be opened. -/
theorem openAt_long (hroot : t.find root = .ok (rp, .directory)) (hname : Proper topic)
    (hlong : maxName < topic.utf8ByteSize) :
    PartitionWriter.openAt (historyPath root topic) t = (.error .nameTooLong, t) := by
  rw [PartitionWriter.openAt, historyPath_dropLast, makeDirectories_child_long hroot hname hlong]

/-! ## What a reader sees -/

/-- Reading the topic gives the bytes of its partition; a topic that has none, or that cannot be
read, gives none. -/
def Seen (t : FileTree) (root : Path) (topic : String) (bs : Bytes) : Prop :=
  (partitions root topic t = .ok [(historyPartition, historyPath root topic)] ∧
      t.read (historyPath root topic) = .ok bs) ∨
    ((partitions root topic t = .ok [] ∨ ∃ e, partitions root topic t = .error e) ∧ bs = [])

theorem partitionsIn_nil (directory : Path) : partitionsIn directory [] = [] := by
  simp [partitionsIn]

theorem partitionsIn_file (directory : Path) : partitionsIn directory [partitionFile] =
    [(historyPartition, directory ++ [partitionFile])] := by
  have hnumber : partitionOf? partitionFile = some historyPartition := by decide
  rw [partitionsIn, List.filterMap_cons, hnumber]
  simp

/-- A topic that is not found has nothing to read. -/
theorem seen_of_find_error (hlegal : isTopicName topic = true) {e : SystemError}
    (h : t.find (root ++ [topic]) = .error e) : Seen t root topic [] := by
  have hlist : t.list (root ++ [topic]) = .error e := by
    rw [FileTree.list, h]
  refine .inr ⟨?_, rfl⟩
  rw [partitions, topicPath_eq hlegal]
  dsimp only
  rw [hlist]
  cases e with
  | noEntry => exact .inl rfl
  | _ => exact .inr ⟨_, rfl⟩

theorem Holds.seen (h : Holds t (rp ++ [topic]) bs) (hroot : t.find root = .ok (rp, .directory))
    (hlegal : isTopicName topic = true) (hshort : topic.utf8ByteSize ≤ maxName) :
    Seen t root topic bs := by
  have hname := proper_of_isTopicName hlegal
  have hchild := find_child hroot hname hshort
  rcases h with ⟨hbare, rfl⟩ | ⟨k, hfile⟩
  · cases hn : Assoc.get? t.nodes (rp ++ [topic]) with
    | none =>
        rw [hn] at hchild
        exact seen_of_find_error hlegal hchild
    | some n =>
        obtain rfl := hbare.parent n hn
        rw [hn] at hchild
        refine .inr ⟨.inl ?_, rfl⟩
        rw [partitions, topicPath_eq hlegal]
        dsimp only
        rw [list_eq hchild, hbare.names]
        dsimp only
        rw [partitionsIn_nil]
  · rw [hfile.parent] at hchild
    refine .inl ⟨?_, hfile.read hroot hname hshort⟩
    rw [partitions, topicPath_eq hlegal]
    dsimp only
    rw [list_eq hchild, hfile.names]
    dsimp only
    rw [partitionsIn_file]
    rfl

end Opening

/-! ## What a consumer is served -/

namespace Fetch

/-- Where a poll starts to read a partition that holds some bytes. -/
def startIn (o : ConsumerOptions) (cursors : Cursors) (key : String × Int) (bs : Bytes) : Cursor :=
  (Assoc.get? cursors key).getD
    (match o.start with
      | .earliest => .zero
      | .latest => endOf bs)

/-- What comes of a partition that is read. -/
def taken (o : ConsumerOptions) (topic : String) (number : Int) (bs : Bytes) (f : Fetch)
    (start : Cursor) : Fetch :=
  { f with
    entries := f.entries ++ entriesOf topic number start.offset
      (readFrom (o.limit - f.entries.length) start bs).1
    cursors := Assoc.put (topic, number) (readFrom (o.limit - f.entries.length) start bs).2
      f.cursors }

theorem readPartition_taken {o : ConsumerOptions} {t : FileTree} {f : Fetch} {topic : String}
    {number : Int} {path : Path} {bs : Bytes} (h : f.verdict = .goOn)
    (hroom : f.entries.length < o.limit) (hread : t.read path = .ok bs) :
    f.readPartition o t topic (number, path) =
      f.taken o topic number bs (startIn o f.cursors (topic, number) bs) := by
  rw [readPartition, h]
  dsimp only
  rw [if_neg (Nat.not_le_of_lt hroom), hread, taken, h]
  rfl

end Fetch

/-- A consumer of one topic polls by reading it. -/
theorem Consumer.poll_topic {c : Consumer} {t : FileTree} {root : Path} {topic : String}
    (hopen : c.closed = false) (htopics : c.topics = [topic]) : c.poll root t =
      ((Fetch.readTopic c.options root t ⟨[], c.cursors, .goOn⟩ topic).result,
        { c with
          cursors := (Fetch.readTopic c.options root t ⟨[], c.cursors, .goOn⟩ topic).cursors }) := by
  have hfetch : c.fetch root t = Fetch.readTopic c.options root t ⟨[], c.cursors, .goOn⟩ topic := by
    rw [Consumer.fetch, htopics]
    rfl
  rw [Consumer.poll, if_neg (ne_true_of_eq_false hopen), if_neg (by rw [htopics]; simp), ← hfetch]

end SchemaHistory.FileLog
