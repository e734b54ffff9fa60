import SchemaHistory.Log.File.Broker
import SchemaHistory.Proofs.File.FailedPoll
import SchemaHistory.Proofs.File.Spot

/-!
# Reading a log that grows

A consumer polls while others add to the files. What carries the reading is that of each
partition it has handed over some first lines, and stands right behind them. Bytes that are
added at the end change no line that is there, so this survives whatever is added, in the
middle of a line or not; and a poll continues each partition it comes to, whichever one it
comes to, and however often. A poll that hands over nothing has come to all of them.
-/

namespace SchemaHistory

namespace FileLog

open FileTree Text

theorem onPartition_entriesOf (key : PartitionKey) (topic : String) (partition : Int)
    (offset : Nat) (lines : List Bytes) : onPartition key (entriesOf topic partition offset lines) =
      if (topic, partition) = key then entriesOf topic partition offset lines else [] := by
  refine onPartition_of fun e he => ?_
  obtain ⟨htopic, hpartition, -⟩ := mem_entriesOf he
  rw [htopic, hpartition]

/-! ## Topics in order -/

/-- The directory of the topic is missing, or each file in it that is named like a partition has the
name of that partition and can be read. -/
def Orderly (root : Path) (t : FileTree) (topic : String) : Prop :=
  t.find (root ++ [topic]) = .error .noEntry ∨
    ∃ directory, t.find (root ++ [topic]) = .ok (directory, .directory) ∧
      ∀ name ∈ t.namesIn directory, ∀ p, partitionOf? name = some p →
        0 ≤ p ∧ name = partitionName p ∧ ∃ bs, t.read (root ++ [topic] ++ [name]) = .ok bs

/-- The visit comes to a partition and finds its bytes there. -/
def Visit.Finds (root : Path) (t : FileTree) (v : Visit) : Prop :=
  ∃ topic p path, v = .partition topic p path ∧
    t.read path = .ok (partitionBytes root t (topic, p))

section Visits

variable {t : FileTree} {root : Path} {topic : String}

/-- A name under which something is found in a directory is listed there. -/
theorem mem_namesIn_of_find {path directory : Path} {name : String} {q : Path × Node}
    (hdir : t.find path = .ok (directory, .directory)) (hname : Proper name)
    (hq : t.find (path ++ [name]) = .ok q) : name ∈ t.namesIn directory := by
  rw [find_append hdir, walk_name hname] at hq
  split at hq
  · cases hq
  split at hq
  · cases hq
  · rename_i n hn
    exact mem_namesIn.mpr ⟨n, hn⟩

theorem partitionPath_topic (hlegal : isTopicName topic = true) {p : Int} (hp : 0 ≤ p) :
    partitionPath root topic p = .ok (root ++ [topic] ++ [partitionName p]) :=
  partitionPath_eq_ok.mpr ⟨hlegal, hp, rfl⟩

theorem mem_partitionsIn {directory path : Path} {names : List String} {p : Int} :
    (p, path) ∈ partitionsIn directory names ↔
      ∃ name ∈ names, partitionOf? name = some p ∧ path = directory ++ [name] := by
  rw [partitionsIn, List.mem_mergeSort, List.mem_filterMap]
  constructor
  · rintro ⟨name, hname, h⟩
    obtain ⟨n, hn, he⟩ := Option.map_eq_some_iff.mp h
    cases he
    exact ⟨name, hname, hn, rfl⟩
  · rintro ⟨name, hname, hn, rfl⟩
    exact ⟨name, hname, by rw [hn]; rfl⟩

/-- **A poll of a topic in order** comes to its partitions and finds the bytes of each; those it does
not come to hold nothing. -/
theorem Orderly.visits (h : Orderly root t topic) (hlegal : isTopicName topic = true) :
    (∀ v ∈ Visit.ofTopic root t topic, v.Finds root t ∧
      ∀ topic' p path, v = .partition topic' p path → topic' = topic) ∧
    ∀ p, 0 ≤ p → p ≤ 0x7FFFFFFF → (∃ path, .partition topic p path ∈ Visit.ofTopic root t topic) ∨
      partitionBytes root t (topic, p) = [] := by
  rw [Visit.ofTopic, partitions, topicPath_eq hlegal]
  dsimp only
  rcases h with hnone | ⟨directory, hdir, hnames⟩
  · have hlist : t.list (root ++ [topic]) = .error .noEntry := by
      rw [FileTree.list, hnone]
    rw [hlist]
    refine ⟨fun v hv => (List.not_mem_nil hv).elim, fun p hp _ => .inr ?_⟩
    rw [partitionBytes, partitionPath_topic hlegal hp]
    dsimp only
    rw [FileTree.read, find_append_error hnone]
    rfl
  · rw [list_eq hdir]
    dsimp only
    refine ⟨fun v hv => ?_, fun p hp hhi => ?_⟩
    · obtain ⟨⟨p, path⟩, hmem, rfl⟩ := List.mem_map.mp hv
      obtain ⟨name, hname, hp, rfl⟩ := mem_partitionsIn.mp hmem
      obtain ⟨hp0, rfl, bs, hread⟩ := hnames name hname p hp
      refine ⟨⟨topic, p, _, rfl, ?_⟩, fun topic' p' path' he => by cases he; rfl⟩
      rw [partitionBytes, partitionPath_topic hlegal hp0]
      dsimp only
      rw [hread]
      rfl
    · -- a partition with a file has the name of the file listed
      cases hfind : t.find (root ++ [topic] ++ [partitionName p]) with
      | error e =>
          right
          rw [partitionBytes, partitionPath_topic hlegal hp]
          dsimp only
          rw [FileTree.read, hfind]
          rfl
      | ok q =>
          refine .inl ⟨_, List.mem_map.mpr ⟨(p, root ++ [topic] ++ [partitionName p]), ?_, rfl⟩⟩
          exact mem_partitionsIn.mpr ⟨_, mem_namesIn_of_find hdir (proper_partitionName p) hfind,
            partitionOf?_partitionName (Int.le_trans (by decide) hp) hhi, rfl⟩

end Visits

/-! ## Adding to a partition -/

section Adding

variable {t t' : FileTree} {root rp : Path} {topic : String}

/-- Nothing stands in a directory that is not there. -/
theorem namesIn_missing (hstanding : t.Standing) {directory : Path} (hdirectory : directory ≠ [])
    (hnone : Assoc.get? t.nodes directory = none) : t.namesIn directory = [] := by
  refine List.eq_nil_iff_forall_not_mem.mpr fun name hname => ?_
  obtain ⟨n, hn⟩ := mem_namesIn.mp hname
  have hlisted := (hstanding.parent _ _ _ hn).resolve_left hdirectory
  rw [hnone] at hlisted
  cases hlisted

/-- What can be read under the path of a partition is the file at its spot. -/
theorem onSpot_of_read (hroot : t.find root = .ok (rp, .directory)) (hsound : t.Sound)
    (hlegal : isTopicName topic = true) (hshort : topic.utf8ByteSize ≤ maxName)
    (hdir : Assoc.get? t.nodes (rp ++ [topic]) = some .directory) {p : Int} (hp : 0 ≤ p) {bs : Bytes}
    (hread : t.read (root ++ [topic] ++ [partitionName p]) = .ok bs) :
    ∃ k, OnSpot t rp (topic, p) k := by
  have hchild := find_child hroot (proper_of_isTopicName hlegal) hshort
  rw [hdir] at hchild
  rw [FileTree.read] at hread
  by_cases hlong : maxName < (partitionName p).utf8ByteSize
  · rw [find_child_long hchild (proper_partitionName p) hlong] at hread
    cases hread
  have hfits : Fits (topic, p) := ⟨hlegal, hp, hshort, Nat.le_of_not_lt hlong⟩
  have hfind := find_partition hroot hfits
  rw [hdir] at hfind
  cases hspot : Assoc.get? t.nodes (spot rp (topic, p)) with
  | none =>
      rw [hspot] at hfind
      rw [hfind] at hread
      cases hread
  | some n =>
      cases n with
      | file k => exact ⟨k, hfits, hspot⟩
      | nullDevice => exact absurd hspot (hsound.plain _)
      | directory =>
          rw [hspot] at hfind
          rw [hfind] at hread
          cases hread

/-- A topic is in order if what is named like a partition in its directory is the file at the spot of
that partition. -/
theorem orderly_iff (hroot : t.find root = .ok (rp, .directory)) (hsound : t.Sound)
    (hlegal : isTopicName topic = true) : Orderly root t topic ↔ topic.utf8ByteSize ≤ maxName ∧
      (∀ n, Assoc.get? t.nodes (rp ++ [topic]) = some n → n = .directory) ∧
      ∀ name ∈ t.namesIn (rp ++ [topic]), ∀ p, partitionOf? name = some p →
        name = partitionName p ∧ ∃ k, OnSpot t rp (topic, p) k := by
  have hproper := proper_of_isTopicName hlegal
  by_cases hshort : topic.utf8ByteSize ≤ maxName
  swap
  · -- a name that is too long is not found, and that is no missing directory
    rw [Orderly, find_child_long hroot hproper (Nat.lt_of_not_le hshort)]
    simp [hshort]
  have hchild := find_child hroot hproper hshort
  cases hn : Assoc.get? t.nodes (rp ++ [topic]) with
  | none =>
      rw [hn] at hchild
      have hnames : t.namesIn (rp ++ [topic]) = [] := namesIn_missing hsound.standing (by simp) hn
      rw [hnames]
      exact ⟨fun _ => ⟨hshort, by simp, by simp⟩, fun _ => .inl hchild⟩
  | some n =>
      rw [hn] at hchild
      constructor
      · rintro (h | ⟨directory, h, hnames⟩)
        · rw [hchild] at h
          cases h
        · rw [hchild] at h
          cases h
          refine ⟨hshort, fun n hn => (Option.some.inj hn).symm, fun name hname p hp => ?_⟩
          obtain ⟨hp0, rfl, bs, hread⟩ := hnames name hname p hp
          exact ⟨rfl, onSpot_of_read hroot hsound hlegal hshort hn hp0 hread⟩
      · rintro ⟨-, hdir, hnames⟩
        obtain rfl := hdir n rfl
        refine .inr ⟨rp ++ [topic], hchild, fun name hname p hp => ?_⟩
        obtain ⟨rfl, k, hspot⟩ := hnames name hname p hp
        have hfind := find_partition hroot hspot.fits
        rw [hn, hspot.file] at hfind
        refine ⟨hspot.fits.number, rfl, t.bytes k, ?_⟩
        rw [FileTree.read, hfind]
        rfl

/-- What is put at the spot of a partition leaves a topic in order. -/
theorem PutAt.names {key : PartitionKey} {k : Nat} (h : PutAt t t' (spot rp key))
    (hfiles : KeepsFiles t t') (hspot : OnSpot t' rp key k)
    (hnames : ∀ name ∈ t.namesIn (rp ++ [topic]), ∀ p, partitionOf? name = some p →
      name = partitionName p ∧ ∃ k, OnSpot t rp (topic, p) k) :
    ∀ name ∈ t'.namesIn (rp ++ [topic]), ∀ p, partitionOf? name = some p →
      name = partitionName p ∧ ∃ k, OnSpot t' rp (topic, p) k := by
  intro name hname p hp
  rcases h.mem_namesIn hname with hold | hnew
  · obtain ⟨he, k, hk⟩ := hnames name hold p hp
    exact ⟨he, k, hk.keeps hfiles⟩
  · obtain ⟨hfront, hlast⟩ := List.append_inj' hnew rfl
    obtain ⟨-, htopic⟩ := List.append_inj' hfront rfl
    obtain rfl := List.singleton_inj.mp hlast
    obtain rfl := eq_of_partitionOf? hp
    obtain rfl := List.singleton_inj.mp htopic
    exact ⟨rfl, k, hspot⟩

/--
**Adding to a partition** under its path, where its file is made if it is missing: it holds the
bytes behind those that it held, the other partitions hold what they held, and topics that were
in order are in order.
-/
theorem appendTo_partition (hroot : t.find root = .ok (rp, .directory)) (hsound : t.Sound)
    (key : PartitionKey) {path : Path} (hpath : partitionPath root key.1 key.2 = .ok path)
    {bs : Bytes} (h : t.appendTo path bs = (.ok (), t')) :
    t'.find root = .ok (rp, .directory) ∧ t'.Sound ∧
      (∀ other, partitionBytes root t' other = if other = key then partitionBytes root t other ++ bs
        else partitionBytes root t other) ∧
      ∀ topic, isTopicName topic = true → Orderly root t topic → Orderly root t' topic := by
  obtain ⟨hlegal, hnumber, rfl⟩ := partitionPath_ok hpath
  rw [appendTo, withFile, List.dropLast_concat] at h
  rcases makeTopic_cases hroot hsound (proper_of_isTopicName hlegal) with ⟨e, hmake⟩ |
    ⟨t₁, hmake, hkept, htopic, hdir, hput⟩
  · rw [hmake] at h
    cases h
  rw [hmake] at h
  dsimp only at h
  by_cases hname : maxName < (partitionName key.2).utf8ByteSize
  · have hchild := find_child hkept.found (proper_of_isTopicName hlegal) htopic
    rw [hdir] at hchild
    have hlast := getLast?_partitionName (root ++ [key.1]) key.2
    rw [openAppend, if_neg hlast, find_child_long hchild (proper_partitionName _) hname] at h
    cases h
  rcases openAppend_cases hkept.found hkept.sound
    ⟨hlegal, hnumber, htopic, Nat.le_of_not_lt hname⟩ hdir with
    ⟨-, e, hopen⟩ | ⟨-, k, t₂, hopen, hkept', hspot, hput'⟩
  · rw [hopen] at h
    cases h
  rw [hopen] at h
  cases h
  have hall := hkept.trans hkept'
  refine ⟨(find_nodes (append_nodes _ _) root).trans hall.found, hall.sound.append _ _,
    fun other => ?_, fun topic hlegal' horderly => ?_⟩
  · rw [partitionBytes_append hall.sound.standing hall.found hspot, hall.bytes]
  · rw [orderly_iff hroot hsound hlegal'] at horderly
    obtain ⟨hshort, hdirs, hnames⟩ := horderly
    refine (orderly_iff ((find_nodes (append_nodes _ _) root).trans hall.found)
      (hall.sound.append _ _) hlegal').mpr ⟨hshort, fun n hn => ?_, ?_⟩
    · -- the directory that was made is a directory, and the others are what they were
      have hne : rp ++ [topic] ≠ spot rp key := fun he => by
        have := congrArg List.length he
        simp [spot] at this
      rw [append_nodes, hput'.get? hne] at hn
      by_cases hsame : topic = key.1
      · rw [hsame, hdir] at hn
        exact (Option.some.inj hn).symm
      · rw [hput.get? (by simpa using hsame)] at hn
        exact hdirs n hn
    · have hnames₁ : ∀ name ∈ t₁.namesIn (rp ++ [topic]), ∀ p, partitionOf? name = some p →
          name = partitionName p ∧ ∃ k, OnSpot t₁ rp (topic, p) k := by
        intro name hname p hp
        rcases hput.mem_namesIn hname with hold | hnew
        · obtain ⟨he, k, hk⟩ := hnames name hold p hp
          exact ⟨he, k, hk.keeps hkept.files⟩
        · have := congrArg List.length hnew
          simp at this
      intro name hname p hp
      obtain ⟨he, j, hj⟩ := hput'.names hkept'.files hspot hnames₁ name hname p hp
      exact ⟨he, j, hj.keeps fun _ _ hk => hk⟩

end Adding

/-! ## One poll -/

/-- The entries of the partition are its first lines, and the cursor is behind them. -/
def ReadTo (bs : Bytes) (key : PartitionKey) (cursors : Cursors) (es : List Entry) : Prop :=
  ∃ lines, lines <+: linesIn bs ∧ onPartition key es = entriesOf key.1 key.2 0 lines ∧
    (Assoc.get? cursors key).getD .zero = behindLines lines

theorem ReadTo.grown {bs bs' : Bytes} {key : PartitionKey} {cursors : Cursors} {es : List Entry}
    (h : ReadTo bs key cursors es) (hgrown : bs <+: bs') : ReadTo bs' key cursors es := by
  obtain ⟨lines, hlines, hes, hcursor⟩ := h
  exact ⟨lines, hlines.trans (linesIn_mono hgrown), hes, hcursor⟩

theorem readTo_nil (bs : Bytes) (key : PartitionKey) : ReadTo bs key [] [] :=
  ⟨[], List.nil_prefix, rfl, rfl⟩

/-- What a poll that began after the entries `handed` has done once it has made the visits `done`. -/
structure Gathered (root : Path) (t : FileTree) (m : Nat) (handed : List Entry)
    (done : List Visit) (f : Fetch) : Prop where
  /-- Each partition is read up to its cursor. -/
  read : ∀ key, ReadTo (partitionBytes root t key) key f.cursors (handed ++ f.entries)
  /-- It has no more entries than it may hand over. -/
  few : f.entries.length ≤ m
  /-- It did not fail, and it goes on as long as it has nothing. -/
  verdict : f.verdict = .goOn ∨ f.verdict = .full ∧ f.entries ≠ []
  /-- Its entries are of the topics it came to. -/
  topics : ∀ e ∈ f.entries, ∃ p path, .partition e.topic p path ∈ done
  /-- As long as it has nothing, the partitions it came to were handed over before. -/
  drained : f.entries = [] → ∀ topic p path, .partition topic p path ∈ done →
    onPartition (topic, p) handed =
      entriesOf topic p 0 (linesIn (partitionBytes root t (topic, p)))

section Poll

variable {root : Path} {t : FileTree} {m : Nat} {handed : List Entry} {done : List Visit} {f : Fetch}

theorem visit_partition (o : ConsumerOptions) (h : f.verdict = .goOn) {topic : String} {p : Int}
    {path : Path} {bs : Bytes} (hread : t.read path = .ok bs) :
    f.visit o t (.partition topic p path) =
      if o.limit ≤ f.entries.length then { f with verdict := .full }
      else f.taken o topic p bs (Fetch.startIn o f.cursors (topic, p) bs) := by
  rw [Fetch.visit, Fetch.readPartition, h]
  dsimp only
  rw [hread, Fetch.taken, h]
  rfl

/-- A partition is read on from where it was read to. -/
theorem Gathered.taken (h : Gathered root t m handed done f) (hgo : f.verdict = .goOn)
    (hroom : f.entries.length < m) (topic : String) (p : Int) (path : Path) :
    Gathered root t m handed (done ++ [.partition topic p path])
      (f.taken ⟨m, .earliest⟩ topic p (partitionBytes root t (topic, p))
        (Fetch.startIn ⟨m, .earliest⟩ f.cursors (topic, p) (partitionBytes root t (topic, p)))) := by
  obtain ⟨lines, ⟨after, hafter⟩, hes, hcursor⟩ := h.read (topic, p)
  generalize hbytes : partitionBytes root t (topic, p) = bs at hafter
  obtain ⟨tail, hlined⟩ := lined_linesIn bs
  rw [← hafter] at hlined
  have hstart : Fetch.startIn ⟨m, .earliest⟩ f.cursors (topic, p) bs = behindLines lines := hcursor
  have hread := hlined.readFrom (m - f.entries.length)
  rw [hstart, Fetch.taken, hread]
  dsimp only
  generalize hnext : after.take (m - f.entries.length) = next
  have hlength : next.length ≤ m - f.entries.length := by
    rw [← hnext, List.length_take]
    exact Nat.min_le_left _ _
  refine ⟨fun key => ?_, ?_, .inl hgo, fun e he => ?_, fun hnone topic' p' path' hmem => ?_⟩
  · by_cases hkey : (topic, p) = key
    · subst hkey
      refine ⟨lines ++ next, ?_, ?_, ?_⟩
      · rw [hbytes, ← hafter, ← hnext]
        exact (List.prefix_append_right_inj _).mpr (List.take_prefix _ _)
      · rw [← List.append_assoc, onPartition_append, hes, onPartition_entriesOf, if_pos rfl,
          entriesOf_append, Nat.zero_add]
        rfl
      · rw [Assoc.get?_put, if_pos rfl]
        rfl
    · obtain ⟨lines', hlines', hes', hcursor'⟩ := h.read key
      refine ⟨lines', hlines', ?_, ?_⟩
      · rw [← List.append_assoc, onPartition_append, hes', onPartition_entriesOf, if_neg hkey,
          List.append_nil]
      · rw [Assoc.get?_put, if_neg hkey]
        exact hcursor'
  · rw [List.length_append, length_entriesOf]
    omega
  · rcases List.mem_append.mp he with he | he
    · obtain ⟨p', path', hmem⟩ := h.topics e he
      exact ⟨p', path', List.mem_append_left _ hmem⟩
    · refine ⟨p, path, ?_⟩
      rw [(mem_entriesOf he).1]
      exact List.mem_append_right _ (List.mem_singleton_self _)
  · obtain ⟨hold, hnew⟩ := List.append_eq_nil_iff.mp hnone
    rcases List.mem_append.mp hmem with hmem | hmem
    · exact h.drained hold topic' p' path' hmem
    · -- there was room and nothing came, so there was no further line
      cases List.mem_singleton.mp hmem
      have hlen : next.length = 0 := by
        rw [← length_entriesOf topic p (behindLines lines).offset next, hnew]
        rfl
      have hdone : after = [] := by
        rw [← hnext, List.length_take] at hlen
        exact List.eq_nil_of_length_eq_zero (by omega)
      rw [hold, List.append_nil] at hes
      rw [hbytes, ← hafter, hdone, List.append_nil]
      exact hes

theorem Gathered.visit (h : Gathered root t m handed done f) (hm : 0 < m) {v : Visit}
    (hv : v.Finds root t) :
    Gathered root t m handed (done ++ [v]) (f.visit ⟨m, .earliest⟩ t v) := by
  obtain ⟨topic, p, path, rfl, hread⟩ := hv
  have hmore : ∀ {u : Visit}, u ∈ done → u ∈ done ++ [.partition topic p path] :=
    fun hu => List.mem_append_left _ hu
  rcases h.verdict with hgo | ⟨hfull, hsome⟩
  · rw [visit_partition ⟨m, .earliest⟩ hgo hread]
    by_cases hroom : m ≤ f.entries.length
    · have hsome : f.entries ≠ [] := by
        intro hnone
        rw [hnone] at hroom
        exact absurd hm (Nat.not_lt.mpr hroom)
      rw [if_pos hroom]
      refine ⟨h.read, h.few, .inr ⟨rfl, hsome⟩, fun e he => ?_, fun hnone => absurd hnone hsome⟩
      obtain ⟨p', path', hmem⟩ := h.topics e he
      exact ⟨p', path', hmore hmem⟩
    · rw [if_neg hroom]
      exact h.taken hgo (Nat.lt_of_not_le hroom) topic p path
  · rw [Fetch.visit_stopped (by rw [hfull]; simp)]
    refine ⟨h.read, h.few, h.verdict, fun e he => ?_, fun hnone => absurd hnone hsome⟩
    obtain ⟨p', path', hmem⟩ := h.topics e he
    exact ⟨p', path', hmore hmem⟩

theorem Gathered.foldl (h : Gathered root t m handed done f) (hm : 0 < m) {vs : List Visit}
    (hvs : ∀ v ∈ vs, v.Finds root t) :
    Gathered root t m handed (done ++ vs) (vs.foldl (Fetch.visit ⟨m, .earliest⟩ t) f) := by
  induction vs generalizing done f with
  | nil =>
      rw [List.append_nil]
      exact h
  | cons v vs ih =>
      have hnext := ih (h.visit hm (hvs v (by simp))) fun u hu => hvs u (by simp [hu])
      rwa [List.append_assoc] at hnext

/-- **A poll of a consumer that has read each partition up to its cursor** succeeds, hands over at most
`m` entries, and leaves the consumer where it has read each partition up to its cursor; if it
hands over nothing, all partitions of its topics were read to their ends. -/
theorem Consumer.poll_gathered {c : Consumer} (hopen : c.closed = false)
    (hoptions : c.options = ⟨m, .earliest⟩) (hm : 0 < m) (htopics : c.topics ≠ [])
    (hlegal : ∀ topic ∈ c.topics, isTopicName topic = true)
    (horderly : ∀ topic ∈ c.topics, Orderly root t topic)
    (hread : ∀ key, ReadTo (partitionBytes root t key) key c.cursors handed) :
    ∃ es cursors, c.poll root t = (.ok es, { c with cursors }) ∧ es.length ≤ m ∧
      (∀ key, ReadTo (partitionBytes root t key) key cursors (handed ++ es)) ∧
      (∀ e ∈ es, e.topic ∈ c.topics) ∧
      (es = [] → ∀ topic ∈ c.topics, ∀ p, 0 ≤ p → p ≤ 0x7FFFFFFF →
        onPartition (topic, p) handed =
          entriesOf topic p 0 (linesIn (partitionBytes root t (topic, p)))) := by
  have hvisits : ∀ v ∈ c.topics.flatMap (Visit.ofTopic root t), v.Finds root t := by
    intro v hv
    obtain ⟨topic, htopic, hv⟩ := List.mem_flatMap.mp hv
    exact (((horderly topic htopic).visits (hlegal topic htopic)).1 v hv).1
  have hbegin : Gathered root t m handed [] ⟨[], c.cursors, .goOn⟩ := by
    refine ⟨fun key => ?_, Nat.zero_le _, .inl rfl, fun e he => (List.not_mem_nil he).elim,
      fun _ _ _ _ h => (List.not_mem_nil h).elim⟩
    rw [List.append_nil]
    exact hread key
  have hend := hbegin.foldl hm hvisits
  rw [List.nil_append, ← hoptions, ← Consumer.fetch_eq] at hend
  have hresult : (c.fetch root t).result = .ok (c.fetch root t).entries := by
    rcases hend.verdict with hgo | ⟨hfull, -⟩
    · rw [Fetch.result, hgo]
    · rw [Fetch.result, hfull]
  refine ⟨(c.fetch root t).entries, (c.fetch root t).cursors, ?_, hend.few, hend.read,
    fun e he => ?_, fun hnone topic htopic p hp hhi => ?_⟩
  · rw [Consumer.poll_eq hopen (by simpa using htopics), hresult]
  · obtain ⟨p, path, hmem⟩ := hend.topics e he
    obtain ⟨topic, htopic, hv⟩ := List.mem_flatMap.mp hmem
    have hsame := ((horderly topic htopic).visits (hlegal topic htopic)).1 _ hv
    rw [hsame.2 _ _ _ rfl]
    exact htopic
  · rcases ((horderly topic htopic).visits (hlegal topic htopic)).2 p hp hhi with
      ⟨path, hv⟩ | hempty
    · exact hend.drained hnone topic p path (List.mem_flatMap.mpr ⟨topic, htopic, hv⟩)
    · -- a partition that holds nothing has no line that could have been handed over
      obtain ⟨lines, hlines, hes, -⟩ := hread (topic, p)
      rw [hempty] at hlines ⊢
      obtain rfl := List.prefix_nil.mp hlines
      exact hes

end Poll

/-! ## A consumer while the files grow -/

/-- A consumer, the files that it reads, and what it has handed over since it last subscribed. -/
structure Reader where
  consumer : Consumer
  files : FileTree
  handed : List Entry

/-- What happens to a consumer and to the files. -/
inductive ReadStep
  | poll
  | subscribe (topics : List String)
  /-- Others have changed the files. -/
  | change (files : FileTree)

namespace Reader

/-- A consumer that was just made. -/
def start (o : ConsumerOptions) (files : FileTree) : Reader := ⟨⟨o, [], [], false⟩, files, []⟩

/-- The state after one step. What was handed over before a subscription does not count after it,
unless it failed. -/
def step (root : Path) (r : Reader) : ReadStep → Reader
  | .poll =>
    let (result, consumer) := r.consumer.poll root r.files
    { r with consumer, handed := r.handed ++ Replay.entriesOf result }
  | .subscribe topics =>
    match r.consumer.subscribe root topics with
    | (.ok _, consumer) => { r with consumer, handed := [] }
    | (.error _, consumer) => { r with consumer }
  | .change files => { r with files }

/-- The state after some steps. -/
def exec (root : Path) (r : Reader) (steps : List ReadStep) : Reader := steps.foldl (step root) r

/-- What is assumed of the others: the bytes of a partition stay and more come at the end only, and
the topics of the consumer are in order when it polls. -/
def Admits (root : Path) (r : Reader) : ReadStep → Prop
  | .poll => ∀ topic ∈ r.consumer.topics, Orderly root r.files topic
  | .subscribe _ => True
  | .change files => ∀ key, partitionBytes root r.files key <+: partitionBytes root files key

/-- This is assumed at every step. -/
def AdmitsAll (root : Path) (r : Reader) : List ReadStep → Prop
  | [] => True
  | s :: steps => r.Admits root s ∧ AdmitsAll root (r.step root s) steps

/-- The consumer is open and goes by its options, and it has read each partition up to its cursor. -/
structure Reads (root : Path) (m : Nat) (r : Reader) : Prop where
  isOpen : r.consumer.closed = false
  options : r.consumer.options = ⟨m, .earliest⟩
  legal : ∀ topic ∈ r.consumer.topics, isTopicName topic = true
  /-- Only topics that it reads were handed over. -/
  topics : ∀ e ∈ r.handed, e.topic ∈ r.consumer.topics
  read : ∀ key, ReadTo (partitionBytes root r.files key) key r.consumer.cursors r.handed

variable {root : Path} {m : Nat} {r : Reader}

theorem reads_start (root : Path) (m : Nat) (files : FileTree) :
    (start ⟨m, .earliest⟩ files).Reads root m :=
  ⟨rfl, rfl, fun _ h => (List.not_mem_nil h).elim, fun _ h => (List.not_mem_nil h).elim,
    fun key => readTo_nil _ key⟩

theorem legal_of_mapM {topics : List String} {paths : List Path}
    (h : topics.mapM (topicPath root) = .ok paths) :
    ∀ topic ∈ topics, isTopicName topic = true := by
  induction topics generalizing paths with
  | nil => exact fun _ htopic => (List.not_mem_nil htopic).elim
  | cons first topics ih =>
      rw [List.mapM_cons] at h
      by_cases hfirst : isTopicName first = true
      · rw [topicPath_eq hfirst] at h
        cases hrest : topics.mapM (topicPath root) with
        | error e =>
            rw [hrest] at h
            cases h
        | ok rest =>
            intro topic htopic
            rcases List.mem_cons.mp htopic with rfl | htopic
            · exact hfirst
            · exact ih hrest topic htopic
      · rw [topicPath, if_neg hfirst] at h
        cases h

/-- A subscription that fails leaves the consumer as it is, and another one starts it anew. -/
theorem subscribe_cases (root : Path) (hopen : r.consumer.closed = false) (topics : List String) :
    r.step root (.subscribe topics) = r ∨
    (∀ topic ∈ topics, isTopicName topic = true) ∧ r.step root (.subscribe topics) =
      { r with consumer := { r.consumer with topics, cursors := [] }, handed := [] } := by
  rw [step, Consumer.subscribe, if_neg (ne_true_of_eq_false hopen)]
  cases hpaths : topics.mapM (topicPath root) with
  | error e => exact .inl rfl
  | ok paths => exact .inr ⟨legal_of_mapM hpaths, rfl⟩

theorem Reads.step (h : r.Reads root m) (hm : 0 < m) {s : ReadStep} (hs : r.Admits root s) :
    (r.step root s).Reads root m := by
  cases s with
  | change files =>
      exact ⟨h.isOpen, h.options, h.legal, h.topics, fun key => (h.read key).grown (hs key)⟩
  | subscribe topics =>
      rcases subscribe_cases root h.isOpen topics with hsame | ⟨hlegal, hnew⟩
      · rw [hsame]
        exact h
      · rw [hnew]
        exact ⟨h.isOpen, h.options, hlegal, fun _ he => (List.not_mem_nil he).elim,
          fun key => readTo_nil _ key⟩
  | poll =>
      by_cases htopics : r.consumer.topics = []
      · obtain ⟨hsame, hnone⟩ := Consumer.poll_idle root r.files (.inr htopics)
        rw [Reader.step]
        dsimp only
        rw [hsame, hnone, List.append_nil]
        exact h
      · obtain ⟨es, cursors, hpoll, -, hread, hes, -⟩ :=
          Consumer.poll_gathered h.isOpen h.options hm htopics h.legal hs h.read
        rw [Reader.step, hpoll]
        refine ⟨h.isOpen, h.options, h.legal, fun e he => ?_, hread⟩
        rcases List.mem_append.mp he with he | he
        · exact h.topics e he
        · exact hes e he

theorem Reads.exec (h : r.Reads root m) (hm : 0 < m) {steps : List ReadStep}
    (hsteps : r.AdmitsAll root steps) : (r.exec root steps).Reads root m := by
  induction steps generalizing r with
  | nil => exact h
  | cons s steps ih => exact ih (h.step hm hsteps.1) hsteps.2

/-- A log makes a consumer from settings as it stands at the start. -/
theorem createConsumer_start {settings : ClientSettings} {o : ConsumerOptions}
    (ho : ConsumerOptions.ofSettings settings = .ok o) (s : FileLog) (files : FileTree) :
    (s.createConsumer settings).1 = .ok s.consumers.size ∧
      (s.createConsumer settings).2.consumers.get? s.consumers.size =
        some (start o files).consumer := by
  rw [FileLog.createConsumer, ho]
  exact ⟨rfl, Registry.get?_add_self _⟩

/--
**Reading a log that grows.** A consumer whose settings make it read from the start subscribes and
polls in any order, while others add to the files. What it has handed over of each partition since
its last subscription are the first lines of it, each at its offset and once, and of no topic that
it does not read. Its next poll succeeds and hands over no more entries than the setting says, but
one at least; if it hands over nothing, every line of every partition of the topics was handed over.
-/
theorem growing_log_read (root : Path) {settings : ClientSettings} {m : Nat}
    (hlimit : settings.getOr (Text.natural? ConsumerOptions.maxLimit) ConsumerOptions.limitKey
      ConsumerOptions.defaultLimit = .ok m)
    (hstart : settings.get? ConsumerOptions.startKey = some "earliest") (files : FileTree)
    (steps : List ReadStep) (hsteps : (start ⟨max 1 m, .earliest⟩ files).AdmitsAll root steps) :
    let r := (start ⟨max 1 m, .earliest⟩ files).exec root steps
    (∀ s : FileLog, (s.createConsumer settings).1 = .ok s.consumers.size ∧
      (s.createConsumer settings).2.consumers.get? s.consumers.size =
        some (start ⟨max 1 m, .earliest⟩ files).consumer) ∧
    (∀ topic p, ∃ lines, lines <+: linesIn (partitionBytes root r.files (topic, p)) ∧
      onPartition (topic, p) r.handed = entriesOf topic p 0 lines) ∧
    (∀ e ∈ r.handed, e.topic ∈ r.consumer.topics) ∧
    (r.consumer.topics ≠ [] → (∀ topic ∈ r.consumer.topics, Orderly root r.files topic) →
      ∃ es, (r.consumer.poll root r.files).1 = .ok es ∧ es.length ≤ max 1 m ∧
        (es = [] → ∀ topic ∈ r.consumer.topics, ∀ p, 0 ≤ p → p ≤ 0x7FFFFFFF →
          onPartition (topic, p) r.handed =
            entriesOf topic p 0 (linesIn (partitionBytes root r.files (topic, p))))) := by
  have hoptions := ConsumerOptions.ofSettings_eq hlimit
    (show ConsumerOptions.startOf _ = .ok .earliest by rw [hstart]; rfl)
  have hm : 0 < max 1 m := limit_pos hoptions
  have h := (reads_start root (max 1 m) files).exec hm hsteps
  refine ⟨fun s => createConsumer_start hoptions s files, fun topic p => ?_, h.topics,
    fun htopics horderly => ?_⟩
  · obtain ⟨lines, hlines, hes, -⟩ := h.read (topic, p)
    exact ⟨lines, hlines, hes⟩
  · obtain ⟨es, cursors, hpoll, hfew, -, -, hdrained⟩ :=
      Consumer.poll_gathered h.isOpen h.options hm htopics h.legal horderly h.read
    exact ⟨es, by rw [hpoll], hfew, hdrained⟩

/-- Only the root is there. -/
def bareTree : FileTree := ⟨[(["log"], .directory)], .empty⟩

/-- Then the partition is made, with one line and the beginning of the next one. -/
def halfLine : FileTree := (bareTree.appendTo ["log", "t", "0.log"] [0x61, 0x0A, 0x62]).2

/-- Then that line is ended, and the first byte of a longer character follows. -/
def wholeLine : FileTree := (halfLine.appendTo ["log", "t", "0.log"] [0x63, 0x0A, 0xE2]).2

/-- A consumer of a topic, named twice, polls before the topic is there and after each change; one
subscription in between fails. -/
def growingSteps : List ReadStep :=
  [.subscribe ["t", "t"], .poll, .change halfLine, .poll, .subscribe ["t", "x/y"],
    .change wholeLine, .poll]

/-- Settings that ask for no entry, which are taken for one. -/
def oneByOne : ClientSettings :=
  ⟨.ofPairs [(ConsumerOptions.startKey, "earliest"), (ConsumerOptions.limitKey, "0")]⟩

/-- The theorem at this run of the consumer that a log makes from these settings. -/
theorem growing_log_read_growingSteps :
    let r := (start ⟨1, .earliest⟩ bareTree).exec ["log"] growingSteps
    ((FileLog.ofTree ["log"] bareTree).createConsumer oneByOne).2.consumers.get? 0 =
      some (start ⟨1, .earliest⟩ bareTree).consumer ∧
    r.handed = [⟨"t", 0, 0, none, "a"⟩, ⟨"t", 0, 1, none, "bc"⟩] ∧
      ∃ es, (r.consumer.poll ["log"] r.files).1 = .ok es ∧ es.length ≤ 1 := by
  have hsound : bareTree.Sound := sound_of_listed (by decide)
  have hpath : partitionPath ["log"] "t" 0 = .ok ["log", "t", "0.log"] := rfl
  -- the topic is in order from the start, and each change keeps it so
  have hroot : bareTree.find ["log"] = .ok (["log"], .directory) := rfl
  obtain ⟨hroot₁, hsound₁, hbytes₁, horderly₁⟩ := appendTo_partition hroot hsound ("t", 0) hpath
    (show bareTree.appendTo _ _ = (.ok (), halfLine) from rfl)
  obtain ⟨-, -, hbytes₂, horderly₂⟩ := appendTo_partition hroot₁ hsound₁ ("t", 0) hpath
    (show halfLine.appendTo _ _ = (.ok (), wholeLine) from rfl)
  have hfirst : Orderly ["log"] bareTree "t" := .inl rfl
  have hsecond := horderly₁ "t" rfl hfirst
  have hthird := horderly₂ "t" rfl hsecond
  have hgrown : ∀ {t t' : FileTree} {bs : Text.Bytes}, (∀ other, partitionBytes ["log"] t' other =
      if other = ("t", 0) then partitionBytes ["log"] t other ++ bs
      else partitionBytes ["log"] t other) →
      ∀ key, partitionBytes ["log"] t key <+: partitionBytes ["log"] t' key := by
    intro t t' bs h key
    rw [h]
    split
    · exact List.prefix_append _ _
    · exact List.prefix_refl _
  have hsteps : (start ⟨1, .earliest⟩ bareTree).AdmitsAll ["log"] growingSteps := by
    refine ⟨trivial, ?_, hgrown hbytes₁, ?_, trivial, hgrown hbytes₂, ?_, trivial⟩
    · show ∀ topic ∈ ["t", "t"], Orderly ["log"] bareTree topic
      simpa using hfirst
    · show ∀ topic ∈ ["t", "t"], Orderly ["log"] halfLine topic
      simpa using hsecond
    · show ∀ topic ∈ ["t", "t"], Orderly ["log"] wholeLine topic
      simpa using hthird
  have hlimit : oneByOne.getOr (Text.natural? ConsumerOptions.maxLimit) ConsumerOptions.limitKey
      ConsumerOptions.defaultLimit = .ok 0 := rfl
  have hstart : oneByOne.get? ConsumerOptions.startKey = some "earliest" := by decide
  obtain ⟨hmade, -, -, hpoll⟩ := growing_log_read ["log"] hlimit hstart bareTree growingSteps hsteps
  obtain ⟨es, hes, hfew, -⟩ := hpoll (by decide +kernel) fun topic htopic => by
    have htopics : topic ∈ ["t", "t"] := htopic
    simp at htopics
    rw [htopics]
    exact hthird
  exact ⟨(hmade (.ofTree ["log"] bareTree)).2, by decide +kernel, es, hes, hfew⟩

end Reader

end FileLog

end SchemaHistory
