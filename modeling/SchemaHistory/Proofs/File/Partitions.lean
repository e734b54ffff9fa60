import SchemaHistory.Proofs.File.Growing
import SchemaHistory.Proofs.File.Serving

/-!
# The partitions of a tidy topic in files

As producers leave a topic, no partition has two files and each file can be read, so a recovery
can be served. The numbers are not negative, so partition 0 comes first.
-/

namespace SchemaHistory.FileLog

open FileTree Text

/-! ## Topics as producers leave them -/

/-- The topic is as producers leave it: no path stands twice, and each file in the directory of the
topic that is named like a partition has the name of that partition and can be read. -/
structure Tidy (root : Path) (t : FileTree) (topic : String) : Prop where
  /-- The tree lists each path once. -/
  apart : (t.nodes.map Prod.fst).Nodup
  named : ∀ directory, t.find (root ++ [topic]) = .ok (directory, .directory) →
    ∀ name ∈ t.namesIn directory, ∀ p, partitionOf? name = some p →
      0 ≤ p ∧ name = partitionName p ∧ ∃ bs, t.read (root ++ [topic] ++ [name]) = .ok bs

theorem nodup_namesIn {t : FileTree} (h : (t.nodes.map Prod.fst).Nodup) (directory : Path) :
    (t.namesIn directory).Nodup := by
  have hnames : t.namesIn directory = (t.nodes.map Prod.fst).filterMap
      fun path => if path.dropLast = directory then path.getLast? else none := by
    rw [namesIn, List.filterMap_map]
    rfl
  rw [hnames]
  refine h.filterMap fun path path' name hname hname' => ?_
  rw [Option.mem_def] at hname hname'
  split at hname
  swap
  · cases hname
  split at hname'
  swap
  · cases hname'
  rename_i hdirectory hdirectory'
  rw [← List.dropLast_append_getLast? name hname, ← List.dropLast_append_getLast? name hname',
    hdirectory, hdirectory']

/-- The partitions that the names in a directory give, one for each number, if each name is that of
its partition. -/
theorem nodup_partitionsIn (directory : Path) {names : List String} (hapart : names.Nodup)
    (hnamed : ∀ name ∈ names, ∀ p, partitionOf? name = some p → name = partitionName p) :
    ((partitionsIn directory names).map Prod.fst).Nodup := by
  have hperm := (List.mergeSort_perm (names.filterMap fun name =>
    (partitionOf? name).map fun n => (n, directory ++ [name])) fun a b => a.1 ≤ b.1).map Prod.fst
  rw [partitionsIn, hperm.nodup_iff, List.map_filterMap, List.nodup_iff_pairwise_ne,
    List.pairwise_filterMap]
  refine hapart.imp_of_mem ?_
  intro name name' hmem hmem' hne p hp p' hp' heq
  subst heq
  simp only [Option.map_map, Option.map_eq_some_iff] at hp hp'
  obtain ⟨n, hn, rfl⟩ := hp
  obtain ⟨n', hn', heq⟩ := hp'
  obtain rfl : n' = n := heq
  exact hne ((hnamed name hmem _ hn).trans (hnamed name' hmem' _ hn').symm)

theorem pairwise_partitionsIn (directory : Path) (names : List String) :
    (partitionsIn directory names).Pairwise fun a b => a.1 ≤ b.1 := by
  have htrans : ∀ a b c : Int × Path, decide (a.1 ≤ b.1) = true → decide (b.1 ≤ c.1) = true →
      decide (a.1 ≤ c.1) = true := by
    intro a b c hab hbc
    exact decide_eq_true (Int.le_trans (of_decide_eq_true hab) (of_decide_eq_true hbc))
  have htotal : ∀ a b : Int × Path, (decide (a.1 ≤ b.1) || decide (b.1 ≤ a.1)) = true := by
    intro a b
    simpa using Int.le_total a.1 b.1
  exact (List.pairwise_mergeSort htrans htotal _).imp of_decide_eq_true

section Listed

variable {root : Path} {t : FileTree} {topic : String}

/-- A topic whose directory cannot be listed has nothing in its partitions. -/
theorem partitionBytes_unlisted (hlegal : isTopicName topic = true)
    (h : ∀ directory, t.find (root ++ [topic]) ≠ .ok (directory, .directory)) {p : Int}
    (hp : 0 ≤ p) : partitionBytes root t (topic, p) = [] := by
  rw [partitionBytes, partitionPath_topic hlegal hp]
  dsimp only
  cases hfind : t.find (root ++ [topic]) with
  | error e =>
      rw [FileTree.read, find_append_error hfind]
      rfl
  | ok q =>
      obtain ⟨directory, node⟩ := q
      have hnode : node ≠ .directory := by
        rintro rfl
        exact h directory hfind
      rw [FileTree.read, find_append hfind, walk, if_pos hnode]
      rfl

/-- The least number comes first. -/
theorem head_of_pairwise {ps : List (Int × Path)} {p : Int × Path}
    (hsorted : ps.Pairwise fun a b => a.1 ≤ b.1) (hapart : (ps.map Prod.fst).Nodup) (hp : p ∈ ps)
    (hleast : ∀ q ∈ ps, p.1 ≤ q.1) : ∃ rest, ps = p :: rest := by
  cases ps with
  | nil => cases hp
  | cons q rest =>
      rcases List.mem_cons.mp hp with rfl | hrest
      · exact ⟨rest, rfl⟩
      · have hle := (List.pairwise_cons.mp hsorted).1 p hrest
        have heq : p.1 = q.1 := Int.le_antisymm (hleast q List.mem_cons_self) hle
        rw [List.map_cons, List.nodup_cons, ← heq] at hapart
        exact absurd (List.mem_map_of_mem hrest) hapart.1

/-- The partitions of a topic other than that of histories. -/
def otherPartitions (ps : List (Int × Path)) : List (Int × Path) :=
  ps.filter fun p => p.1 ≠ historyPartition

/-- Partitions without one of histories have the others only. -/
theorem otherPartitions_of_notMem {ps : List (Int × Path)}
    (h : historyPartition ∉ ps.map Prod.fst) : otherPartitions ps = ps := by
  refine List.filter_eq_self.mpr fun q hq => decide_eq_true ?_
  intro hq'
  exact h (hq' ▸ List.mem_map_of_mem hq)

/-- Partition 0 comes first, and all others behind it. -/
theorem otherPartitions_of_mem {ps : List (Int × Path)} {p : Int × Path}
    (hsorted : ps.Pairwise fun a b => a.1 ≤ b.1) (hapart : (ps.map Prod.fst).Nodup) (hp : p ∈ ps)
    (hnumber : p.1 = historyPartition) (hleast : ∀ q ∈ ps, p.1 ≤ q.1) :
    ps = p :: otherPartitions ps := by
  obtain ⟨rest, hrest⟩ := head_of_pairwise hsorted hapart hp hleast
  rw [hrest, List.map_cons, List.nodup_cons, hnumber] at hapart
  have hothers := otherPartitions_of_notMem hapart.1
  have hfirst : otherPartitions (p :: rest) = otherPartitions rest :=
    List.filter_cons_of_neg (by rw [hnumber]; decide)
  rw [hrest, hfirst, hothers]

/-- All entries of a topic are those of partition 0, and then those of the others. -/
theorem allOf_split {ps : List (Int × Path)}
    (hread : ∀ p ∈ ps, t.read p.2 = .ok (partitionBytes root t (topic, p.1)))
    (hsorted : ps.Pairwise fun a b => a.1 ≤ b.1) (hapart : (ps.map Prod.fst).Nodup)
    (hleast : ∀ q ∈ ps, historyPartition ≤ q.1)
    (hnothing : historyPartition ∉ ps.map Prod.fst →
      partitionBytes root t (topic, historyPartition) = []) :
    allOf t topic ps = entriesOf topic historyPartition 0
      (linesIn (partitionBytes root t (topic, historyPartition))) ++
        allOf t topic (otherPartitions ps) := by
  by_cases hzero : historyPartition ∈ ps.map Prod.fst
  · obtain ⟨p, hp, hnumber⟩ := List.mem_map.mp hzero
    have hsplit := otherPartitions_of_mem hsorted hapart hp hnumber
      fun q hq => hnumber ▸ hleast q hq
    conv => lhs; rw [hsplit]
    rw [allOf, List.flatMap_cons, bytesAt_eq (hread p hp), hnumber]
    rfl
  · rw [hnothing hzero, otherPartitions_of_notMem hzero]
    rfl

/-- A topic whose directory cannot be listed has no partitions, if it has a list of them. -/
theorem partitions_unlisted (hlegal : isTopicName topic = true)
    (h : ∀ directory, t.find (root ++ [topic]) ≠ .ok (directory, .directory)) {ps}
    (hps : partitions root topic t = .ok ps) : ps = [] := by
  rw [partitions, topicPath_eq hlegal] at hps
  dsimp only at hps
  cases hlist : t.list (root ++ [topic]) with
  | error e =>
      rw [hlist] at hps
      cases e <;> first | cases hps; rfl | cases hps
  | ok names =>
      rw [FileTree.list] at hlist
      split at hlist
      · cases hlist
      · rename_i directory hfind
        exact absurd hfind (h directory)
      · cases hlist

/-- **The partitions of a tidy topic**: each can be read, each number is there once, and partition 0
comes first if there is anything in it. -/
theorem Tidy.partitions_listed (h : Tidy root t topic) (hlegal : isTopicName topic = true) {ps}
    (hps : partitions root topic t = .ok ps) :
    (∀ p ∈ ps, ∃ bs, t.read p.2 = .ok bs) ∧ (ps.map Prod.fst).Nodup ∧
      allOf t topic ps = entriesOf topic historyPartition 0
        (linesIn (partitionBytes root t (topic, historyPartition))) ++
          allOf t topic (otherPartitions ps) := by
  by_cases hdir : ∃ directory, t.find (root ++ [topic]) = .ok (directory, .directory)
  · obtain ⟨directory, hdir⟩ := hdir
    have hnamed := h.named directory hdir
    have hvisits := Orderly.visits (.inr ⟨directory, hdir, hnamed⟩) hlegal
    rw [Visit.ofTopic, hps] at hvisits
    dsimp only at hvisits
    obtain ⟨hfinds, hpartition⟩ := hvisits
    have hread : ∀ p ∈ ps, t.read p.2 = .ok (partitionBytes root t (topic, p.1)) := by
      intro p hp
      obtain ⟨⟨topic', number, path, heq, hread⟩, -⟩ := hfinds _ (List.mem_map_of_mem hp)
      cases heq
      exact hread
    -- without a file for it there is nothing in partition 0
    have hnothing : historyPartition ∉ ps.map Prod.fst →
        partitionBytes root t (topic, historyPartition) = [] := by
      intro hzero
      refine (hpartition historyPartition (by decide) (by decide)).resolve_left ?_
      rintro ⟨path, hmem⟩
      obtain ⟨p, hp, heq⟩ := List.mem_map.mp hmem
      exact hzero (List.mem_map.mpr ⟨p, hp, (Visit.partition.inj heq).2.1⟩)
    rw [partitions, topicPath_eq hlegal] at hps
    dsimp only at hps
    rw [list_eq hdir] at hps
    cases hps
    have hapart := nodup_partitionsIn (root ++ [topic])
      (nodup_namesIn h.apart directory) fun name hname p hp => (hnamed name hname p hp).2.1
    refine ⟨fun p hp => ⟨_, hread p hp⟩, hapart,
      allOf_split hread (pairwise_partitionsIn _ _) hapart (fun q hq => ?_) hnothing⟩
    obtain ⟨name, hname, hq, -⟩ := mem_partitionsIn.mp (show (q.1, q.2) ∈ _ from hq)
    exact (hnamed name hname q.1 hq).1
  · have hunlisted : ∀ directory, t.find (root ++ [topic]) ≠ .ok (directory, .directory) :=
      fun directory hd => hdir ⟨directory, hd⟩
    rw [partitions_unlisted hlegal hunlisted hps,
      partitionBytes_unlisted hlegal hunlisted (show 0 ≤ historyPartition by decide)]
    exact ⟨fun p hp => absurd hp List.not_mem_nil, List.nodup_nil, rfl⟩

theorem Tidy.legible (h : Tidy root t topic) (hlegal : isTopicName topic = true) :
    Legible root t topic where
  read _ hps := (h.partitions_listed hlegal hps).1
  apart _ hps := (h.partitions_listed hlegal hps).2.1

/-- A topic whose partitions cannot be listed has nothing in partition 0. -/
theorem Tidy.partitions_failed (hlegal : isTopicName topic = true) {e}
    (hps : partitions root topic t = .error e) :
    partitionBytes root t (topic, historyPartition) = [] := by
  refine partitionBytes_unlisted hlegal (fun directory hdir => ?_) (by decide)
  rw [partitions, topicPath_eq hlegal] at hps
  dsimp only at hps
  rw [list_eq hdir] at hps
  cases hps

end Listed

end SchemaHistory.FileLog
