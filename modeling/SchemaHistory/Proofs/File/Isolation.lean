import SchemaHistory.Proofs.File.Created
import SchemaHistory.Proofs.File.Following

/-!
# Partitions are apart on disk

A partition has a path if its topic can be named and its number is not negative. The path is two
names below the root, the first that of the topic and the second that of the partition, and no
other partition has it. Names that are apart keep the bytes apart as well: what a producer does
to the file of one partition depends on the appends to that partition only. Read the other way
round, the names in the directory of a topic tell which partitions were written.
-/

namespace SchemaHistory.FileLog

open FileTree Text

/-! ## The names of a path -/

theorem isTopicChar_iff (c : Char) :
    isTopicChar c = true ↔ c.isAlphanum = true ∨ c = '.' ∨ c = '_' ∨ c = '-' := by
  have hupper : c.isUpper = decide ('A' ≤ c ∧ c ≤ 'Z') := rfl
  have hlower : c.isLower = (decide ('a' ≤ c) && decide (c ≤ 'z')) := rfl
  have hdigit : c.isDigit = (decide ('0' ≤ c) && decide (c ≤ '9')) := rfl
  have halphanum : c.isAlphanum = (c.isUpper || c.isLower || c.isDigit) := rfl
  simp only [isTopicChar, halphanum, hupper, hlower, hdigit, Bool.or_eq_true, Bool.and_eq_true,
    decide_eq_true_eq, or_assoc]
  exact or_left_comm

/-- A text names a topic if it is made of ASCII letters, digits, points, underscores and hyphens,
and stands for no directory itself. -/
theorem isTopicName_iff (topic : String) : isTopicName topic = true ↔
    topic ≠ "" ∧ topic ≠ "." ∧ topic ≠ ".." ∧
      ∀ c ∈ topic.toList, c.isAlphanum = true ∨ c = '.' ∨ c = '_' ∨ c = '-' := by
  simp only [isTopicName, Bool.and_eq_true, decide_eq_true_eq, List.all_eq_true, isTopicChar_iff,
    and_assoc]

/-- One name of a path, which stands for something in its directory. -/
structure Plain (name : String) : Prop extends Proper name where
  oneName : '/' ∉ name.toList

theorem plain_of_isTopicName {topic : String} (h : isTopicName topic = true) : Plain topic := by
  refine ⟨proper_of_isTopicName h, fun hslash => ?_⟩
  have hchar := ((isTopicName_iff topic).mp h).2.2.2 _ hslash
  revert hchar
  decide

theorem plain_partitionName (p : Int) : Plain (partitionName p) := by
  refine ⟨proper_partitionName p, fun hslash => ?_⟩
  rw [partitionName, String.toList_ofList] at hslash
  rcases List.mem_append.mp hslash with hnumber | hending
  · have hdigits : ∀ n, '/' ∉ ofNat n := fun n h => by cases isDigit_ofNat h
    cases p with
    | ofNat n => exact hdigits n hnumber
    | negSucc n => exact (List.mem_cons.mp hnumber).elim (by decide) (hdigits _)
  · revert hending
    decide

/-! ## Which partitions can be written -/

/-- A producer that has opened nothing can open the partition, and on a file. -/
def Writable (root : Path) (t : FileTree) (key : PartitionKey) : Prop :=
  ∃ w t', Producer.fresh.writerFor root key.1 key.2 t = (.ok w, t') ∧ w.handle ≠ .nullDevice

section Runs

variable {root rp : Path} {t : FileTree} {key : PartitionKey}

theorem writable_iff (hroot : t.find root = .ok (rp, .directory)) (hstanding : t.Standing)
    (key : PartitionKey) : Writable root t key ↔
      Openable t rp key ∧ Assoc.get? t.nodes (spot rp key) ≠ some .nullDevice := by
  rw [Writable]
  rcases writerFor_made hroot hstanding .fresh key with ⟨e, t', hwriter, hrefuses⟩ |
    ⟨r, hwriter, hprovides⟩
  · rw [hwriter]
    refine ⟨?_, fun h => absurd h.1 hrefuses.shut⟩
    rintro ⟨w, t'', he, -⟩
    cases he
  · rw [hwriter]
    cases hprovides with
    | there present => cases present
    | @opened handle t₁ absent openable opens atSpot =>
        have hhandle := (PartitionWriter.continuing_wrote handle (partitionBytes root t key) t₁).1
        have hnode : Assoc.get? t.nodes (spot rp key) = some .nullDevice ↔ handle = .nullDevice := by
          rw [← opens.made.sameLinks (spot rp key), atSpot.node]
          cases handle <;> simp [Handle.node]
        constructor
        · rintro ⟨w, t', he, hfile⟩
          cases he
          exact ⟨openable, fun hn => hfile (hhandle.trans (hnode.mp hn))⟩
        · exact fun h => ⟨_, _, rfl, fun he => h.2 (hnode.mpr (hhandle.symm.trans he))⟩

/-- A link to the device holds nothing. -/
theorem partitionBytes_device (hroot : t.find root = .ok (rp, .directory)) (hstanding : t.Standing)
    (hnode : Assoc.get? t.nodes (spot rp key) = some .nullDevice) : partitionBytes root t key = [] := by
  by_cases hfits : Fits key
  · rw [partitionBytes_fits hstanding hroot hfits, hnode]
  · exact partitionBytes_unfit hroot hfits

theorem tended_fresh (hroot : t.find root = .ok (rp, .directory)) (hstanding : t.Standing) :
    Tended root rp (.fresh, t) :=
  ⟨hroot, hstanding, rfl, List.nodup_nil, fun _ _ h => by cases h⟩

open ProducerCall

/-- What a run leaves of a partition that can be written: the lines that were sent to it, in the file
or held back, and all in the file after a flush. -/
theorem run_writable (hroot : t.find root = .ok (rp, .directory)) (hstanding : t.Standing)
    (hwritable : Writable root t key) (calls : List ProducerCall) :
    let s := run root (.fresh, t) calls
    let whole := heldWith (partitionBytes root t key) (calls.filterMap (line? key))
    partitionBytes root s.2 key ++ s.1.writers.buffered key = whole ∧
      ((s.1.flush s.2).1 = .ok () → partitionBytes root (s.1.flush s.2).2.2.2 key = whole) := by
  intro s whole
  obtain ⟨hopenable, hfile⟩ := (writable_iff hroot hstanding key).mp hwritable
  have hstart : Follows root rp key (.fresh, t) :=
    ⟨tended_fresh hroot hstanding, hfile, fun _ => hopenable⟩
  obtain ⟨hfollows, hbalanced⟩ := hstart.balanced (.unopened_start (partitionBytes root t key)) calls
  exact ⟨hbalanced.total, fun hstored =>
    (hfollows.toTended.flush_bytes hfollows.file hstored).trans hbalanced.file_flush⟩

/-- A run leaves other partitions as they are. -/
theorem run_unwritable (hroot : t.find root = .ok (rp, .directory)) (hstanding : t.Standing)
    (hunwritable : ¬ Writable root t key) (calls : List ProducerCall) :
    partitionBytes root (run root (.fresh, t) calls).2 key = partitionBytes root t key := by
  have htended := tended_fresh hroot hstanding
  by_cases hdevice : Assoc.get? t.nodes (spot rp key) = some .nullDevice
  · obtain ⟨hlast, hlinks⟩ := htended.run calls
    rw [partitionBytes_device hroot hstanding hdevice,
      partitionBytes_device hlast.found hlast.standing ((hlinks _).mpr hdevice)]
  · have hshut : Shut root rp key (.fresh, t) := ⟨htended, hdevice, rfl, fun hopenable =>
      hunwritable ((writable_iff hroot hstanding key).mpr ⟨hopenable, hdevice⟩)⟩
    exact congrArg Share.file (hshut.run calls)

/-- **Without links to the device** the bytes of a partition are, at any time, those of a run in which
nothing was sent to another partition. -/
theorem run_alone (hroot : t.find root = .ok (rp, .directory)) (hsound : t.Sound)
    (key : PartitionKey) (calls : List ProducerCall) :
    partitionBytes root (run root (.fresh, t) calls).2 key =
      partitionBytes root (run root (.fresh, t) (calls.filter (concerns key))).2 key := by
  by_cases hwritable : Writable root t key
  · obtain ⟨hopenable, hfile⟩ := (writable_iff hroot hsound.standing key).mp hwritable
    have hstart : Follows root rp key (.fresh, t) :=
      ⟨tended_fresh hroot hsound.standing, hfile, fun _ => hopenable⟩
    have hshares : shareOf root key (run root (.fresh, t) calls) =
        shareOf root key (run root (.fresh, t) (calls.filter (concerns key))) := by
      rw [hstart.run hsound.plain, hstart.run hsound.plain, foldl_share_filter]
    exact congrArg Share.file hshares
  · rw [run_unwritable hroot hsound.standing hwritable, run_unwritable hroot hsound.standing hwritable]

end Runs

/--
**Partitions are apart.** A partition has a path exactly if its number is not negative and its topic is
a name of ASCII letters, digits, points, underscores and hyphens other than those of directories.
The path is two plain names below the root, and two partitions with one path are one. So a run of
sends and flushes leaves in the file of a partition what was there and the lines that were sent to
it: with what is held back at any time, and alone after a flush that succeeds. Where no name is a
link to the device, flushes succeed, and the file is at any time what it is without the sends to
other partitions. And in a topic that only producers have written to, the consumer lists the
partitions that were written, each once and in the order of their numbers.
-/
theorem partitions_isolated (root : Path) :
    (∀ topic p, (∃ path, partitionPath root topic p = .ok path) ↔ 0 ≤ p ∧
      topic ≠ "" ∧ topic ≠ "." ∧ topic ≠ ".." ∧
        ∀ c ∈ topic.toList, c.isAlphanum = true ∨ c = '.' ∨ c = '_' ∨ c = '-') ∧
    (∀ topic p path, partitionPath root topic p = .ok path →
      path = root ++ [topic, partitionName p] ∧ Plain topic ∧ Plain (partitionName p)) ∧
    (∀ topic p topic' p' path, partitionPath root topic p = .ok path →
      partitionPath root topic' p' = .ok path → topic = topic' ∧ p = p') ∧
    (∀ t : FileTree, t.Standing → t.isDirectory root = true → ∀ calls key,
      let s := ProducerCall.run root (.fresh, t) calls
      let whole := heldWith (partitionBytes root t key) (calls.filterMap (ProducerCall.line? key))
      (Writable root t key → partitionBytes root s.2 key ++ s.1.writers.buffered key = whole ∧
        ((s.1.flush s.2).1 = .ok () → partitionBytes root (s.1.flush s.2).2.2.2 key = whole)) ∧
      (¬ Writable root t key → partitionBytes root s.2 key = partitionBytes root t key) ∧
      (t.Sound → (s.1.flush s.2).1 = .ok () ∧ partitionBytes root s.2 key = partitionBytes root
        (ProducerCall.run root (.fresh, t) (calls.filter (ProducerCall.concerns key))).2 key)) ∧
    ∀ (files : FileTree) topic, files.Standing → ((ofTree root files).createProducer).1 = .ok 0 →
      isTopicName topic = true →
      ((ProducerRun.start root files).log.files.list (root ++ [topic]) = .error .noEntry ∨
        (ProducerRun.start root files).log.files.list (root ++ [topic]) = .ok []) →
      ∀ steps, let r := (ProducerRun.start root files).exec steps
        ∃ ps, partitions root topic r.log.files = .ok ps ∧ ps.Pairwise (fun a b => a.1 < b.1) ∧
          ∀ p path, (p, path) ∈ ps ↔ p ≤ 0x7FFFFFFF ∧ partitionPath root topic p = .ok path ∧
            ∃ e ∈ r.sent, e.key = (topic, p) := by
  refine ⟨fun topic p => ?_, fun topic p path hpath => ?_, fun topic p topic' p' path hpath hpath' => ?_,
    fun t hstanding hdirectory calls key => ?_,
    fun files topic hstanding hmade hlegal hempty steps => ?_⟩
  · rw [← isTopicName_iff]
    simp only [partitionPath_eq_ok, exists_and_left, exists_eq, and_true]
    exact and_comm
  · obtain ⟨hlegal, -, rfl⟩ := partitionPath_eq_ok.mp hpath
    exact ⟨List.append_assoc _ _ _, plain_of_isTopicName hlegal, plain_partitionName p⟩
  · obtain ⟨-, -, rfl⟩ := partitionPath_eq_ok.mp hpath
    obtain ⟨-, -, hsame⟩ := partitionPath_eq_ok.mp hpath'
    exact Prod.mk.inj (spot_injective (show spot root (topic, p) = spot root (topic', p') from hsame))
  · obtain ⟨rp, hroot⟩ := find_of_makeDirectories (makeDirectories_again hdirectory)
    refine ⟨fun hwritable => run_writable hroot hstanding hwritable calls,
      fun hunwritable => run_unwritable hroot hstanding hunwritable calls,
      fun hsound => ⟨?_, run_alone hroot hsound key calls⟩⟩
    obtain ⟨hlast, hlinks⟩ := (tended_fresh hroot hstanding).run calls
    exact hlast.flush.2.2.2 fun path => mt (hlinks path).mp (hsound.plain path)
  · obtain ⟨rp, hstart⟩ := ProducerRun.catalogued_start hstanding hmade hlegal hempty
    obtain ⟨ps, hps, hordered, hmem⟩ := (hstart.exec steps).lists.partitions hlegal
    refine ⟨ps, hps, hordered, fun p path => (hmem p path).trans ?_⟩
    simp only [List.mem_map]

/-- A partition with a torn line, and a directory in the place of another one. -/
def tornTree : FileTree :=
  ⟨[(["log"], .directory), (["log", "t"], .directory), (["log", "t", "0.log"], .file 0),
    (["log", "t", "7.log"], .directory)], ⟨#[[0x61]]⟩⟩

/-- Appends to four partitions, of which one cannot be opened and one is more than a line. -/
def mixedCalls : List ProducerCall :=
  [.send 0 ⟨"t", 0, none, "b"⟩, .send 1 ⟨"u", 10, none, "x"⟩, .flush, .send 2 ⟨"t", 7, none, "y"⟩,
    .send 3 ⟨"t", 0, none, "c\nd"⟩, .send 4 ⟨"t", 0, none, "é"⟩, .send 5 ⟨"t", 1, none, "z"⟩]

/-- Two producers write to partitions 10 and 2 of a topic that is missing, and to another topic. -/
def listedSteps : List ProducerStep :=
  [.create, .send 0 ⟨"t", 10, none, "a"⟩, .send 1 ⟨"t", 2, none, "b"⟩, .send 1 ⟨"t", 10, none, "c"⟩,
    .send 0 ⟨"t-1", 3, none, "d"⟩, .send 0 ⟨"t", -1, none, "e"⟩, .drop 1]

/-- The theorem at these runs. -/
theorem partitions_isolated_tornTree :
    let s := ProducerCall.run ["log"] (.fresh, tornTree) mixedCalls
    partitionBytes ["log"] (s.1.flush s.2).2.2.2 ("t", 0) = utf8 "a\nb\né\n" ∧
    partitionBytes ["log"] s.2 ("t", 0) = partitionBytes ["log"] (ProducerCall.run ["log"]
      (.fresh, tornTree) (mixedCalls.filter (ProducerCall.concerns ("t", 0)))).2 ("t", 0) ∧
    ∃ ps, partitions ["log"] "t" ((ProducerRun.start ["log"] .empty).exec listedSteps).log.files =
        .ok ps ∧ (2, ["log", "t", "2.log"]) ∈ ps ∧ (10, ["log", "t", "10.log"]) ∈ ps ∧
      ∀ path, (3, path) ∉ ps := by
  intro s
  obtain ⟨-, -, -, hruns, hlisted⟩ := partitions_isolated ["log"]
  have hsound : tornTree.Sound := sound_of_listed (by decide)
  obtain ⟨hwhole, -, halone⟩ := hruns tornTree hsound.standing rfl mixedCalls ("t", 0)
  obtain ⟨hstored, hsame⟩ := halone hsound
  have hwritable : Writable ["log"] tornTree ("t", 0) := ⟨_, _, rfl, by decide +kernel⟩
  refine ⟨((hwhole hwritable).2 hstored).trans (by decide +kernel), hsame, ?_⟩
  obtain ⟨ps, hps, -, hmem⟩ := hlisted .empty "t" (sound_of_listed (by decide)).standing rfl rfl
    (.inl rfl) listedSteps
  have hkeys : ((ProducerRun.start ["log"] .empty).exec listedSteps).sent.map Sent.key =
      [("t", 10), ("t", 2), ("t", 10), ("t-1", 3)] := by decide +kernel
  have hsent : ∀ key, (∃ e ∈ ((ProducerRun.start ["log"] .empty).exec listedSteps).sent,
      e.key = key) ↔ key ∈ [("t", (10 : Int)), ("t", 2), ("t", 10), ("t-1", 3)] := by
    intro key
    rw [← hkeys, List.mem_map]
  refine ⟨ps, hps, (hmem _ _).mpr ⟨by decide, by decide +kernel, (hsent _).mpr (by decide)⟩,
    (hmem _ _).mpr ⟨by decide, by decide +kernel, (hsent _).mpr (by decide)⟩, fun path hpath => ?_⟩
  have hthree := (hsent _).mp ((hmem 3 path).mp hpath).2.2
  revert hthree
  decide

end SchemaHistory.FileLog
