import Mathlib.Algebra.Order.BigOperators.Group.List
import Mathlib.Algebra.Order.Group.Nat
import SchemaHistory.CommandLine.Run
import SchemaHistory.Proofs.CommandLine.Line
import SchemaHistory.Proofs.File.Recovery
import SchemaHistory.Proofs.File.Spared
import SchemaHistory.Proofs.Interchange

/-!
# Commands on a directory

Each command makes a history of its own, so nothing goes from one to the next but the files. Between
two of them the partition has the lines of the changes that were recorded, or there is no partition
yet, and every other file is as it was. A command that records adds its line, unless the name of
the topic is too long for a file, and one that recovers shows all lines. It polls often enough, for
there are no more lines than bytes.
-/

namespace SchemaHistory

open FileLog FileTree Text

/-! ## Polling often enough -/

namespace FileTree

/-- A file holds no more than all files together. -/
theorem length_le_volume {t : FileTree} {path : Path} {k : Nat} {bs : Bytes}
    (hfile : Assoc.get? t.nodes path = some (.file k)) (hbs : t.contents.get? k = some bs) :
    bs.length ≤ t.volume := by
  let size (n : Path × Node) : Nat := ((t.shown n.2).getD []).length
  have hsum : t.volume = (t.nodes.map size).sum := by
    rw [List.sum_eq_foldl, List.foldl_map]
    rfl
  have hsize : size (path, .file k) = bs.length := by
    show ((t.contents.get? k).getD []).length = _
    rw [hbs, Option.getD_some]
  rw [hsum, ← hsize]
  exact List.le_sum_of_mem (List.mem_map_of_mem (Assoc.mem_of_get? hfile))

end FileTree

/-- There are no more lines than bytes. -/
theorem Settled.length_le_volume {root rp : Path} {topic : String} {files : FileTree}
    {rs : List Record} (h : Settled root rp topic files (fileOf rs)) :
    rs.length ≤ files.volume := by
  have hlines : rs.length ≤ (fileOf rs).length := by
    rw [← nextLine_fileOf, nextLine, isTorn_fileOf]
    exact List.count_le_length
  refine Nat.le_trans hlines ?_
  rcases h.holds with ⟨-, hnone⟩ | ⟨k, hfile⟩
  · rw [hnone]
    exact Nat.zero_le _
  · exact FileTree.length_le_volume hfile.file hfile.contents

/-- As many polls as there are bytes, and a number of empty ones between, are enough for so many
lines. -/
theorem Command.batches_le_pollBound {n m : Nat} {files : FileTree} (hm : 0 < m)
    (hn : n ≤ files.volume) (attempts : Nat) :
    Replay.batches n m + attempts ≤ pollBound attempts files := by
  have hbatches := Replay.batches_le hm n
  calc Replay.batches n m + attempts
      ≤ files.volume + (attempts + 1) := by omega
    _ ≤ files.volume * (attempts + 1) + (attempts + 1) :=
        Nat.add_le_add_right (Nat.le_mul_of_pos_right _ (Nat.succ_pos _)) _
    _ = pollBound attempts files := (Nat.succ_mul _ _).symm

/-! ## What a command does to its history -/

/-- Once the history is started the record of the change is stored, and the history is stopped. -/
theorem Recorder.change_ofHistory {τ : Type} {host : Host τ} {h h' : History} {s s' : τ}
    (hstart : h.start host s = (.ok (), h', s')) (source position : Members)
    (database : Option String) (ddl : String) {r : Record}
    (hr : r = .ofChange source position database (some ddl)) :
    (ofHistory host).change source position database ddl (h, s) =
      (outcome ((h'.store host r s').1.map fun _ => ()) (h'.stop host (h'.store host r s').2.2).1,
        (h'.stop host (h'.store host r s').2.2).2) := by
  have hstarted : (ofHistory host).start (h, s) = (.ok (), h', s') := by
    show ((h.start host s).1, (h.start host s).2.1, (h.start host s).2.2) = _
    rw [hstart]
  subst hr
  rw [change, hstarted]
  rfl

namespace Command

/-- The log of a command whose history has started: the root is made, and there is one producer. -/
def started (root : Path) (files : FileTree) : World FileLog :=
  { log := { FileLog.ofTree root files with producers := Registry.empty.add .fresh }
    signals := Registry.empty.add false }

/-- **A command that records** makes the root, stores and stops. -/
theorem execute_record (settings : HistorySettings) {root : Path} {files made : FileTree}
    (hmake : files.makeDirectories root = (.ok (), made)) (c : ChangeArguments) :
    ∃ h : History, h.settings = settings ∧ h.producer = some 0 ∧
      execute settings root (.record c) files =
        some (changeOutcome (Recorder.outcome
            ((h.store host c.record (started root made)).1.map fun _ => ())
            (h.stop host (h.store host c.record (started root made)).2.2).1),
          (h.stop host (h.store host c.record (started root made)).2.2).2.2.log.files) := by
  let world : World FileLog := ⟨FileLog.ofTree root files, Registry.empty.add false⟩
  have hcreate : host.createProducer settings.producer world =
      (.ok 0, started root made) := createProducer_eq settings.producer hmake
  have hstart : (History.make settings 0).start host world =
      (.ok (), ⟨settings, 0, some 0⟩, started root made) := by
    rw [History.start]
    dsimp only [History.make]
    rw [hcreate]
  refine ⟨⟨settings, 0, some 0⟩, rfl, rfl, ?_⟩
  have hchange := Recorder.change_ofHistory hstart (Attribute.document c.source)
    (Attribute.document c.position) c.database c.ddl (r := c.record) rfl
  rw [execute]
  dsimp only
  rw [show (World.ofLog (FileLog.ofTree root files)).addSignal = (0, world) from rfl,
    show FileLog.clients.host = host from rfl]
  dsimp only
  rw [hchange]

/-- **A command that recovers** shows what is read, and leaves the files alone. -/
theorem execute_recover {settings : HistorySettings} {root : Path} {files : FileTree}
    {rs : List Record} (hlegal : isTopicName settings.topic = true)
    (hseen : Seen files root settings.topic (fileOf rs))
    (hkeys : ∀ r ∈ rs, r.WellKeyed) (hf : ∀ r ∈ rs, r.Faithful) {m : Nat} (hm : 0 < m)
    (hoptions : ConsumerOptions.ofSettings settings.consumer = .ok ⟨m, .earliest⟩)
    (hattempts : 0 < settings.attempts) (hvolume : rs.length ≤ files.volume) :
    execute settings root .recover files =
      some (.done (String.join (rs.map fun r => r.line ++ "\n")), files) := by
  have hlimit := batches_le_pollBound hm hvolume settings.attempts
  rw [show rs.length = (linesOf rs).length from (List.length_map _).symm] at hlimit
  obtain ⟨events, world, hrecover⟩ := FileLog.recovers_seen
    (w := ⟨FileLog.ofTree root files, Registry.empty.add false⟩) (h := History.make settings 0) rfl
    hlegal hseen (lined_linesOf rs) rfl hoptions hattempts hlimit
  have hfiles : world.log.files = files := (sameFiles_recover hrecover).2.1
  have hreadings : ((linesOf rs).map Record.ofLine).filterMap id = rs := by
    rw [linesOf, List.map_map, List.filterMap_map]
    refine (List.filterMap_congr fun r _ => ?_).trans (Record.filterMap_returned hkeys hf).1
    exact r.ofLine_payload
  show ((History.make settings 0).recover host (pollBound settings.attempts files)
    ⟨FileLog.ofTree root files, Registry.empty.add false⟩).map
      (fun r => (recoverOutcome r.1, r.2.2.log.files)) = _
  rw [hrecover, Option.map_some, hfiles, recoverOutcome, shown, Recovery.ofReadings, hreadings]

end Command

/-! ## Between two commands -/

/-- The files between two commands on a topic: the partition has the lines of the changes that were
recorded, or nothing was recorded and the files are those that were there first. -/
structure Between (root rp : Path) (topic : String) (before files : FileTree)
    (changes : List ChangeArguments) : Prop where
  log : (files = before ∧ changes = []) ∨
    Settled root rp topic files (fileOf (changes.map ChangeArguments.record))
  /-- All other files are as they were. -/
  spares : Spares ((rp ++ [topic]) ++ [partitionFile]) before files

namespace Between

variable {root rp : Path} {topic : String} {before made files : FileTree}
  {changes : List ChangeArguments}

theorem start (root rp : Path) (topic : String) (before : FileTree) :
    Between root rp topic before before [] := ⟨.inl ⟨rfl, rfl⟩, .refl _ before⟩

/-- The first command that records makes the root, and to the others it is there. -/
theorem makeRoot (h : Between root rp topic before files changes)
    (hsite : Site root topic before made rp) :
    ∃ files', files.makeDirectories root = (.ok (), files') ∧
      Settled root rp topic files' (fileOf (changes.map ChangeArguments.record)) ∧
      Spares ((rp ++ [topic]) ++ [partitionFile]) before files' := by
  rcases h.log with ⟨rfl, rfl⟩ | hsettled
  · have hspares := spares_makeDirectories ((rp ++ [topic]) ++ [partitionFile]) files root
    rw [hsite.make] at hspares
    exact ⟨made, hsite.make, hsite.settled, hspares⟩
  · exact ⟨files, hsettled.makeRoot, hsettled, h.spares⟩

theorem seen (h : Between root rp topic before files changes)
    (hsite : Site root topic before made rp) :
    Seen files root topic (fileOf (changes.map ChangeArguments.record)) := by
  rcases h.log with ⟨rfl, rfl⟩ | hsettled
  · exact hsite.seen
  · exact hsettled.seen hsite.legal

theorem length_le_volume (h : Between root rp topic before files changes) :
    (changes.map ChangeArguments.record).length ≤ files.volume := by
  rcases h.log with ⟨-, rfl⟩ | hsettled
  · exact Nat.zero_le _
  · exact hsettled.length_le_volume

section Commands

variable {settings : HistorySettings} (h : Between root rp topic before files changes)
  (hsite : Site root topic before made rp) (htopic : settings.topic = topic)

include h hsite htopic

/-- **A command that records adds its line**, and ends well. -/
theorem record (hshort : topic.utf8ByteSize ≤ maxName) (c : ChangeArguments) :
    ∃ files', Command.execute settings root (.record c) files = some (.done "", files') ∧
      Between root rp topic before files' (changes ++ [c]) := by
  obtain ⟨files₁, hmake, hsettled, hspares⟩ := h.makeRoot hsite
  obtain ⟨history, rfl, hproducer, hexecute⟩ := Command.execute_record settings hmake c
  have hfresh : (Command.started root files₁).log.producers.get? 0 = some .fresh := rfl
  have hready := ready_fresh files₁ (rp ++ [topic]) topic
    (fileOf (changes.map ChangeArguments.record))
  obtain ⟨place, hstored, hby, -⟩ := store_ready (w := Command.started root files₁) (r := c.record)
    hproducer htopic rfl hfresh hready hsettled hsite.legal hshort
  -- the store writes to the partition and to no other file, so the rest is as after the root
  have hkept := store_spares (w := Command.started root files₁) c.record hproducer htopic rfl hfresh
    hready hsettled hsite.legal hshort
  obtain ⟨k, hfile⟩ := hby.file
  obtain ⟨pr, hpr, hready'⟩ := hby.ready
  obtain ⟨s', hstop, honly⟩ := stop_ready hproducer hpr hready'
  rw [hstored, hstop] at hexecute
  refine ⟨s'.files, hexecute, ?_, ?_⟩
  · right
    rw [List.map_append, List.map_singleton, fileOf_concat, honly.files]
    exact ⟨hby.root, .inr ⟨k, hfile⟩, .inl hshort⟩
  · rw [honly.files]
    exact hspares.trans hkept

/-- **A name that is too long for a file** keeps a command from recording. -/
theorem record_long (hlong : ¬ topic.utf8ByteSize ≤ maxName) (c : ChangeArguments) :
    ∃ failure files', Command.execute settings root (.record c) files =
        some (.failed failure, files') ∧ Between root rp topic before files' changes := by
  obtain ⟨files₁, hmake, hsettled, hspares⟩ := h.makeRoot hsite
  obtain ⟨history, rfl, hproducer, hexecute⟩ := Command.execute_record settings hmake c
  have hfresh : (Command.started root files₁).log.producers.get? 0 = some .fresh := rfl
  have hready := ready_fresh files₁ (rp ++ [topic]) topic
    (fileOf (changes.map ChangeArguments.record))
  -- the store fails before it makes a file, and the stop finds nothing to flush
  obtain ⟨⟨e, hstored⟩, hworld⟩ := store_long (w := Command.started root files₁) (r := c.record)
    hproducer htopic rfl hfresh hready hsettled hsite.legal hlong
  rw [hstored, hworld] at hexecute
  obtain ⟨s', hstop, honly⟩ := stop_ready (w := { Command.started root files₁ with
    log := { (Command.started root files₁).log with
      producers := (Command.started root files₁).log.producers.set 0 .fresh } })
    hproducer (Registry.get?_set_self hfresh _) hready
  rw [hstop] at hexecute
  refine ⟨_, s'.files, hexecute, .inr ?_, ?_⟩
  · rw [honly.files]
    exact hsettled
  · rw [honly.files]
    exact hspares

/-- **A command that recovers shows the lines** of all changes that were recorded. -/
theorem recover (hexact : ∀ c ∈ changes, c.Exact) {m : Nat} (hm : 0 < m)
    (hoptions : ConsumerOptions.ofSettings settings.consumer = .ok ⟨m, .earliest⟩)
    (hattempts : 0 < settings.attempts) :
    Command.execute settings root .recover files =
      some (.done (ChangeArguments.listing changes), files) := by
  subst htopic
  have hkeys : ∀ r ∈ changes.map ChangeArguments.record, r.WellKeyed := by
    intro r hr
    obtain ⟨c, -, rfl⟩ := List.mem_map.mp hr
    exact c.wellKeyed_record
  have hfaithful : ∀ r ∈ changes.map ChangeArguments.record, r.Faithful := by
    intro r hr
    obtain ⟨c, hc, rfl⟩ := List.mem_map.mp hr
    exact (hexact c hc).faithful
  have hlines : (changes.map ChangeArguments.record).map (fun r => r.line ++ "\n") =
      changes.map fun c => c.line ++ "\n" := by
    rw [List.map_map]
    exact List.map_congr_left fun c _ => congrArg (· ++ "\n") c.line_record
  rw [ChangeArguments.listing, ← hlines]
  exact Command.execute_recover hsite.legal (h.seen hsite) hkeys hfaithful hm hoptions hattempts
    h.length_le_volume

end Commands

end Between

end SchemaHistory
