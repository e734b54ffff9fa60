import SchemaHistory.Proofs.File.Accounts
import SchemaHistory.Proofs.File.Partitions
import SchemaHistory.Proofs.File.Shares

/-!
# The partitions that producers make

Any number of producers write to a log, and nobody else writes to one topic of it. The names in
the directory of that topic are then the names of the partitions to which an append was accepted,
each once: a producer makes a file with its first append to a partition and never otherwise, and
no file goes away. Everything else that producers do leaves the names alone. So a consumer lists
the partitions that were written, by their numbers.
-/

namespace SchemaHistory.FileLog

open FileTree Text

/-! ## Letting go of bytes -/

/-- Two trees differ in what their files hold only. -/
structure Refilled (t t' : FileTree) : Prop where
  nodes : t'.nodes = t.nodes
  standing : t.Standing → t'.Standing

theorem Refilled.refl (t : FileTree) : Refilled t t := ⟨rfl, id⟩

theorem refilled_append (t₀ t : FileTree) (h : Handle) (bs : Bytes) (ht : Refilled t₀ t) :
    Refilled t₀ (t.append h bs) :=
  ⟨(append_nodes h bs).trans ht.nodes, fun hstanding => (ht.standing hstanding).append h bs⟩

/-- A producer has let go of bytes, and perhaps of partitions. -/
structure Releases (pr pr' : Producer) (t t' : FileTree) : Prop where
  refilled : Refilled t t'
  keys : pr'.writers.map Prod.fst ⊆ pr.writers.map Prod.fst

namespace Releases

theorem refl (pr : Producer) (t : FileTree) : Releases pr pr t t :=
  ⟨.refl t, List.Subset.refl _⟩

theorem flush (pr : Producer) (t : FileTree) :
    Releases pr (pr.flush t).2.2.1 t (pr.flush t).2.2.2 := by
  rw [Producer.flush]
  split
  · exact refl pr t
  · exact ⟨Writers.syncAll_preserves (refilled_append t) pr.writers (.refl t),
      fun key hkey => pr.writers.syncAll_keys t ▸ hkey⟩

theorem close (pr : Producer) (t : FileTree) :
    Releases pr (pr.close t).2.2.1 t (pr.close t).2.2.2 := by
  rw [Producer.close]
  split
  · exact refl pr t
  · exact ⟨Writers.spillAll_preserves (refilled_append t) (pr.writers.syncAll t).2.1
      (Writers.syncAll_preserves (refilled_append t) pr.writers (.refl t)), List.nil_subset _⟩

theorem drop (pr : Producer) (t : FileTree) :
    Releases pr (pr.drop t).2.1 t (pr.drop t).2.2 :=
  ⟨Writers.spillAll_preserves (refilled_append t) pr.writers (.refl t), List.nil_subset _⟩

theorem spill (key : PartitionKey) (n : Nat) (pr : Producer) (t : FileTree) :
    Releases pr (pr.spill key n t).1 t (pr.spill key n t).2 := by
  rw [Producer.spill]
  split
  · exact refl pr t
  · rename_i w hw
    refine ⟨refilled_append t t _ _ (.refl t), ?_⟩
    dsimp only
    rw [Assoc.keys_put]
    have hmem : key ∈ pr.writers.map Prod.fst :=
      List.mem_map.mpr ⟨_, Assoc.mem_of_get? hw, rfl⟩
    simp [hmem]

end Releases

/-! ## The catalogue of a topic -/

/-- The names in the directory of the topic are those of the partitions `written`, each once, and no
other names are there. -/
structure Lists (root rp : Path) (topic : String) (t : FileTree) (written : List PartitionKey) :
    Prop where
  found : t.find root = .ok (rp, .directory)
  standing : t.Standing
  short : topic.utf8ByteSize ≤ maxName
  directory : ∀ n, Assoc.get? t.nodes (rp ++ [topic]) = some n → n = .directory
  distinct : (t.namesIn (rp ++ [topic])).Nodup
  names : ∀ name, name ∈ t.namesIn (rp ++ [topic]) ↔
    ∃ key ∈ written, key.1 = topic ∧ partitionName key.2 = name
  fits : ∀ key ∈ written, Fits key

namespace Lists

variable {root rp : Path} {topic other : String} {t t' : FileTree} {written : List PartitionKey}
  {key : PartitionKey}

theorem refilled (h : Lists root rp topic t written) (hfiles : Refilled t t') :
    Lists root rp topic t' written := by
  have hnodes := hfiles.nodes
  exact ⟨(find_nodes hnodes root).trans h.found, hfiles.standing h.standing, h.short,
    by rw [hnodes]; exact h.directory, by rw [namesIn, hnodes]; exact h.distinct,
    by rw [namesIn, hnodes]; exact h.names, h.fits⟩

/-- The directory of a topic is no name in the directory of a topic. -/
theorem namesIn_madeTopic (h : MadeTopic root rp other t t') :
    t'.namesIn (rp ++ [topic]) = t.namesIn (rp ++ [topic]) := by
  rcases h.put with hsame | ⟨hnone, n, hput⟩
  · rw [namesIn, hsame]
    rfl
  · rw [namesIn_put hnone hput, List.dropLast_concat, if_neg (by simp)]
    exact List.append_nil _

theorem madeTopic (h : Lists root rp topic t written) (htopic : MadeTopic root rp other t t') :
    Lists root rp topic t' written := by
  refine ⟨htopic.made.found, htopic.made.standing, h.short, fun n hn => ?_,
    by rw [namesIn_madeTopic htopic]; exact h.distinct,
    by rw [namesIn_madeTopic htopic]; exact h.names, h.fits⟩
  by_cases hother : topic = other
  · rcases htopic.directory with rfl | hdirectory
    · exact h.directory n hn
    · rw [hother, hdirectory] at hn
      exact (Option.some.inj hn).symm
  · rw [htopic.put.get? (by simpa using hother)] at hn
    exact h.directory n hn

/-- A partition that was written before may be written again. -/
theorem again (h : Lists root rp topic t written) (hkey : key ∈ written) :
    Lists root rp topic t (written ++ [key]) := by
  refine ⟨h.found, h.standing, h.short, h.directory, h.distinct,
    fun name => (h.names name).trans ?_,
    fun key' hkey' => h.fits key' ?_⟩
  · exact exists_congr fun key' => and_congr_left fun _ =>
      ⟨List.mem_append_left _, fun hmem => (List.mem_append.mp hmem).elim id fun hlast =>
        List.mem_singleton.mp hlast ▸ hkey⟩
  · rcases List.mem_append.mp hkey' with hmem | hlast
    · exact hmem
    · exact List.mem_singleton.mp hlast ▸ hkey

/-- **A partition that is opened** is listed from then on. -/
theorem opens (h : Lists root rp topic t written) (hopens : Opens root rp key t t')
    {handle : Handle} (hspot : AtSpot t' rp key handle) :
    Lists root rp topic t' (written ++ [key]) := by
  have hmade := hopens.made
  obtain ⟨t₀, htopic, hfile, hput⟩ := hopens
  have h₀ := h.madeTopic htopic
  refine ⟨hmade.found, hmade.standing, h.short, fun n hn => ?_, hput.nodup_namesIn h₀.distinct,
    fun name => ⟨fun hname => ?_, ?_⟩, fun key' hkey' => ?_⟩
  · rw [hput.get? (spot_ne_topic rp key topic).symm] at hn
    exact h₀.directory n hn
  · rcases hput.mem_namesIn hname with hold | hnew
    · obtain ⟨key', hkey', hsame⟩ := (h₀.names name).mp hold
      exact ⟨key', List.mem_append_left _ hkey', hsame⟩
    · obtain ⟨hfront, hlast⟩ := List.append_inj' hnew rfl
      obtain ⟨-, htopic⟩ := List.append_inj' hfront rfl
      exact ⟨key, by simp, (List.singleton_inj.mp htopic).symm, (List.singleton_inj.mp hlast).symm⟩
  · rintro ⟨key', hkey', rfl, rfl⟩
    rcases List.mem_append.mp hkey' with hold | hnew
    · obtain ⟨n, hn⟩ := mem_namesIn.mp ((h₀.names _).mpr ⟨key', hold, rfl, rfl⟩)
      exact mem_namesIn.mpr ⟨n, hfile.nodes _ _ hn⟩
    · obtain rfl := List.mem_singleton.mp hnew
      exact mem_namesIn.mpr ⟨_, hspot.node⟩
  · rcases List.mem_append.mp hkey' with hold | hnew
    · exact h.fits key' hold
    · exact List.mem_singleton.mp hnew ▸ hspot.fits

/-- **A line that is written** puts its partition into the catalogue, if it was not there. -/
theorem sends {pr : Producer} {ticket : Ticket} {request : AppendRequest} {s : Producer × FileTree}
    (h : Lists root rp topic t written) (hopened : pr.writers.map Prod.fst ⊆ written)
    (hs : Sends root rp pr t ticket request s) :
    Lists root rp topic s.2 (written ++ [(request.topic, request.partition)]) ∧
      s.1.writers.map Prod.fst ⊆ written ++ [(request.topic, request.partition)] := by
  obtain ⟨r, offset, w', t', hr, hline, rfl⟩ := hs
  have hwrote := r.1.writeLine_wrote (utf8 request.payload) r.2
  rw [hline] at hwrote
  refine ⟨?_, fun key hkey => ?_⟩
  · cases hr with
    | @there w present =>
        obtain ⟨-, ys, hfiles, -⟩ := hwrote
        dsimp only at hfiles
        rw [hfiles]
        exact (h.again (hopened (List.mem_map.mpr ⟨_, Assoc.mem_of_get? present, rfl⟩))).refilled
          (refilled_append t t _ _ (.refl t))
    | @opened handle t₁ absent openable opens atSpot =>
        obtain ⟨-, ys, hfiles, -⟩ := (PartitionWriter.continuing_wrote handle _ t₁).trans hwrote
        dsimp only at hfiles
        rw [hfiles]
        exact (h.opens opens atSpot).refilled (refilled_append t₁ t₁ _ _ (.refl t₁))
  · obtain ⟨x, hx, rfl⟩ := List.mem_map.mp hkey
    rcases Assoc.mem_put hx with rfl | hold
    · simp
    · exact List.mem_append_left _ (hopened (List.mem_map_of_mem hold))

/-- A directory that is missing or empty lists nothing. -/
theorem start (hroot : t.find root = .ok (rp, .directory)) (hstanding : t.Standing)
    (hlegal : isTopicName topic = true)
    (hempty : t.list (root ++ [topic]) = .error .noEntry ∨ t.list (root ++ [topic]) = .ok []) :
    Lists root rp topic t [] := by
  have hproper := proper_of_isTopicName hlegal
  have hshort : topic.utf8ByteSize ≤ maxName := by
    by_contra hlong
    rw [FileTree.list, find_child_long hroot hproper (Nat.lt_of_not_le hlong)] at hempty
    simp at hempty
  have hchild := find_child hroot hproper hshort
  have hnames : (∀ n, Assoc.get? t.nodes (rp ++ [topic]) = some n → n = .directory) ∧
      t.namesIn (rp ++ [topic]) = [] := by
    cases hn : Assoc.get? t.nodes (rp ++ [topic]) with
    | none => exact ⟨by simp, namesIn_missing hstanding (by simp) hn⟩
    | some n =>
        rw [hn] at hchild
        cases n with
        | directory =>
            rw [list_eq hchild] at hempty
            exact ⟨by simp, by simpa using hempty⟩
        | file k =>
            rw [FileTree.list, hchild] at hempty
            simp at hempty
        | nullDevice =>
            rw [FileTree.list, hchild] at hempty
            simp at hempty
  refine ⟨hroot, hstanding, hshort, hnames.1, ?_, fun name => ?_,
    fun _ h => (List.not_mem_nil h).elim⟩
  · rw [hnames.2]
    exact List.nodup_nil
  · rw [hnames.2]
    simp

/-- **The partitions that a consumer lists** are those that were written, by their numbers. -/
theorem partitions (h : Lists root rp topic t written) (hlegal : isTopicName topic = true) :
    ∃ ps, FileLog.partitions root topic t = .ok ps ∧ ps.Pairwise (fun a b => a.1 < b.1) ∧
      ∀ p path, (p, path) ∈ ps ↔ p ≤ 0x7FFFFFFF ∧ partitionPath root topic p = .ok path ∧
        (topic, p) ∈ written := by
  have hchild := find_child h.found (proper_of_isTopicName hlegal) h.short
  rw [FileLog.partitions, topicPath_eq hlegal]
  dsimp only
  cases hn : Assoc.get? t.nodes (rp ++ [topic]) with
  | none =>
      rw [hn] at hchild
      refine ⟨[], by rw [FileTree.list, hchild], .nil, fun p path => ?_⟩
      -- what was written stands in the directory
      have hnone : (topic, p) ∉ written := by
        intro hkey
        have hname := (h.names (partitionName p)).mpr ⟨_, hkey, rfl, rfl⟩
        rw [namesIn_missing h.standing (by simp) hn] at hname
        cases hname
      simp [hnone]
  | some n =>
      rw [hn, h.directory n hn] at hchild
      refine ⟨partitionsIn (root ++ [topic]) (t.namesIn (rp ++ [topic])), by rw [list_eq hchild], ?_,
        fun p path => ?_⟩
      · have hapart := nodup_partitionsIn (root ++ [topic]) h.distinct fun name hname p hp => by
          obtain ⟨key, -, -, rfl⟩ := (h.names name).mp hname
          rw [eq_of_partitionOf? hp]
        exact ((pairwise_partitionsIn _ _).and (List.pairwise_map.mp hapart)).imp
          Int.lt_iff_le_and_ne.mpr
      · rw [mem_partitionsIn]
        constructor
        · rintro ⟨name, hname, hp, rfl⟩
          obtain ⟨⟨topic', q⟩, hkey, rfl, rfl⟩ := (h.names name).mp hname
          obtain rfl := eq_of_partitionOf? hp
          rw [partitionOf?_name, Option.filter_eq_some_iff] at hp
          exact ⟨(of_decide_eq_true hp.2).2, (h.fits _ hkey).path root, hkey⟩
        · rintro ⟨hhi, hpath, hkey⟩
          obtain ⟨-, hnumber, rfl⟩ := partitionPath_eq_ok.mp hpath
          exact ⟨partitionName p, (h.names _).mpr ⟨_, hkey, rfl, rfl⟩,
            partitionOf?_partitionName (Int.le_trans (by decide) hnumber) hhi, rfl⟩

end Lists

namespace ProducerRun

/-- A producer of a log in which one was replaced is the new one, or one that was there. -/
theorem producer_among {p : ProducerId} {s s' : FileLog} {pr : Producer}
    (h : s'.producers = s.producers.set p pr) (q : ProducerId) :
    s'.producer q = pr ∨ s'.producer q = s.producer q := by
  rw [producer, h, producer, Registry.set, Registry.get?_modify]
  split
  · cases s.producers.get? q with
    | none => exact .inr rfl
    | some old => exact .inl rfl
  · exact .inr rfl

/-- Nobody but the producers of the log has written to the topic. -/
structure Catalogued (root rp : Path) (topic : String) (r : ProducerRun) : Prop where
  atRoot : r.log.root = root
  lists : Lists root rp topic r.log.files (r.sent.map Sent.key)
  /-- Producers have opened no other partitions than those that were written. -/
  opened : ∀ p, (r.log.producer p).writers.map Prod.fst ⊆ r.sent.map Sent.key

section Steps

variable {root rp : Path} {topic : String} {r r' : ProducerRun} {p : ProducerId} {pr' : Producer}
  {t' : FileTree}

/-- One producer has acted. -/
theorem Catalogued.turn (h : r.Catalogued root rp topic) {deliveries : Deliveries}
    (hlog : r'.log = { r.log with
      files := t', producers := r.log.producers.set p pr', deliveries })
    (hlists : Lists root rp topic t' (r'.sent.map Sent.key))
    (hsent : r.sent.map Sent.key ⊆ r'.sent.map Sent.key)
    (hopened : pr'.writers.map Prod.fst ⊆ r'.sent.map Sent.key) : r'.Catalogued root rp topic := by
  refine ⟨by rw [hlog]; exact h.atRoot, by rw [hlog]; exact hlists, fun q => ?_⟩
  have hproducers : r'.log.producers = r.log.producers.set p pr' := by rw [hlog]
  rcases producer_among hproducers q with hq | hq
  · rw [hq]
    exact hopened
  · rw [hq]
    exact List.Subset.trans (h.opened q) hsent

/-- A producer that lets go of bytes leaves the catalogue. -/
theorem Catalogued.releases (h : r.Catalogued root rp topic)
    (hreleases : Releases (r.log.producer p) pr' r.log.files t') {deliveries : Deliveries}
    (hlog : r'.log = { r.log with
      files := t', producers := r.log.producers.set p pr', deliveries })
    (hsent : r'.sent = r.sent) : r'.Catalogued root rp topic := by
  refine h.turn hlog ?_ ?_ ?_ <;> rw [hsent]
  · exact h.lists.refilled hreleases.refilled
  · exact List.Subset.refl _
  · exact List.Subset.trans hreleases.keys (h.opened p)

/-- **A send** keeps the catalogue. -/
theorem Catalogued.sends (h : r.Catalogued root rp topic) (p : ProducerId) (request : AppendRequest) :
    (r.step (.send p request)).Catalogued root rp topic := by
  have hlog : (r.step (.send p request)).log = (r.log.send p request).2 := rfl
  have hsent : (r.step (.send p request)).sent = r.noted (.send p request) := rfl
  rcases send_made h.lists.found h.lists.standing (r.log.producer p) r.log.deliveries.next request with
    ⟨e, hsend, -⟩ | ⟨e, t', hsend, hrefuses⟩ | ⟨-, s, hsend, hs⟩ <;>
  rw [← h.atRoot] at hsend <;> rw [FileLog.send, hsend] at hlog <;>
  rw [noted, FileLog.send, hsend] at hsent
  · exact h.releases (.refl _ _) hlog hsent
  · refine h.turn hlog ?_ ?_ ?_ <;> rw [hsent]
    · exact h.lists.madeTopic hrefuses.topic
    · exact List.Subset.refl _
    · exact h.opened p
  · obtain ⟨hlists, hopened⟩ := h.lists.sends (h.opened p) hs
    refine h.turn hlog ?_ ?_ ?_ <;> rw [hsent, List.map_append]
    · exact hlists
    · exact List.subset_append_left _ _
    · exact hopened

/-- **Every step** keeps the catalogue. -/
theorem Catalogued.step (h : r.Catalogued root rp topic) (s : ProducerStep) :
    (r.step s).Catalogued root rp topic := by
  cases s with
  | create =>
      have hlog : (r.step .create).log = { r.log with producers := r.log.producers.add .fresh } := by
        show r.log.createProducer.2 = _
        rw [createProducer_again (h.atRoot ▸ h.lists.found)]
      refine ⟨by rw [hlog]; exact h.atRoot, by rw [hlog]; exact h.lists, fun q => ?_⟩
      rw [producer, hlog, Registry.get?_add]
      split
      · exact List.nil_subset _
      · exact h.opened q
  | send p request => exact h.sends p request
  | flush p => exact h.releases (.flush _ _) rfl rfl
  | close p => exact h.releases (.close _ _) rfl rfl
  | drop p => exact h.releases (.drop _ _) rfl rfl
  | spill p key n => exact h.releases (.spill key n _ _) rfl rfl

/-- **A run** keeps the catalogue. -/
theorem Catalogued.exec (h : r.Catalogued root rp topic) (steps : List ProducerStep) :
    (r.exec steps).Catalogued root rp topic := by
  induction steps generalizing r with
  | nil => exact h
  | cons s steps ih => exact ih (h.step s)

theorem catalogued_start {files : FileTree} (hstanding : files.Standing)
    (hmade : ((ofTree root files).createProducer).1 = .ok 0) (hlegal : isTopicName topic = true)
    (hempty : (start root files).log.files.list (root ++ [topic]) = .error .noEntry ∨
      (start root files).log.files.list (root ++ [topic]) = .ok []) :
    ∃ rp, (start root files).Catalogued root rp topic := by
  obtain ⟨made, hmake, hlog⟩ := start_made hmade
  obtain ⟨rp, hfound⟩ := find_of_makeDirectories hmake
  have hmadeStanding := hstanding.makeDirectories root
  rw [hmake] at hmadeStanding
  rw [hlog] at hempty
  refine ⟨rp, by rw [hlog]; rfl, ?_, fun p => ?_⟩
  · rw [hlog]
    exact .start hfound hmadeStanding hlegal hempty
  · rcases start_producer hmade p with hp | hp <;>
      · rw [hp]
        exact List.nil_subset _

end Steps

end ProducerRun

end SchemaHistory.FileLog
