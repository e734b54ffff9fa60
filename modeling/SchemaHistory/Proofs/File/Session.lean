import SchemaHistory.Log.File.Broker
import SchemaHistory.Proofs.File.Ledger
import SchemaHistory.Proofs.Party

/-!
# A history on a log in files

Between two calls of a history the files are settled: the root is there, and the partition
holds some bytes, which is all that the next call goes by. A store that is made then puts its
record behind these bytes and is acknowledged. A process that dies in the middle of a store
leaves the files settled again, with as many of the new bytes as the disk had.
-/

namespace SchemaHistory

open FileLog FileTree Text

/-! ## The files between two calls -/

/-- Where a log in files keeps a topic that may be named so: in a directory of its root, which is made
if it is missing, and where nothing of the topic was before. -/
structure Site (root : Path) (topic : String) (before made : FileTree) (rp : Path) : Prop where
  legal : isTopicName topic = true
  /-- The root is made, or there. -/
  make : before.makeDirectories root = (.ok (), made)
  root : made.find root = .ok (rp, .directory)
  /-- Nothing was there. -/
  vacant : made.Vacant (rp ++ [topic])

/-- The root is there and the partition holds these bytes. A topic with a name that is too long has
no partition. -/
structure Settled (root rp : Path) (topic : String) (files : FileTree) (bs : Bytes) : Prop where
  root : files.find root = .ok (rp, .directory)
  /-- The partition holds the bytes. -/
  holds : Holds files (rp ++ [topic]) bs
  /-- There is none with a name that is too long. -/
  short : topic.utf8ByteSize ≤ maxName ∨ Bare files (rp ++ [topic])

/-- Shortens the file under a path to so many bytes. -/
def FileTree.truncate (t : FileTree) (path : Path) (n : Nat) : FileTree :=
  match t.find path with
  | .ok (_, .file k) => { t with contents := t.contents.modify k (·.take n) }
  | _ => t

/-- What the disk has when a process died while it stored a record. `before` is what it had when the
call began, and `after` is what it would have at its end. -/
def Cut.files (root : Path) (topic : String) (before after : FileTree) : Cut → FileTree
  | .directory => (before.makeDirectories (root ++ [topic])).2
  | .kept n => after.truncate (historyPath root topic)
      (((before.read (historyPath root topic)).toOption.getD []).length + n)

section Files

variable {root rp : Path} {topic : String} {before made files : FileTree} {bs : Bytes}

/-- A directory that is there and empty will do. -/
theorem site_of_empty (hlegal : isTopicName topic = true)
    (hroot : before.find root = .ok (rp, .directory))
    (hempty : ∀ n ∈ before.nodes, rp <+: n.1 → n.1 = rp) : Site root topic before before rp := by
  refine ⟨hlegal, makeDirectories_again (isDirectory_of_find hroot), hroot, fun n hn hbelow => ?_⟩
  have hlength := hbelow.length_le
  rw [hempty n hn ((List.prefix_append rp [topic]).trans hbelow), List.length_append,
    List.length_singleton] at hlength
  omega

theorem Site.settled (h : Site root topic before made rp) : Settled root rp topic made [] :=
  ⟨h.root, .inl ⟨bare_of_vacant h.vacant, rfl⟩, .inr (bare_of_vacant h.vacant)⟩

theorem Settled.seen (h : Settled root rp topic files bs) (hlegal : isTopicName topic = true) :
    Seen files root topic bs := by
  by_cases hshort : topic.utf8ByteSize ≤ maxName
  · exact h.holds.seen h.root hlegal hshort
  · have hbare := h.short.resolve_left hshort
    have hbs : bs = [] := by
      rcases h.holds with ⟨-, hbs⟩ | ⟨k, hfile⟩
      · exact hbs
      · have := hbare.file
        rw [hfile.file] at this
        cases this
    rw [hbs]
    exact seen_of_find_error hlegal
      (find_child_long h.root (proper_of_isTopicName hlegal) (Nat.lt_of_not_le hshort))

/-- Before a session was started there is nothing to read. -/
theorem Site.seen (h : Site root topic before made rp) : Seen before root topic [] := by
  cases hfind : before.find root with
  | error e => exact seen_of_find_error h.legal (find_append_error hfind [topic])
  | ok q =>
      obtain ⟨p, n⟩ := q
      by_cases hn : n = .directory
      · subst hn
        have hagain := makeDirectories_again (isDirectory_of_find hfind)
        rw [h.make] at hagain
        cases hagain
        exact h.settled.seen h.legal
      · exact seen_of_find_error h.legal (find_child_file hfind hn)

/-- Making the root again does nothing. -/
theorem Settled.makeRoot (h : Settled root rp topic files bs) :
    files.makeDirectories root = (.ok (), files) :=
  makeDirectories_again (isDirectory_of_find h.root)

theorem FileLog.OnFile.truncate {k : Nat} (h : OnFile files (rp ++ [topic]) k bs)
    (hroot : files.find root = .ok (rp, .directory)) (hname : Proper topic)
    (hshort : topic.utf8ByteSize ≤ maxName) (n : Nat) :
    (files.truncate (historyPath root topic) n).find root = .ok (rp, .directory) ∧
      OnFile (files.truncate (historyPath root topic) n) (rp ++ [topic]) k (bs.take n) := by
  have hfind := h.find hroot hname hshort
  have hcut : files.truncate (historyPath root topic) n =
      ⟨files.nodes, files.contents.modify k (·.take n)⟩ := by
    rw [FileTree.truncate, hfind]
  have hnodes : (files.truncate (historyPath root topic) n).nodes = files.nodes := by
    rw [hcut]
  refine ⟨(find_nodes hnodes root).trans hroot, ?_⟩
  rw [hcut]
  refine h.withContents ?_
  rw [Registry.get?_modify, if_pos rfl, h.contents]
  rfl

/-- The bytes of the partition, as reading the file gives them. -/
theorem Settled.read (h : Settled root rp topic files bs) (hlegal : isTopicName topic = true)
    (hshort : topic.utf8ByteSize ≤ maxName) :
    (files.read (historyPath root topic)).toOption.getD [] = bs := by
  rcases h.holds with ⟨hbare, rfl⟩ | ⟨k, hfile⟩
  · have hchild := find_child h.root (proper_of_isTopicName hlegal) hshort
    -- a file that is not found is read as an empty one
    have hnone : ∃ e, files.find (historyPath root topic) = .error e := by
      cases hn : Assoc.get? files.nodes (rp ++ [topic]) with
      | none =>
          rw [hn] at hchild
          exact ⟨_, find_append_error hchild [partitionFile]⟩
      | some n =>
          obtain rfl := hbare.parent n hn
          rw [hn] at hchild
          refine ⟨.noEntry, ?_⟩
          rw [historyPath, find_child hchild proper_partitionFile short_partitionFile, hbare.file]
    obtain ⟨e, he⟩ := hnone
    rw [FileTree.read, he]
    rfl
  · rw [hfile.read h.root (proper_of_isTopicName hlegal) hshort]
    rfl

/-- **What a cut leaves** is what was there and the first bytes of what the call appends. -/
theorem Settled.cut (h : Settled root rp topic files bs) (hlegal : isTopicName topic = true)
    (hshort : topic.utf8ByteSize ≤ maxName) {after : FileTree} {k : Nat} {more : Bytes}
    (hroot : after.find root = .ok (rp, .directory))
    (hfile : OnFile after (rp ++ [topic]) k (bs ++ more)) (n : Nat) :
    Settled root rp topic ((Cut.kept n).files root topic files after) (bs ++ more.take n) := by
  rw [Cut.files, h.read hlegal hshort]
  obtain ⟨hroot', hfile'⟩ :=
    hfile.truncate hroot (proper_of_isTopicName hlegal) hshort (bs.length + n)
  rw [List.take_length_add_append] at hfile'
  exact ⟨hroot', .inr ⟨k, hfile'⟩, .inl hshort⟩

theorem Settled.cutDirectory (h : Settled root rp topic files bs)
    (hlegal : isTopicName topic = true) (hshort : topic.utf8ByteSize ≤ maxName)
    (after : FileTree) : Settled root rp topic (Cut.directory.files root topic files after) bs := by
  obtain ⟨files', hmake, hroot, -, hholds, -⟩ :=
    h.holds.makeDirectories h.root (proper_of_isTopicName hlegal) hshort
  rw [Cut.files, hmake]
  exact ⟨hroot, hholds, .inl hshort⟩

end Files

/-! ## One store -/

namespace FileLog

/-- The log as its clients reach it. -/
def host : Host (World FileLog) := FileLog.clients.host

section Store

variable {root rp : Path} {topic : String} {bs : Bytes} {w : World FileLog} {h : History}
  {p : ProducerId} {pr : Producer} {r : Record}

theorem producer_of_get? {s : FileLog} (hp : s.producers.get? p = some pr) : s.producer p = pr := by
  rw [FileLog.producer, hp]
  rfl

/-- Where the root can be made, a producer is. -/
theorem createProducer_eq {files : FileTree} (settings : ClientSettings)
    (hmake : w.log.files.makeDirectories w.log.root = (.ok (), files)) :
    host.createProducer settings w = (.ok w.log.producers.size, { w with
      log := { w.log with files, producers := w.log.producers.add .fresh } }) := by
  show World.onLog FileLog.createProducer w = _
  rw [World.onLog, FileLog.createProducer, hmake]

theorem answer?_fillAll (d : Deliveries) (ack : Ack) :
    (d.expect.fillAll [(d.next, ack)]).answer? d.next = some ack := by
  have hnext : d.expect.get? d.next = some none := Registry.get?_add_self none
  show ((d.expect.set d.next (some ack)).get? d.next).join = some ack
  rw [Registry.get?_set_self hnext]
  rfl

theorem await_answered {signal : SignalId} {t : Ticket} {place : Placement}
    (h : w.log.deliveries.answer? t = some (.ok place)) :
    host.await signal t w = (some (.ok place), w) := by
  rw [Host.await, show host.answer? t w = some (.ok place) from h]
  rfl

/-- The log hands a request on to the producer. -/
theorem send_eq {s : FileLog} {request : AppendRequest} {pr' : Producer} {t : FileTree}
    (hp : s.producers.get? p = some pr)
    (hsend : pr.send s.root s.deliveries.next request s.files = (.ok (), pr', t)) :
    s.send p request = (.ok s.deliveries.next, { s with
      files := t, producers := s.producers.set p pr', deliveries := s.deliveries.expect }) := by
  rw [FileLog.send, producer_of_get? hp, hsend]

theorem flush_eq {s : FileLog} {acks : List (Ticket × Ack)} {pr' : Producer} {t : FileTree}
    (hp : s.producers.get? p = some pr) (hflush : pr.flush s.files = (.ok (), acks, pr', t)) :
    s.flush p = (.ok (), s.settled p acks pr' t) := by
  rw [FileLog.flush, producer_of_get? hp, hflush]

/-- A store that was handed over and flushed is answered. -/
theorem store_of_send {s' s'' : FileLog} {ticket : Ticket} {place : Placement}
    (hp : h.producer = some p) (hsend : w.log.send p (h.request r) = (.ok ticket, s'))
    (hflush : s'.flush p = (.ok (), s''))
    (hanswer : s''.deliveries.answer? ticket = some (.ok place)) :
    (h.store host r w).1 = .ok (.acknowledged place) ∧
      (h.store host r w).2.2 = { w with log := s'' } := by
  have hsend' : host.send p (h.request r) w = (.ok ticket, { w with log := s' }) := by
    show World.onLog (FileLog.send p (h.request r)) w = _
    rw [World.onLog, hsend]
  have hflush' : host.flush p { w with log := s' } = (.ok (), { w with log := s'' }) := by
    show World.onLog (FileLog.flush p) { w with log := s' } = _
    rw [World.onLog, hflush]
  have hawait : host.await h.shutdown ticket { w with log := s'' } =
      (some (.ok place), { w with log := s'' }) := await_answered hanswer
  obtain ⟨hresult, hworld⟩ := History.store_handed hp hsend'
  rw [hflush', hawait] at hresult hworld
  exact ⟨hresult, hworld⟩

/-- What a log is after a store: the partition has the record, the producer that wrote it is ready
again, and the others are as they were. -/
structure StoredBy (root rp : Path) (topic : String) (bs : Bytes) (p : ProducerId) (s s' : FileLog) :
    Prop where
  /-- The log is at its place. -/
  atRoot : s'.root = root
  root : s'.files.find root = .ok (rp, .directory)
  /-- Files stay under their paths. -/
  keeps : KeepsFiles s.files s'.files
  /-- The partition holds the bytes. -/
  file : ∃ k, OnFile s'.files (rp ++ [topic]) k bs
  /-- The producer is ready. -/
  ready : ∃ pr, s'.producers.get? p = some pr ∧ pr.Ready s'.files (rp ++ [topic]) topic bs
  /-- The others are as they were. -/
  others : ∀ q, q ≠ p → s'.producers.get? q = s.producers.get? q
  /-- Nobody came. -/
  size : s'.producers.size = s.producers.size

/-- **A started history stores.** Its record is acknowledged, and it is on the partition then. If its
producer has counted the lines, it is acknowledged with the place of its line. -/
theorem store_ready (hp : h.producer = some p) (htopic : h.settings.topic = topic)
    (hroot : w.log.root = root) (hpr : w.log.producers.get? p = some pr)
    (hready : pr.Ready w.log.files (rp ++ [topic]) topic bs)
    (hsettled : Settled root rp topic w.log.files bs) (hlegal : isTopicName topic = true)
    (hshort : topic.utf8ByteSize ≤ maxName) :
    ∃ place, (h.store host r w).1 = .ok (.acknowledged place) ∧
      StoredBy root rp topic (bs ++ (repair bs ++ (utf8 r.payload ++ [lineFeed]))) p w.log
        (h.store host r w).2.2.log ∧
      (pr.Counts topic bs → place = ⟨topic, historyPartition, nextLine bs⟩ ∧
        ∀ pr', (h.store host r w).2.2.log.producers.get? p = some pr' →
          pr'.Counts topic (bs ++ (repair bs ++ (utf8 r.payload ++ [lineFeed])))) := by
  subst hroot
  obtain ⟨pr₁, t₁, place, pr₂, t₂, k, hsend, hflush, hroot₂, hkeeps, hfile, hready₂, hcounts⟩ :=
    hready.append hsettled.holds hsettled.root hlegal hshort w.log.deliveries.next none
      r.oneLine_payload
  have hrequest : h.request r = ⟨topic, historyPartition, none, r.payload⟩ := by
    rw [History.request, htopic]
  rw [← hrequest] at hsend
  have hget : (w.log.producers.set p pr₁).get? p = some pr₁ := Registry.get?_set_self hpr _
  obtain ⟨hresult, hworld⟩ := store_of_send hp (send_eq hpr hsend) (flush_eq hget hflush)
    (answer?_fillAll w.log.deliveries (.ok place))
  have hget₂ : ((w.log.producers.set p pr₁).set p pr₂).get? p = some pr₂ :=
    Registry.get?_set_self hget _
  refine ⟨place, hresult, ?_, fun hcount => ⟨(hcounts hcount).1, fun pr' hpr' => ?_⟩⟩
  · rw [hworld]
    refine ⟨rfl, hroot₂, hkeeps, ⟨k, hfile⟩, ⟨pr₂, hget₂, hready₂⟩, fun q hq => ?_, ?_⟩
    · have hne : p ≠ q := fun he => hq he.symm
      exact (Registry.get?_set_other hne _).trans (Registry.get?_set_other hne _)
    · exact (Registry.size_modify _ _ _).trans (Registry.size_modify _ _ _)
  · rw [hworld] at hpr'
    obtain rfl := Option.some.inj (hget₂.symm.trans hpr')
    exact (hcounts hcount).2

/-- A store to a topic with a name that is too long fails, and nothing is written. -/
theorem store_long (hp : h.producer = some p) (htopic : h.settings.topic = topic)
    (hroot : w.log.root = root) (hpr : w.log.producers.get? p = some pr)
    (hready : pr.Ready w.log.files (rp ++ [topic]) topic bs)
    (hsettled : Settled root rp topic w.log.files bs) (hlegal : isTopicName topic = true)
    (hlong : ¬ topic.utf8ByteSize ≤ maxName) :
    (∃ e, (h.store host r w).1 = .error e) ∧ (h.store host r w).2.2 =
      { w with log := { w.log with producers := w.log.producers.set p pr } } := by
  subst hroot
  have hrequest : h.request r = ⟨topic, historyPartition, none, r.payload⟩ := by
    rw [History.request, htopic]
  have hsend := hready.append_long (hsettled.short.resolve_left hlong) hsettled.root hlegal
    (Nat.lt_of_not_le hlong) w.log.deliveries.next none r.oneLine_payload
  have hsend' : host.send p (h.request r) w = (.error (.io SystemError.nameTooLong.message),
      { w with log := { w.log with producers := w.log.producers.set p pr } }) := by
    show World.onLog (FileLog.send p (h.request r)) w = _
    rw [World.onLog, FileLog.send, producer_of_get? hpr, hrequest, hsend]
  rw [History.store, hp]
  dsimp only
  rw [hsend']
  exact ⟨⟨_, rfl⟩, rfl⟩

/-- The root and the files are the same, and so are all producers but one. -/
structure OnlyProducer (p : ProducerId) (s s' : FileLog) : Prop where
  root : s'.root = s.root
  files : s'.files = s.files
  others : ∀ q, q ≠ p → s'.producers.get? q = s.producers.get? q
  size : s'.producers.size = s.producers.size

theorem OnlyProducer.trans {s s' s'' : FileLog} (h : OnlyProducer p s s')
    (h' : OnlyProducer p s' s'') : OnlyProducer p s s'' :=
  ⟨h'.root.trans h.root, h'.files.trans h.files, fun q hq => (h'.others q hq).trans (h.others q hq),
    h'.size.trans h.size⟩

theorem settled_onlyProducer (p : ProducerId) (s : FileLog) (acks : List (Ticket × Ack))
    (pr : Producer) : OnlyProducer p s (s.settled p acks pr s.files) :=
  ⟨rfl, rfl, fun _ hq => Registry.get?_set_other (fun he => hq he.symm) _,
    Registry.size_modify _ _ _⟩

theorem stop_of_close {s₁ s₂ : FileLog} (hp : h.producer = some p)
    (hflush : w.log.flush p = (.ok (), s₁)) (hclose : s₁.closeProducer p = (.ok (), s₂)) :
    h.stop host w =
      (.ok (), { h with producer := none }, { w with log := s₂.dropProducer p }) := by
  have hflush' : host.flush p w = (.ok (), { w with log := s₁ }) := by
    show World.onLog (FileLog.flush p) w = _
    rw [World.onLog, hflush]
  have hclose' : host.closeProducer p { w with log := s₁ } = (.ok (), { w with log := s₂ }) := by
    show World.onLog (FileLog.closeProducer p) { w with log := s₁ } = _
    rw [World.onLog, hclose]
  exact History.stop_closed hp hflush' hclose'

/-- **A history that is stopped** succeeds, leaves the files as they are, and lets go of its
producer. -/
theorem stop_ready (hp : h.producer = some p) (hpr : w.log.producers.get? p = some pr)
    (hready : pr.Ready w.log.files (rp ++ [topic]) topic bs) :
    ∃ s', h.stop host w = (.ok (), { h with producer := none }, { w with log := s' }) ∧
      OnlyProducer p w.log s' := by
  obtain ⟨hsettle, hspill⟩ := hready.settle
  have hopen : ¬ pr.closed = true := ne_true_of_eq_false hready.isOpen
  -- nothing is left to be stored, so each of the three calls changes the producer alone
  have hflush : w.log.flush p = (.ok (), w.log.settled p [] pr w.log.files) :=
    flush_eq hpr (by rw [Producer.flush, if_neg hopen, hsettle])
  have hkept := settled_onlyProducer p w.log [] pr
  have hget : (w.log.settled p [] pr w.log.files).producers.get? p = some pr :=
    Registry.get?_set_self hpr _
  generalize w.log.settled p [] pr w.log.files = s₁ at hflush hkept hget
  have hclose : s₁.closeProducer p =
      (.ok (), s₁.settled p [] { pr with writers := [], closed := true } s₁.files) := by
    rw [FileLog.closeProducer, producer_of_get? hget, hkept.files, Producer.close, if_neg hopen,
      hsettle]
    dsimp only
    rw [hspill]
  have hkept' := settled_onlyProducer p s₁ [] { pr with writers := [], closed := true }
  have hget' : (s₁.settled p [] { pr with writers := [], closed := true }
      s₁.files).producers.get? p = some { pr with writers := [], closed := true } :=
    Registry.get?_set_self hget _
  generalize s₁.settled p [] { pr with writers := [], closed := true } s₁.files = s₂
    at hclose hkept' hget'
  have hdrop : s₂.dropProducer p = s₂.settled p [] ⟨[], [], true⟩ s₂.files := by
    rw [FileLog.dropProducer, producer_of_get? hget', Producer.drop, hready.pending]
    rfl
  refine ⟨_, stop_of_close hp hflush hclose, ?_⟩
  rw [hdrop]
  exact (hkept.trans hkept').trans (settled_onlyProducer p s₂ [] _)

end Store

/-! ## Recoveries -/

/-- Nothing but consumers changed. -/
def SameFiles (s s' : FileLog) : Prop :=
  s'.root = s.root ∧ s'.files = s.files ∧ s'.producers = s.producers

theorem sameFiles_recover {h : History} {w w' : World FileLog} {limit : Nat}
    {result : Except HistoryError Recovery} {events : List Event}
    (hrec : h.recover host limit w = some (result, events, w')) : SameFiles w.log w'.log := by
  have hcreate : SameFiles w.log (FileLog.createConsumer h.settings.consumer w.log).2 := by
    unfold FileLog.createConsumer
    split <;> exact ⟨rfl, rfl, rfl⟩
  refine History.recover_preserves (P := fun w' => SameFiles w.log w'.log) (fun _ _ => hcreate)
    (fun k _ => ⟨hcreate, ?_⟩) hrec
  exact ⟨fun h => h, fun h => h, fun h => h, fun h => h⟩

end FileLog

end SchemaHistory
