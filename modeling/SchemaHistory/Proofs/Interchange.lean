import SchemaHistory.Proofs.File.Serving
import SchemaHistory.Proofs.Memory.Serving
import SchemaHistory.Proofs.StoredLines

/-!
# Logs that histories cannot tell apart

The same operations are performed on histories over a log in memory and over a log in files.
As long as no two histories are started at once, every operation has the same answer.

The two logs stand for one list of records: in memory there is an entry for each, and in the
file a line. An offset is an index there, and here a count of line feeds that each producer
takes when it opens the file and keeps by itself from then on. It is because of this count
that only one history may be started: a producer does not see the lines of another.
-/

namespace SchemaHistory

open FileLog FileTree Text

/-! ## What histories are asked to do -/

/-- What is done with the histories of a party. -/
inductive Operation
  | make (settings : HistorySettings) (shutdown : SignalId)
  | start (i : Nat)
  | store (i : Nat) (r : Record)
  | stop (i : Nat)
  /-- A history recovers, with so many polls at most. -/
  | recover (i : Nat) (limit : Nat)

/-- What comes of an operation. -/
inductive Answer
  | made
  /-- There is no such history. -/
  | nobody
  | started (result : Except HistoryError Unit)
  | stored (result : Except HistoryError StoreOutcome)
  | stopped (result : Except HistoryError Unit)
  /-- There is no result when the log has not gone quiet after the polls that were allowed. -/
  | recovered (result : Option (Except HistoryError Recovery))

/-- The settings of the history that an operation makes. -/
def Operation.made : Operation → List HistorySettings
  | .make settings _ => [settings]
  | _ => []

namespace Party

variable {σ : Type}

/-- Performs an operation. -/
def perform (c : LogClients σ) (p : Party σ) : Operation → Answer × Party σ
  | .make settings shutdown => (.made, p.act c (.make settings shutdown))
  | .start i =>
    match p.histories[i]? with
    | none => (.nobody, p)
    | some h => (.started (h.start c.host p.world).1, p.act c (.start i))
  | .store i r =>
    match p.histories[i]? with
    | none => (.nobody, p)
    | some h =>
      (.stored (h.store c.host r p.world).1, { p with world := (h.store c.host r p.world).2.2 })
  | .stop i =>
    match p.histories[i]? with
    | none => (.nobody, p)
    | some h => (.stopped (h.stop c.host p.world).1, p.act c (.stop i))
  | .recover i limit =>
    match p.histories[i]? with
    | none => (.nobody, p)
    | some h =>
      match h.recover c.host limit p.world with
      | none => (.recovered none, p)
      | some (result, _, w) => (.recovered (some result), { p with world := w })

/-- The answers to some operations, one after another. -/
def answers (c : LogClients σ) : Party σ → List Operation → List Answer
  | _, [] => []
  | p, op :: ops => (p.perform c op).1 :: answers c (p.perform c op).2 ops

/-- No two histories are started at once, from before the operations until after them. -/
def OneStarted (c : LogClients σ) : Party σ → List Operation → Prop
  | p, [] => p.histories.countP History.isStarted ≤ 1
  | p, op :: ops =>
    p.histories.countP History.isStarted ≤ 1 ∧ OneStarted c (p.perform c op).2 ops

instance (c : LogClients σ) : (p : Party σ) → (ops : List Operation) → Decidable (p.OneStarted c ops)
  | p, [] => inferInstanceAs (Decidable (p.histories.countP History.isStarted ≤ 1))
  | p, op :: ops =>
    have := instDecidableOneStarted c (p.perform c op).2 ops
    inferInstanceAs (Decidable (_ ∧ OneStarted c (p.perform c op).2 ops))

section Perform

variable {c : LogClients σ} {p : Party σ} {i limit : Nat} {h : History} {r : Record}

theorem perform_start (hi : p.histories[i]? = some h) : p.perform c (.start i) =
    (.started (h.start c.host p.world).1, p.act c (.start i)) := by
  rw [perform, hi]

theorem perform_store (hi : p.histories[i]? = some h) : p.perform c (.store i r) =
    (.stored (h.store c.host r p.world).1,
      { p with world := (h.store c.host r p.world).2.2 }) := by
  rw [perform, hi]

theorem perform_stop (hi : p.histories[i]? = some h) : p.perform c (.stop i) =
    (.stopped (h.stop c.host p.world).1, p.act c (.stop i)) := by
  rw [perform, hi]

theorem perform_recover {result : Except HistoryError Recovery} {events : List Event} {w : World σ}
    (hi : p.histories[i]? = some h)
    (hrec : h.recover c.host limit p.world = some (result, events, w)) :
    p.perform c (.recover i limit) = (.recovered (some result), { p with world := w }) := by
  rw [perform, hi]
  dsimp only
  rw [hrec]

theorem perform_recover_none (hi : p.histories[i]? = some h)
    (hrec : h.recover c.host limit p.world = none) :
    p.perform c (.recover i limit) = (.recovered none, p) := by
  rw [perform, hi]
  dsimp only
  rw [hrec]

end Perform

/-- An operation adds the histories that it makes, and leaves the settings of the others alone. -/
theorem perform_settings (c : LogClients σ) (p : Party σ) (op : Operation) :
    (p.perform c op).2.histories.map History.settings =
      p.histories.map History.settings ++ op.made := by
  cases op with
  | make settings shutdown => exact List.map_append
  | start i =>
      show _ = _ ++ []
      rw [List.append_nil, perform]
      cases hi : p.histories[i]? with
      | none => rfl
      | some h =>
          show (p.act c (.start i)).histories.map History.settings = _
          rw [act, hi]
          exact settings_set hi (h.start_settings c.host p.world)
  | store i r =>
      show _ = _ ++ []
      rw [List.append_nil, perform]
      cases p.histories[i]? <;> rfl
  | stop i =>
      show _ = _ ++ []
      rw [List.append_nil, perform]
      cases hi : p.histories[i]? with
      | none => rfl
      | some h =>
          show (p.act c (.stop i)).histories.map History.settings = _
          rw [act, hi]
          exact settings_set hi (h.stop_settings c.host p.world)
  | recover i limit =>
      show _ = _ ++ []
      rw [List.append_nil, perform]
      cases p.histories[i]? with
      | none => rfl
      | some h =>
          dsimp only
          split <;> rfl

/-- What the settings of all histories have in common. -/
theorem perform_all {c : LogClients σ} {p : Party σ} {P : HistorySettings → Prop}
    (h : ∀ g ∈ p.histories, P g.settings)
    {op : Operation} (hop : ∀ s ∈ op.made, P s) :
    ∀ g ∈ (p.perform c op).2.histories, P g.settings := by
  intro g hg
  have hmem := List.mem_map_of_mem (f := History.settings) hg
  rw [perform_settings, List.mem_append] at hmem
  rcases hmem with hmem | hmem
  · obtain ⟨old, hold, hsettings⟩ := List.mem_map.mp hmem
    rw [← hsettings]
    exact h old hold
  · exact hop _ hmem

end Party

/-! ## What both logs stand for -/

section Records

/-- What the partition in memory stores of some records. -/
def storedOf (rs : List Record) : List Stored := rs.map fun r => ⟨none, r.payload⟩

/-- The lines that the partition in files has of them. -/
def linesOf (rs : List Record) : List Bytes := rs.map fun r => utf8 r.payload

/-- The bytes of these lines. -/
def fileOf (rs : List Record) : Bytes := ended (linesOf rs)

theorem linesOf_eq (rs : List Record) : linesOf rs = storedLines (storedOf rs) := by
  rw [linesOf, storedLines, storedOf, List.map_map]
  rfl

theorem lined_linesOf (rs : List Record) : Lined (fileOf rs) (linesOf rs) [] := by
  rw [fileOf, linesOf_eq]
  refine lined_storedLines fun e he => ?_
  obtain ⟨r, -, rfl⟩ := List.mem_map.mp he
  exact r.oneLine_payload

theorem isTorn_fileOf (rs : List Record) : isTorn (fileOf rs) = false :=
  (lined_linesOf rs).isTorn_eq

/-- A line is numbered as its record is. -/
theorem nextLine_fileOf (rs : List Record) : nextLine (fileOf rs) = rs.length := by
  rw [nextLine, isTorn_fileOf, fileOf, lineCount_ended (lined_linesOf rs).line,
    linesOf, List.length_map]
  rfl

/-- What a store appends to the lines is one more. -/
theorem fileOf_concat (rs : List Record) (r : Record) : fileOf (rs ++ [r]) =
    fileOf rs ++ (repair (fileOf rs) ++ (utf8 r.payload ++ [lineFeed])) := by
  rw [repair, isTorn_fileOf, fileOf, linesOf, List.map_append, ended_append]
  exact congrArg _ (ended_singleton _)

/-- **Lines are handed over as entries are.** -/
theorem entriesOf_linesOf (topic : String) (n : Nat) (rs : List Record) :
    entriesOf topic historyPartition n (linesOf rs) =
      MemoryConsumer.handOver topic 0 n (storedOf rs) := by
  rw [linesOf_eq, ← handOver_keyless topic 0 n fun e he => ?_]
  · exact entriesOf_storedLines topic 0 n _
  · obtain ⟨r, -, rfl⟩ := List.mem_map.mp he
    rfl

/-- A new consumer has the same before it in both logs, wherever its settings let it start. -/
theorem unread_linesOf (topic : String) (o : ConsumerOptions) (rs : List Record) :
    entriesOf topic historyPartition (o.first (linesOf rs).length)
        ((linesOf rs).drop (o.first (linesOf rs).length)) =
      MemoryConsumer.handOver topic 0 (o.first (storedOf rs).length)
        ((storedOf rs).drop (o.first (storedOf rs).length)) := by
  have hlines : (linesOf rs).length = rs.length := List.length_map _
  have hstored : (storedOf rs).length = rs.length := List.length_map _
  have hdrop : ∀ n, (linesOf rs).drop n = linesOf (rs.drop n) := fun n => List.map_drop.symm
  have hdrop' : ∀ n, (storedOf rs).drop n = storedOf (rs.drop n) := fun n => List.map_drop.symm
  rw [hlines, hstored, hdrop, hdrop', entriesOf_linesOf]

end Records

/-- The producer with this number is able to append to either log, behind the records `rs`. -/
structure Able (rp : Path) (topic : String) (rs : List Record) (s : MemoryLog) (t : FileLog)
    (k : ProducerId) : Prop where
  inMemory : s.producers.get? k = some false
  inFiles : ∃ pr, t.producers.get? k = some pr ∧
    pr.Ready t.files (rp ++ [topic]) topic (fileOf rs) ∧ pr.Counts topic (fileOf rs)

/-- The parties have the same histories, and their logs stand for the records `rs`. -/
structure Twins (root rp : Path) (topic : String) (before : FileTree) (rs : List Record)
    (p : Party MemoryLog) (q : Party FileLog) : Prop where
  histories : p.histories = q.histories
  /-- The histories are on the topic. -/
  onTopic : ∀ h ∈ p.histories, h.settings.topic = topic
  /-- The next producer gets the same number. -/
  size : p.world.log.producers.size = q.world.log.producers.size
  /-- The log in memory answers at once. -/
  mode : p.world.log.mode = .immediate
  /-- The partition in memory. -/
  holds : p.world.log.topics.Holds topic (storedOf rs)
  /-- The log in files is at its place. -/
  atRoot : q.world.log.root = root
  /-- The partition in files, or the files as they were before any history was started. -/
  files : (q.world.log.files = before ∧ rs = [] ∧ ∀ i, holder p.histories i = none) ∨
    Settled root rp topic q.world.log.files (fileOf rs)
  /-- Every producer that is held is able to append, and nobody else holds it. -/
  held : Held p.histories (Able rp topic rs p.world.log q.world.log)

/-- An operation has the same answer from both parties, and they are twins behind it. -/
structure Matched (root rp : Path) (topic : String) (before : FileTree) (rs : List Record)
    (p : Party MemoryLog) (q : Party FileLog) (op : Operation) : Prop where
  answer : (p.perform MemoryLog.clients op).1 = (q.perform FileLog.clients op).1
  twins : Twins root rp topic before rs (p.perform MemoryLog.clients op).2
    (q.perform FileLog.clients op).2

namespace Twins

variable {root rp : Path} {topic : String} {before made : FileTree} {rs : List Record}
  {p : Party MemoryLog} {q : Party FileLog} {i : Nat}

theorem ofLogs (root rp : Path) (topic : String) (before : FileTree) (signals : Registry Bool) :
    Twins root rp topic before [] (.ofLog .empty signals) (.ofLog (.ofTree root before) signals) :=
  ⟨rfl, by simp [Party.ofLog], rfl, rfl, .inl ⟨rfl, rfl⟩, rfl, .inl ⟨rfl, rfl, fun _ => rfl⟩,
    held_nil _⟩

theorem matched {p' : Party MemoryLog} {q' : Party FileLog} {op : Operation} {a : Answer}
    (h : Twins root rp topic before rs p' q') (hp : p.perform MemoryLog.clients op = (a, p'))
    (hq : q.perform FileLog.clients op = (a, q')) : Matched root rp topic before rs p q op := by
  refine ⟨by rw [hp, hq], ?_⟩
  rw [hp, hq]
  exact h

/-- The other party has the same history. -/
theorem getElem? (h : Twins root rp topic before rs p q) {old : Option History}
    (hi : p.histories[i]? = old) : q.histories[i]? = old := h.histories ▸ hi

theorem settled (h : Twins root rp topic before rs p q) {k : ProducerId}
    (hk : holder p.histories i = some k) :
    Settled root rp topic q.world.log.files (fileOf rs) := by
  rcases h.files with ⟨-, -, hnone⟩ | hsettled
  · -- before the files are settled nobody holds a producer
    rw [hnone i] at hk
    cases hk
  · exact hsettled

theorem seen (h : Twins root rp topic before rs p q) (hsite : Site root topic before made rp) :
    Seen q.world.log.files root topic (fileOf rs) := by
  rcases h.files with ⟨hfiles, rfl, -⟩ | hsettled
  · rw [hfiles]
    exact hsite.seen
  · exact hsettled.seen hsite.legal

/-! ### Making, starting and stopping -/

theorem make (h : Twins root rp topic before rs p q) {settings : HistorySettings}
    (shutdown : SignalId) (htopic : settings.topic = topic) :
    Matched root rp topic before rs p q (.make settings shutdown) := by
  refine ⟨rfl, congrArg (· ++ [History.make settings shutdown]) h.histories,
    onTopic_make h.onTopic shutdown htopic, h.size, h.mode, h.holds, h.atRoot, ?_,
    h.held.make settings shutdown⟩
  rcases h.files with ⟨hfiles, hrs, hnone⟩ | hsettled
  · exact .inl ⟨hfiles, hrs, holder_none_make hnone settings shutdown⟩
  · exact .inr hsettled

/-- Starting a history settles the files. -/
theorem makeRoot (h : Twins root rp topic before rs p q) (hsite : Site root topic before made rp) :
    ∃ files, q.world.log.files.makeDirectories q.world.log.root = (.ok (), files) ∧
      Settled root rp topic files (fileOf rs) ∧
      Held p.histories (Able rp topic rs p.world.log { q.world.log with files }) := by
  rw [h.atRoot]
  rcases h.files with ⟨hfiles, rfl, hnone⟩ | hsettled
  · exact ⟨made, hfiles ▸ hsite.make, hsite.settled, held_of_none hnone _⟩
  · exact ⟨_, hsettled.makeRoot, hsettled, h.held⟩

theorem start (h : Twins root rp topic before rs p q) (hsite : Site root topic before made rp)
    (i : Nat) : Matched root rp topic before rs p q (.start i) := by
  cases hi : p.histories[i]? with
  | none => exact h.matched (by rw [Party.perform, hi]) (by rw [Party.perform, h.getElem? hi])
  | some old =>
      have hi' := h.getElem? hi
      cases hp : old.producer with
      | some k =>
          -- who is started already stays so
          refine h.matched (a := .started (.ok ())) ?_ ?_
          · rw [Party.perform_start hi, History.start_again hp, Party.act_start_again hi hp]
          · rw [Party.perform_start hi', History.start_again hp, Party.act_start_again hi' hp]
      | none =>
          obtain ⟨hlt, -⟩ := List.getElem?_eq_some_iff.mp hi
          obtain ⟨files, hmake, hsettled, hheld⟩ := h.makeRoot hsite
          -- both logs make a producer with the same number
          have hcreate : MemoryLog.clients.host.createProducer old.settings.producer p.world =
              (.ok p.world.log.producers.size, { p.world with
                log := { p.world.log with producers := p.world.log.producers.add false } }) := rfl
          have hcreate' : FileLog.clients.host.createProducer old.settings.producer q.world =
              (.ok p.world.log.producers.size, { q.world with
                log := { q.world.log with files, producers := q.world.log.producers.add .fresh } }) := by
            rw [h.size]
            exact createProducer_eq old.settings.producer hmake
          refine matched (a := .started (.ok ())) ?_
            (by rw [Party.perform_start hi, History.start_taken hp hcreate,
              Party.act_start hi hp hcreate])
            (by rw [Party.perform_start hi', History.start_taken hp hcreate',
              Party.act_start hi' hp hcreate'])
          refine ⟨by rw [h.histories], onTopic_set h.onTopic hi rfl, ?_, h.mode, h.holds, h.atRoot,
            .inr hsettled, ?_⟩
          · exact (Registry.size_add _ _).trans
              ((congrArg (· + 1) h.size).trans (Registry.size_add _ _).symm)
          · refine hheld.take hlt rfl (fun hable => ?_) ⟨Registry.get?_add_self _, .fresh, ?_,
              ready_fresh _ _ _ _, counts_fresh _ _⟩ ?_
            · -- the producer is new, so nobody holds it
              have := hable.inMemory
              rw [Registry.get?_size] at this
              cases this
            · show (q.world.log.producers.add .fresh).get? p.world.log.producers.size = _
              rw [h.size]
              exact Registry.get?_add_self _
            · rintro l ⟨hopen, pr, hl, hready⟩
              exact ⟨Registry.get?_add_of_some hopen _, pr, Registry.get?_add_of_some hl _, hready⟩

theorem stop (h : Twins root rp topic before rs p q) (i : Nat) :
    Matched root rp topic before rs p q (.stop i) := by
  cases hi : p.histories[i]? with
  | none => exact h.matched (by rw [Party.perform, hi]) (by rw [Party.perform, h.getElem? hi])
  | some old =>
      have hi' := h.getElem? hi
      cases hp : old.producer with
      | none =>
          refine h.matched (a := .stopped (.ok ())) ?_ ?_
          · rw [Party.perform_stop hi, History.stop_again hp, Party.act_stop_again hi hp]
          · rw [Party.perform_stop hi', History.stop_again hp, Party.act_stop_again hi' hp]
      | some k =>
          obtain ⟨hlt, -⟩ := List.getElem?_eq_some_iff.mp hi
          have hholder : holder p.histories i = some k := (holder_eq hi).trans hp
          obtain ⟨hopen, pr, hpr, hready, -⟩ := h.held.holds hholder
          have hmemory : old.stop MemoryLog.clients.host p.world = (.ok (), { old with producer := none },
              { p.world with
                log := { p.world.log with producers := p.world.log.producers.set k true } }) :=
            MemoryRun.stop_open hp hopen
          obtain ⟨s', hfile, hroot, hfiles, hothers, hsize⟩ := stop_ready (w := q.world) hp hpr hready
          have hfile : old.stop FileLog.clients.host q.world = (.ok (), { old with producer := none },
            { q.world with log := s' }) := hfile
          refine matched (a := .stopped (.ok ())) ?_
            (by rw [Party.perform_stop hi, Party.act_stop hi hp, hmemory])
            (by rw [Party.perform_stop hi', Party.act_stop hi' hp, hfile])
          refine ⟨by rw [h.histories], onTopic_set h.onTopic hi rfl, ?_, h.mode, h.holds,
            hroot.trans h.atRoot, .inr ?_, ?_⟩
          · exact (Registry.size_modify _ _ _).trans (h.size.trans hsize.symm)
          · show Settled root rp topic s'.files _
            rw [hfiles]
            exact h.settled hholder
          · refine h.held.release hlt hholder rfl ?_
            rintro l hl ⟨hopen', pr', hpr', hready'⟩
            refine ⟨(Registry.get?_set_other (Ne.symm hl) _).trans hopen', pr',
              (hothers l hl).trans hpr', ?_⟩
            show pr'.Ready s'.files _ _ _ ∧ _
            rw [hfiles]
            exact hready'

/-! ### Storing -/

/-- Where one history is started and its record is behind the others in both logs, these are twins
again. The producer of that history has counted the line, and nobody else holds one. -/
theorem appended (h : Twins root rp topic before rs p q) (hshort : topic.utf8ByteSize ≤ maxName)
    (hone : p.histories.countP History.isStarted ≤ 1) {k : ProducerId}
    (hk : holder p.histories i = some k) {r : Record} {w : World MemoryLog} {w' : World FileLog}
    (hholds : w.log.topics.Holds topic (storedOf rs ++ [⟨none, r.payload⟩]))
    (hmode : w.log.mode = p.world.log.mode) (hproducers : w.log.producers = p.world.log.producers)
    (hstored : StoredBy root rp topic (fileOf (rs ++ [r])) k q.world.log w'.log)
    (hcounts : ∀ pr, w'.log.producers.get? k = some pr → pr.Counts topic (fileOf (rs ++ [r]))) :
    Twins root rp topic before (rs ++ [r]) { p with world := w } { q with world := w' } := by
  refine ⟨h.histories, h.onTopic, ?_, hmode.trans h.mode, ?_, hstored.atRoot,
    .inr ⟨hstored.root, .inr hstored.file, .inl hshort⟩, ⟨h.held.single, fun {j l} hj => ?_⟩⟩
  · exact (congrArg Registry.size hproducers).trans (h.size.trans hstored.size.symm)
  · rw [storedOf, List.map_append]
    exact hholds
  · -- whoever holds a producer is the history that stored
    obtain rfl := holder_unique hone hk hj
    obtain rfl : k = l := Option.some.inj (hk.symm.trans hj)
    obtain ⟨pr, hpr, hready⟩ := hstored.ready
    refine ⟨?_, pr, hpr, hready, hcounts pr hpr⟩
    exact (congrArg (Registry.get? · k) hproducers).trans (h.held.holds hk).inMemory

/-- **A record that is stored is the next one in both logs**, and its offset is their number. -/
theorem store (h : Twins root rp topic before rs p q) (hlegal : isTopicName topic = true)
    (hshort : topic.utf8ByteSize ≤ maxName) (hone : p.histories.countP History.isStarted ≤ 1)
    (i : Nat) (r : Record) :
    ∃ more, more.length ≤ 1 ∧ Matched root rp topic before (rs ++ more) p q (.store i r) := by
  cases hi : p.histories[i]? with
  | none =>
      refine ⟨[], Nat.zero_le _, ?_⟩
      rw [List.append_nil]
      exact h.matched (by rw [Party.perform, hi]) (by rw [Party.perform, h.getElem? hi])
  | some old =>
      have hi' := h.getElem? hi
      cases hp : old.producer with
      | none =>
          refine ⟨[], Nat.zero_le _, ?_⟩
          rw [List.append_nil]
          refine h.matched (a := .stored (.error .notStarted)) ?_ ?_
          · rw [Party.perform_store hi, History.store_unstarted hp]
          · rw [Party.perform_store hi', History.store_unstarted hp]
      | some k =>
          have hk : holder p.histories i = some k := (holder_eq hi).trans hp
          obtain ⟨hopen, pr, hpr, hready, hcounts⟩ := h.held.holds hk
          have htopic := h.onTopic old (List.mem_of_getElem? hi)
          obtain ⟨s', hresult, hworld, hholds, hmode, hproducers⟩ := MemoryRun.store_immediate
            (w := p.world) (r := r) hp hopen h.mode h.holds htopic
          obtain ⟨place, hresult', hstored, hcounted⟩ := store_ready (w := q.world) (r := r) hp htopic
            h.atRoot hpr hready (h.settled hk) hlegal hshort
          obtain ⟨rfl, hcounts'⟩ := hcounted hcounts
          rw [← fileOf_concat] at hstored hcounts'
          rw [storedOf, List.length_map] at hresult
          rw [nextLine_fileOf] at hresult'
          have htwins := h.appended (w := { p.world with log := s' }) hshort hone hk hholds hmode
            hproducers hstored hcounts'
          rw [← hworld] at htwins
          exact ⟨[r], Nat.le_refl _, htwins.matched
            ((Party.perform_store hi).trans (congrArg (fun x => (Answer.stored x, _)) hresult))
            ((Party.perform_store hi').trans (congrArg (fun x => (Answer.stored x, _)) hresult'))⟩

/-! ### Recovering -/

/-- What changes consumers only leaves twins behind. -/
theorem reread (h : Twins root rp topic before rs p q) {w : World MemoryLog} {w' : World FileLog}
    (hw : MemoryRun.Recovered p.world.log w.log) (hw' : SameFiles q.world.log w'.log) :
    Twins root rp topic before rs { p with world := w } { q with world := w' } := by
  obtain ⟨hroot, hfiles, hproducers⟩ := hw'
  refine ⟨h.histories, h.onTopic, ?_, hw.mode.trans h.mode, ?_, hroot.trans h.atRoot, ?_, ?_⟩
  · show w.log.producers.size = w'.log.producers.size
    rw [hw.producers, hproducers]
    exact h.size
  · show w.log.topics.Holds topic _
    rw [hw.topics]
    exact h.holds
  · show (w'.log.files = before ∧ _) ∨ Settled root rp topic w'.log.files _
    rw [hfiles]
    exact h.files
  · refine h.held.weaken fun k hk => ⟨?_, ?_⟩
    · rw [hw.producers]
      exact hk.inMemory
    · rw [hproducers, hfiles]
      exact hk.inFiles

/-- **Recoveries** from both logs give the same, because both serve the same list. They come to an
end if there is room for a poll of each record and for the attempts. -/
theorem recoveries (h : Twins root rp topic before rs p q) (hsite : Site root topic before made rp)
    {old : History} (hi : p.histories[i]? = some old) (limit : Nat) :
    (old.recover MemoryLog.clients.host limit p.world).map Prod.fst =
        (old.recover FileLog.clients.host limit q.world).map Prod.fst ∧
      (rs.length + old.settings.attempts ≤ limit →
        old.recover MemoryLog.clients.host limit p.world ≠ none) := by
  cases ho : ConsumerOptions.ofSettings old.settings.consumer with
  | error e =>
      -- both logs refuse the settings of the consumer
      have hcreate : MemoryLog.clients.host.createConsumer old.settings.consumer p.world =
          (.error e, p.world) := by
        show World.onLog (MemoryLog.createConsumer old.settings.consumer) p.world = _
        rw [World.onLog, MemoryLog.createConsumer, ho]
      have hcreate' : FileLog.clients.host.createConsumer old.settings.consumer q.world =
          (.error e, q.world) := by
        show World.onLog (FileLog.createConsumer old.settings.consumer) q.world = _
        rw [World.onLog, FileLog.createConsumer, ho]
      rw [History.recover_refused hcreate, History.recover_refused hcreate']
      exact ⟨rfl, fun _ hnone => by cases hnone⟩
  | ok o =>
      have hseen := h.seen hsite
      rw [← h.atRoot] at hseen
      obtain ⟨k, w₁, w₂, hcreate, hsubscribe, hreading⟩ := MemoryLog.begins topic p.world ho
      obtain ⟨k', w₁', w₂', hcreate', hsubscribe', hreading'⟩ :=
        FileLog.begins hsite.legal q.world ho
      rw [MemoryConsumer.toRead_holds h.holds] at hreading
      rw [hseen.toRead_eq (lined_linesOf rs), unread_linesOf] at hreading'
      rw [← h.onTopic old (List.mem_of_getElem? hi)] at hsubscribe hsubscribe'
      have hserves := MemoryLog.serves topic k o.limit old.settings.pollInterval
        ((Assoc.get? p.world.log.topics topic).getD [])
      refine ⟨History.recover_alike hcreate hcreate' hsubscribe hsubscribe' hserves
        (FileLog.serves hseen.legible k' o.limit _) hreading hreading',
        fun hlimit => History.recover_ends hcreate hsubscribe hserves (limit_pos ho) hreading ?_⟩
      refine Nat.le_trans (Nat.add_le_add_right (Nat.le_trans (Replay.batches_le (limit_pos ho) _) ?_) _)
        hlimit
      rw [MemoryConsumer.length_handOver, List.length_drop, storedOf, List.length_map]
      exact Nat.sub_le _ _

theorem recover (h : Twins root rp topic before rs p q) (hsite : Site root topic before made rp)
    (i limit : Nat) : Matched root rp topic before rs p q (.recover i limit) := by
  cases hi : p.histories[i]? with
  | none => exact h.matched (by rw [Party.perform, hi]) (by rw [Party.perform, h.getElem? hi])
  | some old =>
      have hi' := h.getElem? hi
      obtain ⟨hsame, -⟩ := h.recoveries hsite hi limit
      cases hrec : old.recover MemoryLog.clients.host limit p.world with
      | none =>
          rw [hrec, Option.map_none, eq_comm, Option.map_eq_none_iff] at hsame
          exact h.matched (Party.perform_recover_none hi hrec) (Party.perform_recover_none hi' hsame)
      | some x =>
          obtain ⟨result, events, w⟩ := x
          rw [hrec, Option.map_some, eq_comm, Option.map_eq_some_iff] at hsame
          obtain ⟨⟨_, events', w'⟩, hrec', rfl⟩ := hsame
          exact (h.reread (MemoryRun.recovered_of_recover hrec) (sameFiles_recover hrec')).matched
            (Party.perform_recover hi hrec) (Party.perform_recover hi' hrec')

/-- A recovery with enough polls comes to an end. -/
theorem recover_ends (h : Twins root rp topic before rs p q)
    (hsite : Site root topic before made rp) {i limit : Nat}
    (hlimit : ∀ g ∈ p.histories, rs.length + g.settings.attempts ≤ limit) :
    (p.perform MemoryLog.clients (.recover i limit)).1 ≠ .recovered none := by
  intro hanswer
  cases hi : p.histories[i]? with
  | none =>
      rw [Party.perform, hi] at hanswer
      cases hanswer
  | some old =>
      obtain ⟨-, hends⟩ := h.recoveries hsite hi limit
      cases hrec : old.recover MemoryLog.clients.host limit p.world with
      | none => exact hends (hlimit old (List.mem_of_getElem? hi)) hrec
      | some x =>
          rw [Party.perform_recover hi hrec] at hanswer
          cases hanswer

/-! ### All operations -/

/-- **One operation** has the same answer from both parties, which are twins again behind it. -/
theorem step (h : Twins root rp topic before rs p q) (hsite : Site root topic before made rp)
    (hshort : topic.utf8ByteSize ≤ maxName) (hone : p.histories.countP History.isStarted ≤ 1)
    {op : Operation} (hop : ∀ s ∈ op.made, s.topic = topic) :
    ∃ more, more.length ≤ 1 ∧ Matched root rp topic before (rs ++ more) p q op := by
  -- only a store adds a record
  have hsame : Matched root rp topic before rs p q op →
      ∃ more, more.length ≤ 1 ∧ Matched root rp topic before (rs ++ more) p q op := by
    intro hmatched
    refine ⟨[], Nat.zero_le _, ?_⟩
    rwa [List.append_nil]
  cases op with
  | make settings shutdown => exact hsame (h.make shutdown (hop settings (by simp [Operation.made])))
  | start i => exact hsame (h.start hsite i)
  | store i r => exact h.store hsite.legal hshort hone i r
  | stop i => exact hsame (h.stop i)
  | recover i limit => exact hsame (h.recover hsite i limit)

/-- **A run.** All operations have the same answers from both parties. -/
theorem answers (h : Twins root rp topic before rs p q) (hsite : Site root topic before made rp)
    (hshort : topic.utf8ByteSize ≤ maxName) {ops : List Operation}
    (hops : ∀ op ∈ ops, ∀ s ∈ op.made, s.topic = topic)
    (hone : p.OneStarted MemoryLog.clients ops) :
    p.answers MemoryLog.clients ops = q.answers FileLog.clients ops := by
  induction ops generalizing rs p q with
  | nil => rfl
  | cons op ops ih =>
      obtain ⟨hnow, hlater⟩ := hone
      obtain ⟨more, -, hanswer, htwins⟩ :=
        h.step hsite hshort hnow (hops op (by simp))
      have hrest := ih htwins (fun o ho => hops o (by simp [ho])) hlater
      rw [Party.answers, Party.answers, hanswer, hrest]

/-- Every recovery of a run comes to an end that has room for a poll of each record that the run may
store, and for the attempts of any history. -/
theorem answers_end (h : Twins root rp topic before rs p q) (hsite : Site root topic before made rp)
    (hshort : topic.utf8ByteSize ≤ maxName) {ops : List Operation} {A n : Nat}
    (hops : ∀ op ∈ ops, ∀ s ∈ op.made, s.topic = topic ∧ s.attempts ≤ A)
    (hone : p.OneStarted MemoryLog.clients ops)
    (hattempts : ∀ g ∈ p.histories, g.settings.attempts ≤ A) (hn : rs.length + ops.length ≤ n)
    (hlimit : ∀ i limit, .recover i limit ∈ ops → n + A ≤ limit) :
    .recovered none ∉ p.answers MemoryLog.clients ops := by
  induction ops generalizing rs p q with
  | nil => simp [Party.answers]
  | cons op ops ih =>
      obtain ⟨hnow, hlater⟩ := hone
      rw [List.length_cons] at hn
      obtain ⟨more, hmore, -, htwins⟩ :=
        h.step hsite hshort hnow fun s hs => (hops op (by simp) s hs).1
      have hrest := ih htwins (fun o ho => hops o (by simp [ho])) hlater
        (Party.perform_all hattempts fun s hs => (hops op (by simp) s hs).2)
        (by rw [List.length_append]; omega) (fun i limit hi => hlimit i limit (by simp [hi]))
      rw [Party.answers, List.mem_cons, not_or]
      refine ⟨fun hanswer => ?_, hrest⟩
      cases op with
      | recover i limit =>
          refine h.recover_ends hsite (fun g hg => ?_) hanswer.symm
          have := hattempts g hg
          have := hlimit i limit (by simp)
          omega
      | make settings shutdown => cases hanswer
      | _ i =>
          rw [Party.perform] at hanswer
          split at hanswer <;> cases hanswer

end Twins

/--
**Logs in memory and in files are interchangeable.** Whatever is done with histories on one topic,
whose name a file may have, every operation has the same answer over a log in memory that answers
at once and over a log in files, where nothing of the topic was before, unless two histories are
started at once. The answer is all that the caller gets: the place of a record that is
acknowledged, the records of a recovery in their order and its summary, or the error. A recovery
that may poll once for each operation, and then as often as the attempts of any history, has an
answer.
-/
theorem answers_agree (root : Path) (topic : String) (before made : FileTree) (rp : Path)
    (hsite : Site root topic before made rp) (hshort : topic.utf8ByteSize ≤ maxName)
    (signals : Registry Bool) (ops : List Operation)
    (hops : ∀ op ∈ ops, ∀ s ∈ op.made, s.topic = topic)
    (hone : (Party.ofLog .empty signals).OneStarted MemoryLog.clients ops) :
    (Party.ofLog .empty signals).answers MemoryLog.clients ops =
        (Party.ofLog (.ofTree root before) signals).answers FileLog.clients ops ∧
      ∀ attempts, (∀ op ∈ ops, ∀ s ∈ op.made, s.attempts ≤ attempts) →
        (∀ i limit, .recover i limit ∈ ops → ops.length + attempts ≤ limit) →
        .recovered none ∉ (Party.ofLog (.ofTree root before) signals).answers FileLog.clients ops := by
  have htwins := Twins.ofLogs root rp topic before signals
  have hsame := htwins.answers hsite hshort hops hone
  refine ⟨hsame, fun attempts hattempts hlimit => ?_⟩
  rw [← hsame]
  exact htwins.answers_end hsite hshort (fun op hop s hs => ⟨hops op hop s hs, hattempts op hop s hs⟩)
    hone (by simp [Party.ofLog]) (by simp) hlimit

/-- The settings of a history whose consumer is told something. -/
def toldConsumer (key value : String) : HistorySettings :=
  { HistorySettings.ofTopic "t" "b" "n" with
    consumer := (HistorySettings.ofTopic "t" "b" "n").consumer.set key value }

/-- Two histories store, one after the other. Behind them one recovers from the start, one from the
end, one with a poll for each record, and one with settings that no consumer takes. -/
def relayOps : List Operation :=
  [.make (.ofTopic "t" "b" "n") 0, .store 0 (.ofStatements "A"), .start 0,
   .store 0 (.ofStatements "A"), .store 0 (.ofStatements "B"), .recover 0 30, .stop 0,
   .make (toldConsumer ConsumerOptions.startKey "latest") 0,
   .make (toldConsumer ConsumerOptions.limitKey "1") 0,
   .make (toldConsumer ConsumerOptions.startKey "none") 0,
   .start 1, .store 1 (.ofStatements "C"), .recover 1 30, .recover 2 30, .recover 3 30, .stop 1,
   .start 9]

/-- The theorem at this run. -/
theorem answers_agree_relayOps :
    (Party.ofLog .empty .empty).answers MemoryLog.clients relayOps =
        (Party.ofLog (.ofTree ["log"] .empty) .empty).answers FileLog.clients relayOps ∧
      .recovered none ∉
        (Party.ofLog (.ofTree ["log"] .empty) .empty).answers FileLog.clients relayOps ∧
      ((Party.ofLog (.ofTree ["log"] .empty) .empty).answers FileLog.clients relayOps).filterMap
          (fun answer => match answer with
            | .stored (.ok (.acknowledged place)) => some place.offset
            | _ => none) = [0, 1, 2] ∧
      ((Party.ofLog (.ofTree ["log"] .empty) .empty).answers FileLog.clients relayOps).filterMap
          (fun answer => match answer with
            | .recovered (some (.ok recovery)) =>
              some (recovery.records.map Record.payload, recovery.summary.polls)
            | _ => none) =
        [(["A", "B"].map fun ddl => (Record.ofStatements ddl).payload, 5), ([], 4),
          (["A", "B", "C"].map fun ddl => (Record.ofStatements ddl).payload, 7)] := by
  have hsite : Site ["log"] "t" .empty ⟨[(["log"], .directory)], .empty⟩ ["log"] := by
    refine ⟨by decide, rfl, rfl, ?_⟩
    simp [FileTree.Vacant]
  have hops : ∀ op ∈ relayOps, ∀ s ∈ op.made, s.topic = "t" ∧ s.attempts ≤ 4 := by
    decide +kernel
  have hone : (Party.ofLog .empty .empty).OneStarted MemoryLog.clients relayOps := by
    decide +kernel
  obtain ⟨hsame, hends⟩ := answers_agree ["log"] "t" .empty _ ["log"] hsite (by decide) .empty relayOps
    (fun op hop s hs => (hops op hop s hs).1) hone
  refine ⟨hsame, hends 4 (fun op hop s hs => (hops op hop s hs).2) ?_, ?_⟩
  · intro i limit hmem
    simp only [relayOps, List.mem_cons, List.not_mem_nil, reduceCtorEq, Operation.recover.injEq,
      false_or, or_false] at hmem
    show 21 ≤ limit
    omega
  · rw [← hsame]
    decide +kernel

end SchemaHistory
