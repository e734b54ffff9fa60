import SchemaHistory.Proofs.File.Session

/-!
# Runs on a log in files

A run is any order of what histories on one topic do, and of deaths of the process that runs
them. A process may die between two calls, or while a record is stored, and then the
partition keeps what the disk had of the bytes that the call appends: any number of them from
the first on. Whatever a process held is gone with it; the next one finds the files and
nothing else.

The journal has every store in the order of issue. One step lemma says that the partition
holds the bytes of the journal's ledger, and the rest follows by induction on the run.
-/

namespace SchemaHistory

open FileLog FileTree Text

/-- A run: the histories with their log, and the journal. -/
structure FileRun where
  party : Party FileLog
  /-- Every store so far. -/
  journal : List FileWrite
  /-- The signals that a process begins with. -/
  signals : Registry Bool

/-- What may happen on a log in files. -/
inductive FileStep
  /-- A history is made, started or stopped, or a signal is raised. -/
  | act (a : Act)
  | store (i : Nat) (r : Record)
  /-- A history recovers, with so many polls at most. -/
  | recover (i : Nat) (limit : Nat)
  /-- The process dies between two calls. -/
  | die
  /-- The process dies while a history stores a record. -/
  | crash (i : Nat) (r : Record) (cut : Cut)

namespace FileRun

/-- A log in files before anything happened. -/
def start (root : Path) (files : FileTree) (signals : Registry Bool) : FileRun :=
  ⟨.ofLog (.ofTree root files) signals, [], signals⟩

/-- The log. -/
def log (run : FileRun) : FileLog := run.party.world.log

/-- What was written. -/
def ledger (run : FileRun) : Ledger := .ofJournal run.journal

/-- A new process, which finds some files. -/
def restarted (run : FileRun) (files : FileTree) : FileRun :=
  { run with party := .ofLog (.ofTree run.log.root files) run.signals }

/-- What the disk has after a crash. A call that fails appends nothing. -/
def crashed (run : FileRun) (h : History) (r : Record) (cut : Cut) : FileTree :=
  match (h.store FileLog.host r run.party.world).1 with
  | .ok _ => cut.files run.log.root h.settings.topic run.log.files
      (h.store FileLog.host r run.party.world).2.2.log.files
  | .error _ => (h.store FileLog.host r run.party.world).2.2.log.files

/-- The run after one step. -/
def step (run : FileRun) : FileStep → FileRun
  | .act a => { run with party := run.party.act FileLog.clients a }
  | .store i r =>
    match run.party.histories[i]? with
    | none => run
    | some h =>
      { run with
        party := { run.party with world := (h.store FileLog.host r run.party.world).2.2 }
        journal := run.journal ++ [.stored r (h.store FileLog.host r run.party.world).1] }
  | .recover i limit =>
    match run.party.histories[i]? with
    | none => run
    | some h =>
      match h.recover FileLog.host limit run.party.world with
      | none => run
      | some (_, _, w) => { run with party := { run.party with world := w } }
  | .die => run.restarted run.log.files
  | .crash i r cut =>
    match run.party.histories[i]? with
    | none => run
    | some h =>
      { run.restarted (run.crashed h r cut) with
        journal := run.journal ++ [.crashed r (h.store FileLog.host r run.party.world).1 cut] }

/-- The run after some steps. -/
def exec (run : FileRun) (steps : List FileStep) : FileRun := steps.foldl step run

theorem exec_cons (run : FileRun) (s : FileStep) (steps : List FileStep) :
    run.exec (s :: steps) = (run.step s).exec steps := rfl

end FileRun

/-- The step keeps to the topic, and in what it stores no object has a key twice. -/
def FileStep.On (topic : String) : FileStep → Prop
  | .act (.make settings _) => settings.topic = topic
  | .store _ r => r.WellKeyed
  | .crash _ r _ => r.WellKeyed
  | _ => True

namespace FileRun

/-! ## Good runs -/

/-- A run whose histories are on one topic, of which the partition holds the bytes of the ledger. -/
structure Good (root : Path) (topic : String) (before : FileTree) (rp : Path) (run : FileRun) :
    Prop where
  /-- The log is at its place. -/
  atRoot : run.log.root = root
  /-- The files are settled, or as they were before any history was started. -/
  files : (run.log.files = before ∧ run.ledger.bytes = [] ∧
      ∀ i, holder run.party.histories i = none) ∨
    Settled root rp topic run.log.files run.ledger.bytes
  /-- Every producer that is held is ready, and nobody else holds it. -/
  held : Held run.party.histories fun p => ∃ pr, run.log.producers.get? p = some pr ∧
    pr.Ready run.log.files (rp ++ [topic]) topic run.ledger.bytes
  /-- The histories are on the topic. -/
  onTopic : ∀ h ∈ run.party.histories, h.settings.topic = topic
  /-- No object in a record has a key twice. -/
  keyed : ∀ w ∈ run.journal, w.record.WellKeyed

section Steps

variable {root rp : Path} {topic : String} {before made : FileTree} {run : FileRun}

theorem good_start (root : Path) (topic : String) (before : FileTree) (rp : Path)
    (signals : Registry Bool) : (start root before signals).Good root topic before rp :=
  ⟨rfl, .inl ⟨rfl, rfl, fun _ => rfl⟩, held_nil _, by simp [start, Party.ofLog],
    fun w hw => by cases hw⟩

theorem Good.seen (h : run.Good root topic before rp) (hsite : Site root topic before made rp) :
    Seen run.log.files root topic run.ledger.bytes := by
  rcases h.files with ⟨hfiles, hbytes, -⟩ | hsettled
  · rw [hfiles, hbytes]
    exact hsite.seen
  · exact hsettled.seen hsite.legal

/-- A new process finds settled files. -/
theorem Good.restart (h : run.Good root topic before rp) {files : FileTree}
    {journal : List FileWrite} (hkeyed : ∀ w ∈ journal, w.record.WellKeyed)
    (hfiles : (files = before ∧ (Ledger.ofJournal journal).bytes = []) ∨
      Settled root rp topic files (Ledger.ofJournal journal).bytes) :
    ({ run.restarted files with journal } : FileRun).Good root topic before rp := by
  refine ⟨h.atRoot, ?_, held_nil _, (fun g hg => by cases hg), hkeyed⟩
  rcases hfiles with ⟨hfiles, hbytes⟩ | hsettled
  · exact .inl ⟨hfiles, hbytes, fun _ => rfl⟩
  · exact .inr hsettled

/-! ### Acts -/

theorem Good.make (h : run.Good root topic before rp) {settings : HistorySettings}
    (shutdown : SignalId) (ht : settings.topic = topic) :
    (run.step (.act (.make settings shutdown))).Good root topic before rp := by
  refine ⟨h.atRoot, ?_, h.held.make settings shutdown, onTopic_make h.onTopic shutdown ht, h.keyed⟩
  rcases h.files with ⟨hfiles, hbytes, hnone⟩ | hsettled
  · exact .inl ⟨hfiles, hbytes, holder_none_make hnone settings shutdown⟩
  · exact .inr hsettled

/-- A session can be started, and it settles the files. -/
theorem Good.makeRoot (h : run.Good root topic before rp) (hsite : Site root topic before made rp) :
    ∃ files, run.log.files.makeDirectories run.log.root = (.ok (), files) ∧
      Settled root rp topic files run.ledger.bytes ∧
      Held run.party.histories fun p => ∃ pr, run.log.producers.get? p = some pr ∧
        pr.Ready files (rp ++ [topic]) topic run.ledger.bytes := by
  rw [h.atRoot]
  rcases h.files with ⟨hfiles, hbytes, hnone⟩ | hsettled
  · exact ⟨made, hfiles ▸ hsite.make, hbytes ▸ hsite.settled, held_of_none hnone _⟩
  · exact ⟨_, hsettled.makeRoot, hsettled, h.held⟩

theorem Good.start (h : run.Good root topic before rp) (hsite : Site root topic before made rp)
    (i : Nat) : (run.step (.act (.start i))).Good root topic before rp := by
  rcases run.party.act_start_cases FileLog.clients i with ⟨hact, -⟩ | ⟨old, hi, hp⟩
  · rw [step, hact]
    exact h
  · obtain ⟨hlt, -⟩ := List.getElem?_eq_some_iff.mp hi
    obtain ⟨files, hmake, hsettled, hheld⟩ := h.makeRoot hsite
    rw [step, Party.act_start hi hp (createProducer_eq old.settings.producer hmake)]
    refine ⟨h.atRoot, .inr hsettled, ?_, onTopic_set h.onTopic hi rfl, h.keyed⟩
    refine hheld.take hlt rfl ?_ ⟨.fresh, Registry.get?_add_self _, ready_fresh _ _ _ _⟩ ?_
    · -- the producer is new, so nobody holds it
      rintro ⟨pr, hpr, -⟩
      cases Registry.get?_size.symm.trans hpr
    · rintro q ⟨pr, hq, hready⟩
      exact ⟨pr, Registry.get?_add_of_some hq _, hready⟩

theorem Good.stop (h : run.Good root topic before rp) (i : Nat) :
    (run.step (.act (.stop i))).Good root topic before rp := by
  rcases run.party.act_stop_cases FileLog.clients i with ⟨hact, -⟩ | ⟨old, p, hi, hp⟩
  · rw [step, hact]
    exact h
  · obtain ⟨hlt, -⟩ := List.getElem?_eq_some_iff.mp hi
    have hholder : holder run.party.histories i = some p := (holder_eq hi).trans hp
    obtain ⟨pr, hpr, hready⟩ := h.held.holds hholder
    obtain ⟨s', hstop, hroot, hfiles, hothers, -⟩ := stop_ready hp hpr hready
    have hact : run.party.act FileLog.clients (.stop i) = ⟨{ run.party.world with log := s' },
        run.party.histories.set i { old with producer := none }⟩ := by
      rw [Party.act_stop hi hp]
      exact congrArg (fun x => Party.mk x.2.2 _) hstop
    rw [step, hact]
    refine ⟨hroot.trans h.atRoot, ?_, ?_, onTopic_set h.onTopic hi rfl, h.keyed⟩
    · rcases h.files with ⟨-, -, hnone⟩ | hsettled
      · -- before the files are settled there is nobody to be stopped
        rw [hnone i] at hholder
        cases hholder
      · refine .inr ?_
        show Settled root rp topic s'.files _
        rw [hfiles]
        exact hsettled
    · refine h.held.release hlt hholder rfl ?_
      rintro q hq ⟨pr', hq', hready'⟩
      refine ⟨pr', (hothers q hq).trans hq', ?_⟩
      show pr'.Ready s'.files _ _ _
      rw [hfiles]
      exact hready'

theorem Good.raise (h : run.Good root topic before rp) (signal : SignalId) :
    (run.step (.act (.raise signal))).Good root topic before rp :=
  ⟨h.atRoot, h.files, h.held, h.onTopic, h.keyed⟩

/-! ### Recovering -/

theorem Good.recover (h : run.Good root topic before rp) (i limit : Nat) :
    (run.step (.recover i limit)).Good root topic before rp := by
  have hstep : run.step (.recover i limit) = run ∨ ∃ w, SameFiles run.log w.log ∧
      run.step (.recover i limit) = { run with party := { run.party with world := w } } := by
    rw [step]
    split
    · exact .inl rfl
    split
    · exact .inl rfl
    · rename_i result events w hrec
      exact .inr ⟨w, sameFiles_recover hrec, rfl⟩
  rcases hstep with hstep | ⟨w, ⟨hroot, hfiles, hproducers⟩, hstep⟩
  · rw [hstep]
    exact h
  · rw [hstep]
    refine ⟨hroot.trans h.atRoot, ?_, ?_, h.onTopic, h.keyed⟩
    · show (w.log.files = before ∧ _) ∨ Settled root rp topic w.log.files _
      rw [hfiles]
      exact h.files
    · show Held run.party.histories fun p => ∃ pr, w.log.producers.get? p = some pr ∧
        pr.Ready w.log.files (rp ++ [topic]) topic _
      rw [hfiles, hproducers]
      exact h.held

/-! ### Storing -/

theorem sound_ledger (run : FileRun) : run.ledger.Sound := Ledger.sound_ofJournal run.journal

/-- How a store ends. It fails, and then the files and the producers are as they were; or it is
acknowledged, and then its record is behind what the partition held. -/
theorem Good.stores (h : run.Good root topic before rp) (hlegal : isTopicName topic = true)
    {i : Nat} {old : History} (hi : run.party.histories[i]? = some old) (r : Record) :
    (∃ e, (old.store FileLog.host r run.party.world).1 = .error e ∧
      (old.store FileLog.host r run.party.world).2.2.log.root = root ∧
      (old.store FileLog.host r run.party.world).2.2.log.files = run.log.files ∧
      ∀ q pr, run.log.producers.get? q = some pr →
        (old.store FileLog.host r run.party.world).2.2.log.producers.get? q = some pr) ∨
    ∃ place p, topic.utf8ByteSize ≤ maxName ∧
      Settled root rp topic run.log.files run.ledger.bytes ∧
      (old.store FileLog.host r run.party.world).1 = .ok (.acknowledged place) ∧
      StoredBy root rp topic (run.ledger.store r).bytes p run.log
        (old.store FileLog.host r run.party.world).2.2.log := by
  cases hp : old.producer with
  | none =>
      rw [History.store_unstarted hp]
      exact .inl ⟨_, rfl, h.atRoot, rfl, fun _ _ hq => hq⟩
  | some p =>
      have hholder : holder run.party.histories i = some p := (holder_eq hi).trans hp
      have htopic := h.onTopic old (List.mem_of_getElem? hi)
      obtain ⟨pr, hpr, hready⟩ := h.held.holds hholder
      have hsettled : Settled root rp topic run.log.files run.ledger.bytes := by
        -- a history that was started has settled the files
        rcases h.files with ⟨-, -, hnone⟩ | hsettled
        · rw [hnone i] at hholder
          cases hholder
        · exact hsettled
      by_cases hshort : topic.utf8ByteSize ≤ maxName
      · obtain ⟨place, hresult, hstored, -⟩ :=
          store_ready (r := r) hp htopic h.atRoot hpr hready hsettled hlegal hshort
        rw [Ledger.bytes_store run.sound_ledger]
        exact .inr ⟨place, p, hshort, hsettled, hresult, hstored⟩
      · obtain ⟨⟨e, hresult⟩, hworld⟩ :=
          store_long (r := r) hp htopic h.atRoot hpr hready hsettled hlegal hshort
        refine .inl ⟨e, hresult, ?_⟩
        rw [hworld]
        refine ⟨h.atRoot, rfl, fun q pr' hq => ?_⟩
        by_cases hqp : p = q
        · subst hqp
          have hsame : run.log.producers.get? p = some pr' := hq
          rw [show run.log.producers.get? p = some pr from hpr] at hsame
          cases hsame
          exact Registry.get?_set_self hpr _
        · exact (Registry.get?_set_other hqp _).trans hq

/-- A journal with one more write. -/
theorem Good.keyed_concat (h : run.Good root topic before rp) {w : FileWrite}
    (hw : w.record.WellKeyed) : ∀ v ∈ run.journal ++ [w], v.record.WellKeyed := by
  intro v hv
  rcases List.mem_append.mp hv with hv | hv
  · exact h.keyed v hv
  · rw [List.mem_singleton.mp hv]
    exact hw

/-- A store that failed: neither the ledger nor the files know of it. -/
theorem Good.failed (h : run.Good root topic before rp) {w : World FileLog} {v : FileWrite}
    (hv : v.record.WellKeyed) (hledger : v.enter run.ledger = run.ledger)
    (hroot : w.log.root = root) (hfiles : w.log.files = run.log.files)
    (hproducers : ∀ q pr, run.log.producers.get? q = some pr → w.log.producers.get? q = some pr) :
    ({ run with party := { run.party with world := w }, journal := run.journal ++ [v] } :
      FileRun).Good root topic before rp := by
  have hsame : Ledger.ofJournal (run.journal ++ [v]) = run.ledger :=
    (Ledger.ofJournal_concat _ _).trans hledger
  refine ⟨hroot, ?_, ?_, h.onTopic, h.keyed_concat hv⟩
  · show (w.log.files = before ∧ (Ledger.ofJournal (run.journal ++ [v])).bytes = [] ∧ _) ∨
      Settled root rp topic w.log.files (Ledger.ofJournal (run.journal ++ [v])).bytes
    rw [hsame, hfiles]
    exact h.files
  · refine h.held.weaken ?_
    rintro q ⟨pr, hq, hready⟩
    refine ⟨pr, hproducers q pr hq, ?_⟩
    show pr.Ready w.log.files _ _ (Ledger.ofJournal (run.journal ++ [v])).bytes
    rw [hsame, hfiles]
    exact hready

/-- A store that was acknowledged: the record is behind the others, and the other producers find the
last line ended. -/
theorem Good.stored (h : run.Good root topic before rp) {w : World FileLog} {v : FileWrite} {r : Record}
    {p : ProducerId} (hv : v.record.WellKeyed) (hledger : v.enter run.ledger = run.ledger.store r)
    (hshort : topic.utf8ByteSize ≤ maxName)
    (hstored : StoredBy root rp topic (run.ledger.store r).bytes p run.log w.log) :
    ({ run with party := { run.party with world := w }, journal := run.journal ++ [v] } :
      FileRun).Good root topic before rp := by
  have hafter : Ledger.ofJournal (run.journal ++ [v]) = run.ledger.store r :=
    (Ledger.ofJournal_concat _ _).trans hledger
  have hended : isTorn (run.ledger.store r).bytes = false := by
    rw [Ledger.bytes_store run.sound_ledger, ← List.append_assoc, ← List.append_assoc]
    exact isTorn_lineFeed _
  refine ⟨hstored.atRoot, .inr ⟨hstored.root, ?_, .inl hshort⟩, ?_, h.onTopic, h.keyed_concat hv⟩
  · show Holds w.log.files _ (Ledger.ofJournal (run.journal ++ [v])).bytes
    rw [hafter]
    exact .inr hstored.file
  · show Held run.party.histories fun q => ∃ pr, w.log.producers.get? q = some pr ∧
      pr.Ready w.log.files _ _ (Ledger.ofJournal (run.journal ++ [v])).bytes
    rw [hafter]
    refine h.held.weaken ?_
    rintro q ⟨pr, hq, hready⟩
    by_cases hqp : q = p
    · rw [hqp]
      exact hstored.ready
    · exact ⟨pr, (hstored.others q hqp).trans hq, hready.keeps hstored.keeps fun _ => hended⟩

theorem Good.store (h : run.Good root topic before rp) (hlegal : isTopicName topic = true) (i : Nat)
    {r : Record} (hr : r.WellKeyed) : (run.step (.store i r)).Good root topic before rp := by
  cases hi : run.party.histories[i]? with
  | none =>
      have hstep : run.step (.store i r) = run := by
        rw [step, hi]
      rw [hstep]
      exact h
  | some old =>
      rw [step, hi]
      dsimp only
      rcases h.stores hlegal hi r with ⟨e, hresult, hroot, hfiles, hproducers⟩ |
        ⟨place, p, hshort, -, hresult, hstored⟩
      · rw [hresult]
        exact h.failed hr rfl hroot hfiles hproducers
      · rw [hresult]
        exact h.stored hr rfl hshort hstored

/-! ### Dying -/

theorem Good.files_before (h : run.Good root topic before rp) :
    (run.log.files = before ∧ run.ledger.bytes = []) ∨
      Settled root rp topic run.log.files run.ledger.bytes := by
  rcases h.files with ⟨hfiles, hbytes, -⟩ | hsettled
  · exact .inl ⟨hfiles, hbytes⟩
  · exact .inr hsettled

theorem Good.die (h : run.Good root topic before rp) :
    (run.step .die).Good root topic before rp := h.restart h.keyed h.files_before

theorem Good.crash (h : run.Good root topic before rp) (hlegal : isTopicName topic = true) (i : Nat)
    {r : Record} (hr : r.WellKeyed) (cut : Cut) :
    (run.step (.crash i r cut)).Good root topic before rp := by
  cases hi : run.party.histories[i]? with
  | none =>
      have hstep : run.step (.crash i r cut) = run := by
        rw [step, hi]
      rw [hstep]
      exact h
  | some old =>
      rw [step, hi]
      refine h.restart (h.keyed_concat hr) ?_
      rw [Ledger.ofJournal_concat]
      show (run.crashed old r cut = before ∧ (FileWrite.enter run.ledger _).bytes = []) ∨
        Settled root rp topic (run.crashed old r cut) (FileWrite.enter run.ledger _).bytes
      rcases h.stores hlegal hi r with ⟨e, hresult, -, hfiles, -⟩ |
        ⟨place, p, hshort, hsettled, hresult, hstored⟩
      · -- a call that fails writes nothing that could be cut
        rw [crashed, hresult]
        dsimp only [FileWrite.enter]
        rw [hfiles]
        exact h.files_before
      · have htopic := h.onTopic old (List.mem_of_getElem? hi)
        rw [crashed, hresult]
        dsimp only
        rw [h.atRoot, htopic]
        cases cut with
        | directory => exact .inr (hsettled.cutDirectory hlegal hshort _)
        | kept n =>
            -- the disk has the first `n` bytes of what the whole store would have added
            obtain ⟨k, hfile⟩ := hstored.file
            rw [Ledger.bytes_store run.sound_ledger] at hfile
            dsimp only [FileWrite.enter]
            rw [Ledger.bytes_crash run.sound_ledger]
            exact .inr (hsettled.cut hlegal hshort hstored.root hfile n)

/-! ### All steps -/

/-- **One step** leaves a run good: the partition holds the bytes of the ledger. -/
theorem Good.step (h : run.Good root topic before rp) (hsite : Site root topic before made rp)
    {s : FileStep} (hs : s.On topic) : (run.step s).Good root topic before rp := by
  cases s with
  | act a =>
      cases a with
      | make settings shutdown => exact h.make shutdown hs
      | start i => exact h.start hsite i
      | stop i => exact h.stop i
      | raise signal => exact h.raise signal
  | store i r => exact h.store hsite.legal i hs
  | recover i limit => exact h.recover i limit
  | die => exact h.die
  | crash i r cut => exact h.crash hsite.legal i hs cut

/-- **A run.** The partition holds the bytes of the ledger after all steps. -/
theorem Good.exec (h : run.Good root topic before rp) (hsite : Site root topic before made rp)
    {steps : List FileStep} (hsteps : ∀ s ∈ steps, s.On topic) :
    (run.exec steps).Good root topic before rp := by
  induction steps generalizing run with
  | nil => exact h
  | cons s steps ih =>
      exact ih (h.step hsite (hsteps s (by simp))) fun t ht => hsteps t (by simp [ht])

end Steps

end FileRun

end SchemaHistory
