import Mathlib
import SchemaHistory.Proofs.CommandLine.Executing
import SchemaHistory.Proofs.CommandLine.Spelling
import SchemaHistory.Proofs.Settings.PassThrough

/-!
# From one command line to another

The command line is run any number of times on one directory and with one file of properties, each
time as a process of its own that knows nothing of the others. What a run needs is in the files: the
properties are still there, whatever was recorded, and the lines of the changes are. So a run that
recovers shows what all the runs before it have recorded, as if they had been one.
-/

namespace SchemaHistory

open FileLog FileTree

/-- The change that a command records. -/
def Command.change? : Command → Option ChangeArguments
  | record c => some c
  | recover => none

/-- A run of the command line. -/
structure Invocation where
  /-- Where it is run. -/
  working : Path
  /-- What the clients are called where the properties do not say. -/
  fresh : String
  arguments : List String

namespace Invocation

/-- Runs the command line. -/
def perform (run : Invocation) (files : FileTree) : Option (Outcome × FileTree) :=
  runCommand run.working run.fresh run.arguments files

/-- What the arguments ask for. -/
def command? (run : Invocation) : Option Command :=
  (Arguments.read run.arguments).toOption.map Arguments.command

/-- The change that is to be recorded. -/
def change? (run : Invocation) : Option ChangeArguments := run.command?.bind Command.change?

/-- The arguments, if they can be understood, are about these properties and this directory. -/
def On (run : Invocation) (config root : Path) : Prop :=
  ∀ a, Arguments.read run.arguments = .ok a →
    Command.resolve run.working a.config = config ∧
      Command.resolve run.working a.directory = root

/-- Runs the command line several times, one after another. -/
def performAll : List Invocation → FileTree → Option (List Outcome × FileTree)
  | [], files => some ([], files)
  | run :: runs, files =>
    match run.perform files with
    | none => none
    | some (outcome, files) => (performAll runs files).map fun r => (outcome :: r.1, r.2)

/-- The change that a run has recorded, as the code tells that it ended with. -/
def recorded? (run : Invocation) (outcome : Outcome) : Option ChangeArguments :=
  if outcome.exitCode = 0 then run.change? else none

/-- The changes that some runs have recorded, in the order of the runs. -/
def recorded (runs : List Invocation) (outcomes : List Outcome) : List ChangeArguments :=
  (runs.zip outcomes).filterMap fun r => r.1.recorded? r.2

end Invocation

/-! ## The properties stay -/

theorem PropertyFile.read_nil : ∀ props, PropertyFile.read (.ok []) ≠ .ok props := by
  intro props h
  cases h

section Runs

variable {config root rp : Path} {before made files : FileTree} {props : Properties}
  {fresh : String} {settings : HistorySettings} {changes : List ChangeArguments}

/-- **The properties are read as before the first run**, for no run changes their file. -/
theorem Between.properties (h : Between root rp settings.topic before files changes)
    (hsite : Site root settings.topic before made rp)
    (hprops : PropertyFile.read (before.read config) = .ok props) :
    PropertyFile.read (files.read config) = .ok props := by
  cases hread : before.read config with
  | error e =>
      rw [hread] at hprops
      cases hprops
  | ok bs =>
      rw [hread] at hprops
      have hbs : bs ≠ [] := by
        rintro rfl
        exact PropertyFile.read_nil props hprops
      -- there was no partition, so the file of the properties is none
      have hown : Assoc.get? before.nodes ((rp ++ [settings.topic]) ++ [partitionFile]) = none := by
        have hspares := spares_makeDirectories ((rp ++ [settings.topic]) ++ [partitionFile]) before
          root
        rw [hsite.make] at hspares
        have hnone := hsite.vacant.get? (List.prefix_append (rp ++ [settings.topic])
          [partitionFile])
        cases hat : Assoc.get? before.nodes ((rp ++ [settings.topic]) ++ [partitionFile]) with
        | none => rfl
        | some n =>
            rw [hspares.nodes _ n hat] at hnone
            cases hnone
      rw [h.spares.read hown hread hbs]
      exact hprops

/-- **So every run has the same settings**, but for the names of its clients. -/
theorem Between.accepted (h : Between root rp settings.topic before files changes)
    (hsite : Site root settings.topic before made rp)
    (hprops : PropertyFile.read (before.read config) = .ok props)
    (hsettings : HistorySettings.ofProperties props fresh = .ok settings)
    (huntold : ∀ key, props.get? (HistorySettings.consumerPrefix ++ key) = none)
    {working : Path} {path : String} (hpath : Command.resolve working path = config)
    (fresh' : String) : ∃ settings', Command.settings working path fresh' files = .ok settings' ∧
      settings'.topic = settings.topic ∧ settings'.attempts = settings.attempts ∧
      ConsumerOptions.ofSettings settings'.consumer =
        .ok ⟨ConsumerOptions.defaultLimit, .earliest⟩ := by
  obtain ⟨settings', hsettings', htopic, hattempts⟩ :=
    HistorySettings.ofProperties_fresh hsettings fresh'
  refine ⟨settings', ?_, htopic, hattempts, HistorySettings.options_untold hsettings' huntold⟩
  rw [Command.settings, hpath, h.properties hsite hprops]
  dsimp only
  rw [hsettings']

/-! ## Run after run -/

namespace Invocation

/-- How a run ends that comes behind the recording of these changes. -/
structure Ends (run : Invocation) (topic : String) (changes : List ChangeArguments)
    (outcome : Outcome) : Prop where
  /-- A run that recovers lists them. -/
  shown : run.command? = some .recover → outcome = .done (ChangeArguments.listing changes)
  /-- A run that records succeeds if the topic can have a file. -/
  exits : ∀ c, run.change? = some c → (outcome.exitCode = 0 ↔ topic.utf8ByteSize ≤ maxName)

variable {run : Invocation} {a : Arguments}

theorem command?_eq (h : Arguments.read run.arguments = .ok a) :
    run.command? = some a.command := by
  rw [command?, h]
  rfl

theorem change?_record {c : ChangeArguments} (h : run.command? = some (.record c)) :
    run.change? = some c := by
  rw [change?, h]
  rfl

theorem change?_recover (h : run.command? = some .recover) : run.change? = none := by
  rw [change?, h]
  rfl

theorem recorded?_done (run : Invocation) (shown : String) :
    run.recorded? (.done shown) = run.change? := if_pos rfl

theorem recorded?_failed (run : Invocation) (failure : Failure) :
    run.recorded? (.failed failure) = none := if_neg Nat.one_ne_zero

theorem recorded_cons (run : Invocation) (runs : List Invocation) (outcome : Outcome)
    (outcomes : List Outcome) : recorded (run :: runs) (outcome :: outcomes) =
      (run.recorded? outcome).toList ++ recorded runs outcomes := by
  rw [recorded, List.zip_cons_cons, List.filterMap_cons]
  cases run.recorded? outcome <;> rfl

/-- A run whose arguments cannot be understood asks for nothing. -/
theorem change?_usage {e : UsageError} (h : Arguments.read run.arguments = .error e) :
    run.command? = none ∧ run.change? = none := by
  have hnone : run.command? = none := by
    rw [command?, h]
    rfl
  exact ⟨hnone, by rw [change?, hnone, Option.bind_none]⟩

end Invocation

open Invocation

section Told

variable (hsite : Site root settings.topic before made rp)
  (hprops : PropertyFile.read (before.read config) = .ok props)
  (hsettings : HistorySettings.ofProperties props fresh = .ok settings)
  (huntold : ∀ key, props.get? (HistorySettings.consumerPrefix ++ key) = none)
  (hattempts : 0 < settings.attempts)

include hsite hprops hsettings huntold hattempts

/-- **One run** ends as it should, and leaves behind what it has recorded. -/
theorem Between.perform (h : Between root rp settings.topic before files changes)
    (hexact : ∀ c ∈ changes, c.Exact) {run : Invocation} (hrun : run.On config root) :
    ∃ outcome files', run.perform files = some (outcome, files') ∧
      Between root rp settings.topic before files'
        (changes ++ (run.recorded? outcome).toList) ∧ run.Ends settings.topic changes outcome := by
  rw [Invocation.perform, runCommand]
  cases hread : Arguments.read run.arguments with
  | error e =>
      obtain ⟨hcommand, hchange⟩ := change?_usage hread
      refine ⟨.usage e, files, rfl, ?_, ?_, ?_⟩
      · rw [recorded?, hchange, ite_self, Option.toList_none, List.append_nil]
        exact h
      · rw [hcommand]
        simp
      · rw [hchange]
        simp
  | ok a =>
      obtain ⟨hconfig, hroot⟩ := hrun a hread
      obtain ⟨settings', hsettings', htopic, hattempts', hoptions⟩ :=
        h.accepted hsite hprops hsettings huntold hconfig run.fresh
      have hcommand := command?_eq hread
      dsimp only
      rw [hsettings', hroot]
      dsimp only
      cases hask : a.command with
      | recover =>
          rw [hask] at hcommand
          have hchange := change?_recover hcommand
          refine ⟨_, files, h.recover hsite htopic hexact (by decide) hoptions
            (by rwa [hattempts']), ?_, fun _ => rfl, ?_⟩
          · rw [recorded?_done, hchange, Option.toList_none, List.append_nil]
            exact h
          · rw [hchange]
            simp
      | record c =>
          rw [hask] at hcommand
          have hchange := change?_record hcommand
          have hother : run.command? ≠ some .recover := by
            rw [hcommand]
            simp
          by_cases hshort : settings.topic.utf8ByteSize ≤ maxName
          · obtain ⟨files', hexecute, hafter⟩ := h.record hsite htopic hshort c
            refine ⟨_, files', hexecute, ?_, fun hrecover => absurd hrecover hother, fun _ _ => ?_⟩
            · rw [recorded?_done, hchange]
              exact hafter
            · exact ⟨fun _ => hshort, fun _ => rfl⟩
          · obtain ⟨failure, files', hexecute, hafter⟩ := h.record_long hsite htopic hshort c
            refine ⟨_, files', hexecute, ?_, fun hrecover => absurd hrecover hother, fun _ _ => ?_⟩
            · rw [recorded?_failed, Option.toList_none, List.append_nil]
              exact hafter
            · exact ⟨fun hzero => absurd hzero Nat.one_ne_zero, fun hfits => absurd hfits hshort⟩

/-- **All runs**, each behind what the runs before it have recorded. -/
theorem Between.performAll {runs : List Invocation}
    (h : Between root rp settings.topic before files changes)
    (hexact : ∀ c ∈ changes, c.Exact) (hruns : ∀ run ∈ runs, run.On config root)
    (hchanges : ∀ run ∈ runs, ∀ c, run.change? = some c → c.Exact) :
    ∃ outcomes files', Invocation.performAll runs files = some (outcomes, files') ∧
      outcomes.length = runs.length ∧
      ∀ (n : Nat) (run : Invocation) (outcome : Outcome), runs[n]? = some run →
        outcomes[n]? = some outcome →
        run.Ends settings.topic (changes ++ recorded (runs.take n) outcomes) outcome := by
  -- the first run moves what it records from the runs to the changes behind which the others come
  induction runs generalizing files changes with
  | nil =>
      refine ⟨[], files, rfl, rfl, fun n run outcome hrun => ?_⟩
      simp at hrun
  | cons first rest ih =>
      obtain ⟨hfirst, hrest⟩ := List.forall_mem_cons.mp hruns
      obtain ⟨hchange, hchanges⟩ := List.forall_mem_cons.mp hchanges
      obtain ⟨outcome, files₁, hperform, hafter, hends⟩ :=
        h.perform hsite hprops hsettings huntold hattempts hexact hfirst
      have hexact' : ∀ c ∈ changes ++ (first.recorded? outcome).toList, c.Exact := by
        intro c hc
        rcases List.mem_append.mp hc with hc | hc
        · exact hexact c hc
        · rw [Option.mem_toList, recorded?] at hc
          split at hc
          · exact hchange c hc
          · cases hc
      obtain ⟨outcomes, files₂, hperformAll, hlength, hall⟩ := ih hafter hexact' hrest hchanges
      refine ⟨outcome :: outcomes, files₂, ?_, ?_, fun n run outcome' hrun houtcome => ?_⟩
      · rw [Invocation.performAll, hperform]
        dsimp only
        rw [hperformAll]
        rfl
      · rw [List.length_cons, List.length_cons, hlength]
      · cases n with
        | zero =>
            cases hrun
            cases houtcome
            rw [List.take_zero, recorded, List.zip_nil_left, List.filterMap_nil, List.append_nil]
            exact hends
        | succ n =>
            rw [List.take_succ_cons, recorded_cons, ← List.append_assoc]
            exact hall n run outcome' hrun houtcome

end Told

end Runs

/--
**The command line gives back what it was given.** Let a file give properties that are accepted, with
a topic that may be named so, at least one attempt, and nothing that the consumer is told; and let
nothing of the topic be in the directory, which may be missing. Then the command line may be run any
number of times with these properties on this directory. Each run has an end, whatever its arguments
are. One that recovers succeeds, and what it shows is the lines of the changes that the runs before
it have recorded, in the order of these runs. One that records has recorded its change exactly if its
exit code says so, which it does exactly if the name of the topic is short enough for a file. Each
line is one line, and the arguments may spell a change in any way: they are read as the change. It
is only asked that values which are read as doubles are spelled by digits that mean them.
-/
theorem command_lines_round_trip (config root : Path) (before made : FileTree) (rp : Path)
    (props : Properties) (fresh : String) (settings : HistorySettings)
    (hprops : PropertyFile.read (before.read config) = .ok props)
    (hsettings : HistorySettings.ofProperties props fresh = .ok settings)
    (huntold : ∀ key, props.get? (HistorySettings.consumerPrefix ++ key) = none)
    (hattempts : 1 ≤ settings.attempts) (hsite : Site root settings.topic before made rp)
    (runs : List Invocation) (hruns : ∀ run ∈ runs, run.On config root)
    (hexact : ∀ run ∈ runs, ∀ c, run.change? = some c → c.Exact) :
    (∃ outcomes files, Invocation.performAll runs before = some (outcomes, files) ∧
      outcomes.length = runs.length ∧
      ∀ (n : Nat) (run : Invocation) (outcome : Outcome), runs[n]? = some run →
        outcomes[n]? = some outcome →
        (run.command? = some .recover → outcome.exitCode = 0 ∧ outcome.output =
          String.join ((Invocation.recorded (runs.take n) outcomes).map fun c => c.line ++ "\n")) ∧
        (∀ c, run.command? = some (.record c) →
          (outcome.exitCode = 0 ↔ settings.topic.utf8ByteSize ≤ maxName))) ∧
    (∀ c : ChangeArguments, '\n' ∉ c.line.toList) ∧
    (∀ (a : Arguments) (arguments : List String), a.Spells arguments →
      Arguments.read arguments = .ok a) ∧
    ∀ (path directory : String) (c : ChangeArguments),
      path.isEmpty = false ∧ directory.isEmpty = false →
      (∀ a ∈ c.source ++ c.position, IsName a.1) →
      ∃ arguments, Arguments.Spells ⟨path, directory, .record c⟩ arguments := by
  obtain ⟨outcomes, files, hperform, hlength, hends⟩ :=
    (Between.start root rp settings.topic before).performAll hsite hprops hsettings huntold
      hattempts (by simp) hruns hexact
  refine ⟨⟨outcomes, files, hperform, hlength, fun n run outcome hrun houtcome => ?_⟩,
    ChangeArguments.oneLine_line, fun a arguments => Arguments.read_of_spells,
    fun path directory c => Arguments.exists_spelling⟩
  have hend := hends n run outcome hrun houtcome
  refine ⟨fun hrecover => ?_, fun c hrecord => hend.exits c (Invocation.change?_record hrecord)⟩
  rw [hend.shown hrecover]
  exact ⟨rfl, rfl⟩

/-- A file of properties beside an empty directory. -/
def sampleFiles : FileTree :=
  ⟨[(["conf"], .file 0), (["log"], .directory)],
    Registry.empty.add (Text.utf8 ("\x7b\"database.history.kafka.topic\":\"t\"," ++
      "\"database.history.kafka.bootstrap.servers\":\"b\"\x7d"))⟩

def sampleProperties : Properties :=
  .ofPairs [(HistorySettings.topicKey, "t"), (HistorySettings.serversKey, "b")]

/-- A run with the properties on the directory. -/
def sampleRun (command : List String) : Invocation :=
  ⟨[], "n", ["--config", "conf", "--dir=log"] ++ command⟩

/-- What the runs record that record something. -/
def sampleChanges : ChangeArguments × ChangeArguments :=
  (⟨none, "CREATE\nTABLE", [("file", "a"), ("at", "1.5"), ("file", "b=c")], [("snapshot", "true")]⟩,
   ⟨some "db", "DROP", [], []⟩)

/-- Two runs record, one of them with a key that is given twice and with a line break, and the run
between them is not told a change. -/
def sampleRuns : List Invocation :=
  [["recover"],
   ["record", "--source", "file=a", "--ddl", "CREATE\nTABLE", "--source=at=1.5", "--source",
     "file=b=c", "--position=snapshot=true"],
   ["record"],
   ["record", "--ddl=DROP", "--database", "db"],
   ["recover"]].map sampleRun

theorem read_sampleFiles :
    PropertyFile.read (sampleFiles.read ["conf"]) = .ok sampleProperties := by
  have hentries : (PropertyFile.read (sampleFiles.read ["conf"])).toOption.map KeyMap.entries =
      some sampleProperties.entries := by decide +kernel
  cases hread : PropertyFile.read (sampleFiles.read ["conf"]) with
  | error e =>
      rw [hread] at hentries
      cases hentries
  | ok props =>
      rw [hread] at hentries
      exact congrArg Except.ok (KeyMap.eq_of_entries (Option.some.inj hentries))

theorem accepted_sampleProperties : ∃ settings,
    HistorySettings.ofProperties sampleProperties "n" = .ok settings ∧ settings.topic = "t" ∧
      settings.attempts = 4 := ⟨_, rfl, rfl, rfl⟩

theorem untold_sampleProperties (key : String) :
    sampleProperties.get? (HistorySettings.consumerPrefix ++ key) = none := by
  have hother : ∀ k, ClientSettings.behindPrefix? HistorySettings.consumerPrefix k = none →
      k ≠ HistorySettings.consumerPrefix ++ key := by
    rintro k hk rfl
    rw [ClientSettings.behindPrefix?_append] at hk
    cases hk
  have hinsert : sampleProperties = (KeyMap.empty.insert HistorySettings.topicKey "t").insert
      HistorySettings.serversKey "b" := rfl
  rw [hinsert, KeyMap.get?_insert, if_neg (hother _ (by decide)), KeyMap.get?_insert,
    if_neg (hother _ (by decide))]
  rfl

theorem read_sampleRuns : sampleRuns.map (fun run => (Arguments.read run.arguments).toOption) =
    [some ⟨"conf", "log", .recover⟩, some ⟨"conf", "log", .record sampleChanges.1⟩, none,
      some ⟨"conf", "log", .record sampleChanges.2⟩, some ⟨"conf", "log", .recover⟩] := by
  decide +kernel

theorem command?_sampleRuns : sampleRuns.map Invocation.command? =
    [some .recover, some (.record sampleChanges.1), none, some (.record sampleChanges.2),
      some .recover] :=
  congrArg (List.map (Option.map Arguments.command)) read_sampleRuns

theorem change?_sampleRuns : sampleRuns.map Invocation.change? =
    [none, some sampleChanges.1, none, some sampleChanges.2, none] :=
  congrArg (List.map (Option.bind · Command.change?)) command?_sampleRuns

theorem on_sampleRuns : ∀ run ∈ sampleRuns, run.On ["conf"] ["log"] := by
  intro run hrun a ha
  have hconfig : Command.resolve [] "conf" = ["conf"] := by cbv
  have hlog : Command.resolve [] "log" = ["log"] := by cbv
  have hread : (Arguments.read run.arguments).toOption ∈
      sampleRuns.map fun run => (Arguments.read run.arguments).toOption :=
    List.mem_map_of_mem hrun
  have hplaces : a.config = "conf" ∧ a.directory = "log" := by
    rw [read_sampleRuns, ha, Except.toOption] at hread
    simp only [List.mem_cons, Option.some.injEq, reduceCtorEq, List.not_mem_nil, or_false,
      false_or] at hread
    rcases hread with rfl | rfl | rfl | rfl <;> exact ⟨rfl, rfl⟩
  obtain ⟨command, -, rfl⟩ := List.mem_map.mp hrun
  rw [hplaces.1, hplaces.2]
  exact ⟨hconfig, hlog⟩

theorem exact_sampleRuns : ∀ run ∈ sampleRuns, ∀ c, run.change? = some c → c.Exact := by
  intro run hrun c hc
  have hexact : sampleChanges.1.Exact ∧ sampleChanges.2.Exact := by decide +kernel
  have hmem : run.change? ∈ sampleRuns.map Invocation.change? := List.mem_map_of_mem hrun
  rw [change?_sampleRuns, hc] at hmem
  simp only [List.mem_cons, Option.some.injEq, reduceCtorEq, List.not_mem_nil, or_false,
    false_or] at hmem
  rcases hmem with rfl | rfl
  · exact hexact.1
  · exact hexact.2

theorem command_lines_round_trip_sampleRuns :
    ∃ outcomes files, Invocation.performAll sampleRuns sampleFiles = some (outcomes, files) ∧
      outcomes[0]?.map Outcome.output = some "" ∧
      outcomes[4]?.map Outcome.output = some
        ("\x7b\"source\":\x7b\"file\":\"b=c\",\"at\":1.5\x7d," ++
          "\"position\":\x7b\"snapshot\":true\x7d,\"ddl\":\"CREATE\\nTABLE\"\x7d\n" ++
          "\x7b\"source\":\x7b\x7d,\"position\":\x7b\x7d,\"databaseName\":\"db\"," ++
          "\"ddl\":\"DROP\"\x7d\n") := by
  obtain ⟨settings, hsettings, htopic, hattempts⟩ := accepted_sampleProperties
  have hsite : Site ["log"] settings.topic sampleFiles sampleFiles ["log"] := by
    rw [htopic]
    exact site_of_empty (by decide) rfl (by simp [sampleFiles])
  obtain ⟨⟨outcomes, files, hperform, hlength, hends⟩, -⟩ :=
    command_lines_round_trip ["conf"] ["log"] sampleFiles sampleFiles ["log"] sampleProperties "n"
      settings read_sampleFiles hsettings untold_sampleProperties (by omega) hsite sampleRuns
      on_sampleRuns exact_sampleRuns
  have hshort : settings.topic.utf8ByteSize ≤ maxName := by
    rw [htopic]
    decide
  have hcommand (n : Nat) := congrArg (fun commands => commands[n]?) command?_sampleRuns
  have hchange (n : Nat) := congrArg (fun changes => changes[n]?) change?_sampleRuns
  refine ⟨outcomes, files, hperform, ?_⟩
  match outcomes, hlength with
  | [o₀, o₁, o₂, o₃, o₄], _ =>
    have hfirst := (hends 0 _ o₀ rfl rfl).1 (Option.some.inj (hcommand 0))
    have hsecond := ((hends 1 _ o₁ rfl rfl).2 _ (Option.some.inj (hcommand 1))).mpr hshort
    have hfourth := ((hends 3 _ o₃ rfl rfl).2 _ (Option.some.inj (hcommand 3))).mpr hshort
    have hlast := (hends 4 _ o₄ rfl rfl).1 (Option.some.inj (hcommand 4))
    have hrecorded : Invocation.recorded (sampleRuns.take 4) [o₀, o₁, o₂, o₃, o₄] =
        [sampleChanges.1, sampleChanges.2] := by
      have hruns : sampleRuns.take 4 =
        [sampleRuns[0], sampleRuns[1], sampleRuns[2], sampleRuns[3]] := rfl
      rw [hruns, Invocation.recorded_cons, Invocation.recorded_cons, Invocation.recorded_cons,
        Invocation.recorded_cons, Invocation.recorded?, Invocation.recorded?, Invocation.recorded?,
        Invocation.recorded?, if_pos hsecond, if_pos hfourth,
        show sampleRuns[0].change? = none from Option.some.inj (hchange 0),
        show sampleRuns[1].change? = some sampleChanges.1 from Option.some.inj (hchange 1),
        show sampleRuns[2].change? = none from Option.some.inj (hchange 2),
        show sampleRuns[3].change? = some sampleChanges.2 from Option.some.inj (hchange 3),
        ite_self, ite_self]
      rfl
    refine ⟨congrArg some (hfirst.2.trans rfl), congrArg some (hlast.2.trans ?_)⟩
    rw [hrecorded]
    decide +kernel

end SchemaHistory
