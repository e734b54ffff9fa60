import Mathlib.Data.List.TakeWhile
import SchemaHistory.CommandLine.Arguments

/-!
# How arguments are spelled

An option and its value are spelled as one argument or as two, options come in any order, and
those that may be repeated stand anywhere among the others. However a command is spelled, it is read
as what is meant. A value may be any text: the first `=` of an argument ends the name of the option,
and the first one of an attribute ends its key, so what is behind them may have further ones.
-/

namespace SchemaHistory

/-- A text that names something before an `=`: it is not empty and has none itself. -/
structure IsName (name : String) : Prop where
  nonempty : name.toList ≠ []
  plain : '=' ∉ name.toList

theorem split_equals {cs : List Char} (h : '=' ∉ cs) (rest : List Char) :
    (cs ++ '=' :: rest).takeWhile (· != '=') = cs ∧
      (cs ++ '=' :: rest).dropWhile (· != '=') = '=' :: rest := by
  have hbefore : ∀ c ∈ cs, (c != '=') = true := fun c hc => by
    rw [bne_iff_ne]
    rintro rfl
    exact h hc
  rw [List.takeWhile_append_of_pos hbefore, List.dropWhile_append_of_pos hbefore]
  simp

/-! ## Attributes -/

/-- How an attribute is spelled. -/
def Attribute.spelling (a : String × String) : String := a.1 ++ "=" ++ a.2

theorem Attribute.read_spelling {a : String × String} (h : IsName a.1) :
    Attribute.read (spelling a) = .ok a := by
  obtain ⟨key, value⟩ := a
  have htext : (spelling (key, value)).toList = key.toList ++ '=' :: value.toList := by
    simp [spelling]
  obtain ⟨htake, hdrop⟩ := split_equals h.plain value.toList
  rw [read, htext, htake, hdrop]
  cases hkey : key.toList with
  | nil => exact absurd hkey h.nonempty
  | cons c cs =>
      dsimp only
      rw [← hkey, String.ofList_toList, String.ofList_toList]

namespace Arguments

theorem readAttribute_spelling {a : String × String} (h : IsName a.1) (option : String) :
    readAttribute option (Attribute.spelling a) = .ok a := by
  rw [readAttribute, Attribute.read_spelling h]

/-! ## Options -/

/-- The arguments spell the options with their values. -/
inductive Spelled : Given → List String → Prop
  | none : Spelled [] []
  /-- The value is attached to its option. -/
  | attached {given : Given} {arguments : List String} (name value : String)
      (rest : Spelled given arguments) :
      Spelled ((name, value) :: given) (("--" ++ name ++ "=" ++ value) :: arguments)
  /-- The value is an argument of its own. -/
  | apart {given : Given} {arguments : List String} (name value : String)
      (hvalue : looksLikeOption value = false) (rest : Spelled given arguments) :
      Spelled ((name, value) :: given) (("--" ++ name) :: value :: arguments)

/-- An argument that is an option, by what stands behind its dashes. -/
theorem option?_eq {argument : String} {cs : List Char} (h : argument.toList = '-' :: '-' :: cs)
    (hcs : cs ≠ []) : option? argument = match cs.dropWhile (· != '=') with
      | [] => some (.ofList (cs.takeWhile (· != '=')), none)
      | _ :: value => some (.ofList (cs.takeWhile (· != '=')), some (.ofList value)) := by
  cases cs with
  | nil => exact absurd rfl hcs
  | cons c cs =>
      rw [option?, h]
      rfl

theorem option?_attached {name : String} (h : IsName name) (value : String) :
    option? ("--" ++ name ++ "=" ++ value) = some (name, some value) := by
  have htext : ("--" ++ name ++ "=" ++ value).toList =
      '-' :: '-' :: (name.toList ++ '=' :: value.toList) := by
    simp
  obtain ⟨htake, hdrop⟩ := split_equals h.plain value.toList
  rw [option?_eq htext (by simp), htake, hdrop]
  dsimp only
  rw [String.ofList_toList, String.ofList_toList]

theorem option?_apart {name : String} (h : IsName name) :
    option? ("--" ++ name) = some (name, none) := by
  have hall : ∀ c ∈ name.toList, (c != '=') = true := fun c hc => by
    rw [bne_iff_ne]
    rintro rfl
    exact h.plain hc
  have htext : ("--" ++ name).toList = '-' :: '-' :: name.toList := by
    simp
  rw [option?_eq htext h.nonempty, List.dropWhile_eq_nil_iff.mpr hall,
    List.takeWhile_eq_self_iff.mpr hall, String.ofList_toList]

/-- **Options are read as they are spelled**, up to what is no option. -/
theorem readOptions_spelled {known : List String} {given : Given} {arguments rest : List String}
    (h : Spelled given arguments) (hknown : ∀ g ∈ given, g.1 ∈ known)
    (hnames : ∀ name ∈ known, IsName name) (hrest : readOptions known rest = .ok ([], rest)) :
    readOptions known (arguments ++ rest) = .ok (given, rest) := by
  -- a value that is attached is never looked at; one that stands apart must not look like an option
  induction h with
  | none => exact hrest
  | attached name value _ ih =>
      obtain ⟨hname, hknown⟩ := List.forall_mem_cons.mp hknown
      rw [List.cons_append, readOptions, option?_attached (hnames name hname)]
      dsimp only
      rw [if_neg (not_not.mpr hname), ih hknown]
      rfl
  | apart name value hvalue _ ih =>
      obtain ⟨hname, hknown⟩ := List.forall_mem_cons.mp hknown
      rw [List.cons_append, List.cons_append, readOptions, option?_apart (hnames name hname)]
      dsimp only
      rw [if_neg (not_not.mpr hname), hvalue, if_neg Bool.false_ne_true, ih hknown]
      rfl

/-! ## Commands -/

/-- The options say where the properties and the log are. -/
structure TellsPlaces (given : Given) (config directory : String) : Prop where
  known : ∀ g ∈ given, g.1 ∈ ["config", "dir"]
  properties : valuesOf "config" given = [config]
  root : valuesOf "dir" given = [directory]
  /-- Neither is empty. -/
  nonempty : config.isEmpty = false ∧ directory.isEmpty = false

/-- The options tell a change. -/
structure TellsChange (given : Given) (c : ChangeArguments) : Prop where
  known : ∀ g ∈ given, g.1 ∈ ["database", "ddl", "source", "position"]
  database : valuesOf "database" given = c.database.toList
  ddl : valuesOf "ddl" given = [c.ddl]
  source : valuesOf "source" given = c.source.map Attribute.spelling
  position : valuesOf "position" given = c.position.map Attribute.spelling
  /-- The keys of the attributes end at the first `=`. -/
  keys : ∀ a ∈ c.source ++ c.position, IsName a.1

/-- The arguments spell what is to be done where. -/
inductive Spells : Arguments → List String → Prop
  | record {places given : Given} {before behind : List String} {config directory : String}
      {c : ChangeArguments} (hbefore : Spelled places before)
      (hplaces : TellsPlaces places config directory) (hbehind : Spelled given behind)
      (hchange : TellsChange given c) :
      Spells ⟨config, directory, .record c⟩ (before ++ "record" :: behind)
  | recover {places : Given} {before : List String} {config directory : String}
      (hbefore : Spelled places before) (hplaces : TellsPlaces places config directory) :
      Spells ⟨config, directory, .recover⟩ (before ++ ["recover"])

/-! ### Every change can be spelled -/

/-- Each option with its value in one argument. -/
def attachedSpelling (given : Given) : List String :=
  given.map fun g => "--" ++ g.1 ++ "=" ++ g.2

theorem spelled_attached (given : Given) : Spelled given (attachedSpelling given) := by
  induction given with
  | nil => exact .none
  | cons g given ih => exact .attached g.1 g.2 ih

/-- The options that tell a change, one after another. -/
def optionsOf (c : ChangeArguments) : Given :=
  (c.database.map fun name => ("database", name)).toList ++ [("ddl", c.ddl)] ++
    c.source.map (fun a => ("source", Attribute.spelling a)) ++
    c.position.map fun a => ("position", Attribute.spelling a)

theorem valuesOf_append (option : String) (xs ys : Given) :
    valuesOf option (xs ++ ys) = valuesOf option xs ++ valuesOf option ys := by
  rw [valuesOf, List.filter_append, List.map_append]
  rfl

/-- Options of one name have all values or none. -/
theorem valuesOf_map (option name : String) (texts : List (String × String)) :
    valuesOf option (texts.map fun a => (name, Attribute.spelling a)) =
      if name = option then texts.map Attribute.spelling else [] := by
  have hsame (a : String × String) :
      ((fun g : String × String => decide (g.1 = option)) ∘
        fun a => (name, Attribute.spelling a)) a = decide (name = option) := rfl
  rw [valuesOf, List.filter_map, List.filter_congr fun a _ => hsame a]
  split
  · rename_i hname
    rw [decide_eq_true hname, List.filter_eq_self.mpr fun _ _ => rfl, List.map_map]
    rfl
  · rename_i hname
    rw [decide_eq_false hname, List.filter_eq_nil_iff.mpr fun _ _ => Bool.false_ne_true]
    rfl

/-- **Every change can be spelled**, whatever its texts are, if its keys end at the first `=`. -/
theorem tellsChange_optionsOf {c : ChangeArguments}
    (hkeys : ∀ a ∈ c.source ++ c.position, IsName a.1) : TellsChange (optionsOf c) c := by
  obtain ⟨database, ddl, source, position⟩ := c
  have hvalues (option : String) : valuesOf option (optionsOf ⟨database, ddl, source, position⟩) =
      valuesOf option ((database.map fun name => ("database", name)).toList) ++
        valuesOf option [("ddl", ddl)] ++
        (if "source" = option then source.map Attribute.spelling else []) ++
        if "position" = option then position.map Attribute.spelling else [] := by
    rw [optionsOf, valuesOf_append, valuesOf_append, valuesOf_append, valuesOf_map, valuesOf_map]
  refine ⟨fun g hg => ?_, ?_, ?_, ?_, ?_, hkeys⟩
  · rw [optionsOf, List.mem_append, List.mem_append, List.mem_append] at hg
    rcases hg with ((hg | hg) | hg) | hg
    · obtain ⟨name, -, rfl⟩ := Option.map_eq_some_iff.mp (Option.mem_toList.mp hg)
      simp
    · rw [List.mem_singleton.mp hg]
      simp
    · obtain ⟨a, -, rfl⟩ := List.mem_map.mp hg
      simp
    · obtain ⟨a, -, rfl⟩ := List.mem_map.mp hg
      simp
  all_goals
    rw [hvalues]
    cases database <;> simp [valuesOf]

theorem required_of_values {option value : String} {given : Given}
    (h : valuesOf option given = [value]) : required option given = .ok value := by
  rw [required, optional, h]

theorem optional_of_values {option : String} {value : Option String} {given : Given}
    (h : valuesOf option given = value.toList) : optional option given = .ok value := by
  rw [optional, h]
  cases value <;> rfl

theorem path_of_values {option value : String} {given : Given}
    (h : valuesOf option given = [value]) (hvalue : value.isEmpty = false) :
    path option given = .ok value := by
  rw [path, required_of_values h]
  dsimp only
  rw [hvalue]
  rfl

theorem attributes_of_values {option : String} {pairs : List (String × String)} {given : Given}
    (h : valuesOf option given = pairs.map Attribute.spelling) (hkeys : ∀ a ∈ pairs, IsName a.1) :
    attributes option given = .ok pairs := by
  rw [attributes, h]
  clear h
  induction pairs with
  | nil => rfl
  | cons a pairs ih =>
      obtain ⟨ha, hkeys⟩ := List.forall_mem_cons.mp hkeys
      rw [List.map_cons, List.mapM_cons, readAttribute_spelling ha, ih hkeys]
      rfl

/-- **A change is read as it is told**, whatever its texts are and in whatever order the options
stand. -/
theorem readChange_spelled {given : Given} {arguments : List String} {c : ChangeArguments}
    (h : Spelled given arguments) (hc : TellsChange given c) : readChange arguments = .ok c := by
  have hnames : ∀ name ∈ ["database", "ddl", "source", "position"], IsName name := by
    simp only [List.forall_mem_cons, List.not_mem_nil, false_imp_iff, implies_true, and_true]
    exact ⟨⟨by decide, by decide⟩, ⟨by decide, by decide⟩, ⟨by decide, by decide⟩,
      ⟨by decide, by decide⟩⟩
  have hread : readOptions ["database", "ddl", "source", "position"] (arguments ++ []) =
      .ok (given, []) := readOptions_spelled h hc.known hnames rfl
  rw [List.append_nil] at hread
  rw [readChange, hread]
  show (do
    let database ← optional "database" given
    let ddl ← required "ddl" given
    let source ← attributes "source" given
    let position ← attributes "position" given
    return (⟨database, ddl, source, position⟩ : ChangeArguments)) = Except.ok c
  rw [optional_of_values hc.database, required_of_values hc.ddl,
    attributes_of_values hc.source fun a ha => hc.keys a (List.mem_append_left _ ha),
    attributes_of_values hc.position fun a ha => hc.keys a (List.mem_append_right _ ha)]
  rfl

/-- What stands before the name of a command tells the places. -/
theorem read_of_places {places : Given} {before rest : List String} {config directory name : String}
    {command : Command} (hbefore : Spelled places before)
    (hplaces : TellsPlaces places config directory) (hname : option? name = none)
    (hcommand : readCommand (name :: rest) = .ok command) :
    read (before ++ name :: rest) = .ok ⟨config, directory, command⟩ := by
  have hnames : ∀ name ∈ ["config", "dir"], IsName name := by
    simp only [List.forall_mem_cons, List.not_mem_nil, false_imp_iff, implies_true, and_true]
    exact ⟨⟨by decide, by decide⟩, ⟨by decide, by decide⟩⟩
  have hstop : readOptions ["config", "dir"] (name :: rest) = .ok ([], name :: rest) := by
    rw [readOptions, hname]
  rw [read, readOptions_spelled hbefore hplaces.known hnames hstop]
  show (do
    let command ← readCommand (name :: rest)
    let config ← path "config" places
    let directory ← path "dir" places
    return (⟨config, directory, command⟩ : Arguments)) = Except.ok _
  rw [hcommand, path_of_values hplaces.properties hplaces.nonempty.1,
    path_of_values hplaces.root hplaces.nonempty.2]
  rfl

/-- **Arguments are read as what they spell.** -/
theorem read_of_spells {a : Arguments} {arguments : List String} (h : Spells a arguments) :
    read arguments = .ok a := by
  cases h with
  | record hbefore hplaces hbehind hchange =>
      refine read_of_places hbefore hplaces (by decide) ?_
      rw [readCommand, if_pos rfl, readChange_spelled hbehind hchange]
      rfl
  | recover hbefore hplaces => exact read_of_places hbefore hplaces (by decide) rfl

/-- So any change can be asked for. -/
theorem exists_spelling {config directory : String} {c : ChangeArguments}
    (hplaces : config.isEmpty = false ∧ directory.isEmpty = false)
    (hkeys : ∀ a ∈ c.source ++ c.position, IsName a.1) :
    ∃ arguments, Spells ⟨config, directory, .record c⟩ arguments := by
  have htold : TellsPlaces [("config", config), ("dir", directory)] config directory :=
    ⟨by simp, rfl, rfl, hplaces⟩
  exact ⟨_, .record (spelled_attached _) htold (spelled_attached _) (tellsChange_optionsOf hkeys)⟩

end Arguments

end SchemaHistory
