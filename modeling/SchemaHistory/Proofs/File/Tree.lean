import SchemaHistory.Files.Tree
import SchemaHistory.Proofs.Collections

/-!
# Finding the way in a tree of files

A path is found name by name, so what is found under the whole path starts from what is
found under a part of it. A node that is put where nothing stood changes nothing for the
paths that were found before. From these two follow the effects of the operations on a
directory that is there: making it again does nothing, and making a directory or a file in
it puts one node.
-/

namespace SchemaHistory.FileTree

variable {t t' : FileTree}

/-! ## Going on -/

theorem walk_append (t : FileTree) (path : Path) (node : Node) (xs ys : List String) :
    t.walk path node (xs ++ ys) = (t.walk path node xs).bind fun p => t.walk p.1 p.2 ys := by
  induction xs generalizing path node with
  | nil => rfl
  | cons x xs ih =>
      rw [List.cons_append, walk, walk]
      split
      · rfl
      split
      · exact ih _ _
      split
      · exact ih _ _
      split
      · rfl
      split
      · rfl
      · exact ih _ _

theorem find_append {path : Path} {p : Path × Node} (h : t.find path = .ok p)
    (rest : List String) : t.find (path ++ rest) = t.walk p.1 p.2 rest := by
  rw [find, walk_append, show t.walk [] .directory path = .ok p from h]
  rfl

theorem find_append_error {path : Path} {e : SystemError} (h : t.find path = .error e)
    (rest : List String) : t.find (path ++ rest) = .error e := by
  rw [find, walk_append, show t.walk [] .directory path = .error e from h]
  rfl

/-- What is found under a path was found under its beginning first. -/
theorem find_of_append {path rest : Path} {q : Path × Node} (h : t.find (path ++ rest) = .ok q) :
    ∃ p, t.find path = .ok p ∧ t.walk p.1 p.2 rest = .ok q := by
  cases hp : t.find path with
  | error e =>
      rw [find_append_error hp] at h
      cases h
  | ok p =>
      rw [find_append hp] at h
      exact ⟨p, rfl, h⟩

/-- Finding the way goes by the nodes only. -/
theorem walk_nodes (h : t'.nodes = t.nodes) (path : Path) (node : Node) (names : List String) :
    t'.walk path node names = t.walk path node names := by
  induction names generalizing path node with
  | nil => rfl
  | cons name names ih =>
      rw [walk, walk, h]
      simp only [ih]

theorem find_nodes (h : t'.nodes = t.nodes) (path : Path) : t'.find path = t.find path :=
  walk_nodes h [] .directory path

/-- What stands somewhere in the first tree stands there in the second. -/
def Extends (t t' : FileTree) : Prop :=
  ∀ path n, Assoc.get? t.nodes path = some n → Assoc.get? t'.nodes path = some n

theorem extends_put {new : Path} {n : Node} (hnew : Assoc.get? t.nodes new = none)
    (h : t'.nodes = Assoc.put new n t.nodes) : t.Extends t' := by
  intro path m hm
  have hne : new ≠ path := by
    rintro rfl
    rw [hnew] at hm
    cases hm
  rw [h, Assoc.get?_put, if_neg hne, hm]

/-- What was found is found when more was put in. -/
theorem Extends.walk (h : t.Extends t') {path : Path} {node : Node} {names : List String}
    {q : Path × Node} (hq : t.walk path node names = .ok q) : t'.walk path node names = .ok q := by
  induction names generalizing path node with
  | nil => exact hq
  | cons name names ih =>
      rw [FileTree.walk] at hq ⊢
      split at hq
      · cases hq
      · rename_i hnode
        rw [if_neg hnode]
        split at hq
        · rename_i hstay
          rw [if_pos hstay]
          exact ih hq
        · rename_i hstay
          rw [if_neg hstay]
          split at hq
          · rename_i hup
            rw [if_pos hup]
            exact ih hq
          · rename_i hup
            rw [if_neg hup]
            split at hq
            · cases hq
            · rename_i hlong
              rw [if_neg hlong]
              split at hq
              · cases hq
              · rename_i found hfound
                rw [h _ _ hfound]
                exact ih hq

theorem Extends.find (h : t.Extends t') {path : Path} {q : Path × Node}
    (hq : t.find path = .ok q) : t'.find path = .ok q := h.walk hq

theorem find_put {new : Path} {n : Node} (hnew : Assoc.get? t.nodes new = none)
    (h : t'.nodes = Assoc.put new n t.nodes) {path : Path} {q : Path × Node}
    (hq : t.find path = .ok q) : t'.find path = .ok q := (extends_put hnew h).find hq

/-! ## A name in a directory -/

/-- A name that stands for something in a directory. -/
structure Proper (name : String) : Prop where
  nonempty : name ≠ ""
  /-- It is not the directory itself. -/
  notHere : name ≠ "."
  /-- It is not the directory above. -/
  notAbove : name ≠ ".."

theorem walk_name {name : String} (hname : Proper name) (path : Path) :
    t.walk path .directory [name] =
      if maxName < name.utf8ByteSize then .error .nameTooLong
      else match Assoc.get? t.nodes (path ++ [name]) with
        | none => .error .noEntry
        | some n => .ok (path ++ [name], n) := by
  rw [walk, if_neg (by simp), if_neg (not_or.mpr ⟨hname.nonempty, hname.notHere⟩),
    if_neg hname.notAbove]
  cases Assoc.get? t.nodes (path ++ [name]) <;> rfl

theorem concat_ne_self (path : Path) (name : String) : path ++ [name] ≠ path := by simp

section Child

variable {root p : Path} {name : String}

theorem find_child (hroot : t.find root = .ok (p, .directory)) (hname : Proper name)
    (hshort : name.utf8ByteSize ≤ maxName) : t.find (root ++ [name]) =
      match Assoc.get? t.nodes (p ++ [name]) with
      | none => .error .noEntry
      | some n => .ok (p ++ [name], n) := by
  rw [find_append hroot, walk_name hname, if_neg (by omega)]

theorem find_child_long (hroot : t.find root = .ok (p, .directory)) (hname : Proper name)
    (hlong : maxName < name.utf8ByteSize) : t.find (root ++ [name]) = .error .nameTooLong := by
  rw [find_append hroot, walk_name hname, if_pos hlong]

/-- Below what is no directory nothing is found. -/
theorem find_child_file {n : Node} (hroot : t.find root = .ok (p, n)) (hn : n ≠ .directory) :
    t.find (root ++ [name]) = .error .notDirectory := by
  rw [find_append hroot, walk, if_pos hn]

theorem place_eq (hroot : t.find root = .ok (p, .directory)) : t.place root name =
    if maxName < name.utf8ByteSize then .error .nameTooLong else .ok (p ++ [name]) := by
  rw [place, hroot]
  dsimp only
  rw [if_neg (by simp)]

/-! ## Making directories -/

theorem dropEnd_concat {drop : String → Bool} (h : drop name = false) :
    dropEnd drop (root ++ [name]) = root ++ [name] := by
  rw [dropEnd, List.reverse_append, List.reverse_singleton, List.singleton_append,
    List.dropWhile_cons, h]
  simp

theorem dropEnd_prefix (drop : String → Bool) (path : Path) :
    ∃ rest, path = dropEnd drop path ++ rest ∧ ∀ name ∈ rest, drop name = true := by
  refine ⟨(path.reverse.takeWhile drop).reverse, ?_, fun name hname => ?_⟩
  · rw [dropEnd, ← List.reverse_append, List.takeWhile_append_dropWhile, List.reverse_reverse]
  · exact List.all_eq_true.1 List.all_takeWhile name (List.mem_reverse.mp hname)

/-- Names that stay where they are lead nowhere else. -/
theorem walk_empty {path : Path} {names : List String} (h : ∀ name ∈ names, name = "") :
    t.walk path .directory names = .ok (path, .directory) := by
  induction names with
  | nil => rfl
  | cons name names ih =>
      rw [walk, if_neg (by simp), if_pos (.inl (h name (by simp)))]
      exact ih fun x hx => h x (by simp [hx])

theorem makeDirectory_concat (hname : Proper name) (hroot : t.find root = .ok (p, .directory)) :
    t.makeDirectory (root ++ [name]) =
      if maxName < name.utf8ByteSize then (.error .nameTooLong, t)
      else match Assoc.get? t.nodes (p ++ [name]) with
        | some _ => (.error .alreadyExists, t)
        | none => (.ok (), { t with nodes := Assoc.put (p ++ [name]) .directory t.nodes }) := by
  have hspecial : ¬(name = "" ∨ name = "." ∨ name = "..") :=
    not_or.mpr ⟨hname.nonempty, not_or.mpr ⟨hname.notHere, hname.notAbove⟩⟩
  unfold makeDirectory
  rw [dropEnd_concat (by simp [hname.nonempty])]
  dsimp only
  rw [List.getLast?_concat, List.dropLast_concat]
  dsimp only
  rw [if_neg hspecial, place_eq hroot]
  by_cases hlong : maxName < name.utf8ByteSize
  · rw [if_pos hlong, if_pos hlong]
  · cases hat : Assoc.get? t.nodes (p ++ [name]) <;> simp only [if_neg hlong, hat]

/-- A directory that is there is not made again. -/
theorem makeDirectory_again {path : Path} (h : t.isDirectory path = true) :
    t.makeDirectory path = (.error .alreadyExists, t) := by
  obtain ⟨q, hq⟩ : ∃ q, t.find path = .ok (q, .directory) := by
    unfold isDirectory at h
    split at h
    · rename_i q hq
      exact ⟨q, hq⟩
    · cases h
  obtain ⟨rest, hrest, -⟩ := dropEnd_prefix (· = "") path
  rw [hrest] at hq
  obtain ⟨⟨q', n⟩, hpath, hwalk⟩ := find_of_append hq
  -- the names that were dropped are empty, so what is found without them is the directory itself
  have hn : n = .directory := by
    cases rest with
    | nil =>
        rw [walk] at hwalk
        cases hwalk
        rfl
    | cons name rest =>
        rw [walk] at hwalk
        split at hwalk
        · cases hwalk
        · rename_i hdir
          exact Decidable.not_not.mp hdir
  subst hn
  unfold makeDirectory
  dsimp only
  generalize dropEnd (fun x => decide (x = "")) path = path at hpath
  rcases List.eq_nil_or_concat path with rfl | ⟨front, name, rfl⟩
  · rfl
  rw [List.concat_eq_append] at hpath ⊢
  rw [List.getLast?_concat]
  dsimp only
  -- the last name may lead back, or stand for the directory itself
  by_cases hspecial : name = "" ∨ name = "." ∨ name = ".."
  · rw [if_pos hspecial, hpath]
  · rw [if_neg hspecial, List.dropLast_concat]
    obtain ⟨hempty, hspecial⟩ := not_or.mp hspecial
    obtain ⟨hhere, habove⟩ := not_or.mp hspecial
    obtain ⟨⟨front', n⟩, hfront, hlast⟩ := find_of_append hpath
    by_cases hdir : n = .directory
    · subst hdir
      rw [walk_name ⟨hempty, hhere, habove⟩] at hlast
      split at hlast
      · cases hlast
      · rename_i hshort
        rw [place_eq hfront, if_neg hshort]
        dsimp only
        split at hlast
        · cases hlast
        · rename_i n hn
          rw [hn]
    · rw [walk, if_pos hdir] at hlast
      cases hlast

theorem makeDirectories_of_made {path : Path} {r : Except SystemError Unit × FileTree}
    (h : t.makeDirectory path = r) (hr : r.1 ≠ .error .noEntry) :
    t.makeDirectories path = settleDirectory path r := by
  rw [makeDirectories]
  cases path.length with
  | zero => rw [makeDirectoriesUpTo, h]
  | succ n =>
      rw [makeDirectoriesUpTo, h]
      split
      · exact absurd rfl hr
      · rfl

/-- **Directories that are there are left alone.** -/
theorem makeDirectories_again {path : Path} (h : t.isDirectory path = true) :
    t.makeDirectories path = (.ok (), t) := by
  rw [makeDirectories_of_made (makeDirectory_again h) (by simp), settleDirectory, if_pos h]

theorem isDirectory_of_find {path : Path} (h : t.find path = .ok (p, .directory)) :
    t.isDirectory path = true := by
  rw [isDirectory, h]

theorem isDirectory_of_error {path : Path} {e : SystemError} (h : t.find path = .error e) :
    t.isDirectory path = false := by
  rw [isDirectory, h]

/-- A directory is made in one that is there. -/
theorem makeDirectories_child (hroot : t.find root = .ok (p, .directory)) (hname : Proper name)
    (hshort : name.utf8ByteSize ≤ maxName) (hnone : Assoc.get? t.nodes (p ++ [name]) = none) :
    t.makeDirectories (root ++ [name]) =
      (.ok (), { t with nodes := Assoc.put (p ++ [name]) .directory t.nodes }) := by
  have hmake := makeDirectory_concat hname hroot
  rw [if_neg (by omega), hnone] at hmake
  rw [makeDirectories_of_made hmake (by simp), settleDirectory]

theorem makeDirectories_child_long (hroot : t.find root = .ok (p, .directory))
    (hname : Proper name) (hlong : maxName < name.utf8ByteSize) :
    t.makeDirectories (root ++ [name]) = (.error .nameTooLong, t) := by
  have hmake := makeDirectory_concat hname hroot
  rw [if_pos hlong] at hmake
  rw [makeDirectories_of_made hmake (by simp), settleDirectory,
    isDirectory_of_error (find_child_long hroot hname hlong)]
  rfl

/-- A directory that was made is there. -/
theorem isDirectory_of_made {path : Path} (h : t.makeDirectory path = (.ok (), t')) :
    t'.isDirectory path = true := by
  obtain ⟨rest, hrest, hempty⟩ := dropEnd_prefix (· = "") path
  unfold makeDirectory at h
  dsimp only at h
  generalize dropEnd (fun x => decide (x = "")) path = made at h hrest
  rcases List.eq_nil_or_concat made with rfl | ⟨front, name, rfl⟩
  · cases h
  rw [List.concat_eq_append] at h hrest
  rw [List.getLast?_concat] at h
  dsimp only at h
  by_cases hspecial : name = "" ∨ name = "." ∨ name = ".."
  · rw [if_pos hspecial] at h
    split at h <;> cases h
  rw [if_neg hspecial, List.dropLast_concat] at h
  obtain ⟨hname, hspecial⟩ := not_or.mp hspecial
  obtain ⟨hhere, habove⟩ := not_or.mp hspecial
  cases hfront : t.find front with
  | error e =>
      rw [place, hfront] at h
      cases h
  | ok q =>
      obtain ⟨q, n⟩ := q
      by_cases hdir : n = .directory
      · subst hdir
        rw [place_eq hfront] at h
        by_cases hlong : maxName < name.utf8ByteSize
        · rw [if_pos hlong] at h
          cases h
        rw [if_neg hlong] at h
        dsimp only at h
        split at h
        · cases h
        · rename_i hnone
          cases h
          -- it was put where nothing stood, so the way to it is what it was
          have hkept : ({ t with nodes := Assoc.put (q ++ [name]) .directory t.nodes } : FileTree).find
              front = .ok (q, .directory) := find_put hnone rfl hfront
          have hfound := find_child hkept ⟨hname, hhere, habove⟩ (Nat.le_of_not_lt hlong)
          dsimp only at hfound
          rw [Assoc.get?_put, if_pos rfl] at hfound
          refine isDirectory_of_find (p := q ++ [name]) ?_
          rw [hrest, find_append hfound]
          exact walk_empty fun x hx => by simpa using hempty x hx
      · rw [place, hfront] at h
        dsimp only at h
        rw [if_pos hdir] at h
        cases h

/-- **Directories that were made are there.** -/
theorem isDirectory_of_makeDirectories {path : Path}
    (h : t.makeDirectories path = (.ok (), t')) : t'.isDirectory path = true := by
  -- whatever was made above, the last thing that is done is to make the directory itself
  have hsettle : ∀ {s : FileTree}, settleDirectory path (s.makeDirectory path) = (.ok (), t') →
      t'.isDirectory path = true := by
    intro s hs
    rcases hmade : s.makeDirectory path with ⟨r, s'⟩
    rw [hmade] at hs
    cases r with
    | ok u =>
        rw [settleDirectory] at hs
        cases hs
        exact isDirectory_of_made hmade
    | error e =>
        rw [settleDirectory] at hs
        split at hs
        · rename_i hdir
          cases hs
          exact hdir
        · cases hs
  rw [makeDirectories] at h
  cases hlength : path.length with
  | zero =>
      rw [hlength, makeDirectoriesUpTo] at h
      exact hsettle h
  | succ n =>
      rw [hlength, makeDirectoriesUpTo] at h
      split at h
      · split at h
        · cases h
        · exact hsettle h
      · rename_i hother
        exact hsettle h

theorem find_of_makeDirectories {path : Path} (h : t.makeDirectories path = (.ok (), t')) :
    ∃ p, t'.find path = .ok (p, .directory) := by
  have hdir := isDirectory_of_makeDirectories h
  unfold isDirectory at hdir
  split at hdir
  · rename_i q hq
    exact ⟨q, hq⟩
  · cases hdir

/-! ## Making files -/

theorem openAppend_file {q : Path} {k : Nat} {path : Path} (hlast : path.getLast? ≠ some "")
    (h : t.find path = .ok (q, .file k)) : t.openAppend path = (.ok (.file k), t) := by
  rw [openAppend, if_neg hlast, h]

/-- A file is made in a directory that is there. -/
theorem openAppend_new (hroot : t.find root = .ok (p, .directory)) (hname : Proper name)
    (hshort : name.utf8ByteSize ≤ maxName) (hnone : Assoc.get? t.nodes (p ++ [name]) = none) :
    t.openAppend (root ++ [name]) = (.ok (.file t.contents.size),
      ⟨Assoc.put (p ++ [name]) (.file t.contents.size) t.nodes, t.contents.add []⟩) := by
  have hfind := find_child hroot hname hshort
  rw [hnone] at hfind
  rw [openAppend, if_neg (by rw [List.getLast?_concat]; simpa using hname.nonempty), hfind]
  dsimp only
  rw [makeFile, List.dropLast_concat, List.getLast?_concat, Option.getD_some, place_eq hroot,
    if_neg (by omega)]

end Child

/-! ## What is in a directory -/

/-- The names in a directory. -/
def namesIn (t : FileTree) (directory : Path) : List String :=
  t.nodes.filterMap fun n => if n.1.dropLast = directory then n.1.getLast? else none

theorem list_eq {path directory : Path} (h : t.find path = .ok (directory, .directory)) :
    t.list path = .ok (t.namesIn directory) := by
  rw [list, h]
  rfl

/-- A node that is put where nothing stood adds its name to its directory. -/
theorem namesIn_put {new : Path} {n : Node} (hnew : Assoc.get? t.nodes new = none)
    (h : t'.nodes = Assoc.put new n t.nodes) (directory : Path) : t'.namesIn directory =
      t.namesIn directory ++ (if new.dropLast = directory then new.getLast? else none).toList := by
  rw [namesIn, h, Assoc.put_of_notMem n (Assoc.get?_eq_none.mp hnew), List.filterMap_append]
  rfl

/-- What has a name in a directory stands there. -/
theorem mem_namesIn {directory : Path} {name : String} : name ∈ t.namesIn directory ↔
    ∃ n, Assoc.get? t.nodes (directory ++ [name]) = some n := by
  rw [namesIn, List.mem_filterMap, ← Option.ne_none_iff_exists', ne_eq, Assoc.get?_eq_none, not_not,
    List.mem_map]
  refine exists_congr fun node => and_congr_right fun _ => ⟨fun h => ?_, fun h => ?_⟩
  · split at h
    · rename_i hdirectory
      obtain ⟨front, hfront⟩ := List.getLast?_eq_some_iff.mp h
      rw [hfront, List.dropLast_concat] at hdirectory
      rw [hfront, hdirectory]
    · cases h
  · rw [h, List.dropLast_concat, if_pos rfl, List.getLast?_concat]

/-- Nothing stands at the path or below it. -/
def Vacant (t : FileTree) (path : Path) : Prop := ∀ n ∈ t.nodes, ¬ path <+: n.1

theorem Vacant.get? {path below : Path} (h : t.Vacant path) (hbelow : path <+: below) :
    Assoc.get? t.nodes below = none := by
  rw [Assoc.get?_eq_none]
  intro hmem
  obtain ⟨n, hn, rfl⟩ := List.mem_map.mp hmem
  exact h n hn hbelow

theorem Vacant.namesIn {path : Path} (h : t.Vacant path) : t.namesIn path = [] := by
  rw [FileTree.namesIn, List.filterMap_eq_nil_iff]
  intro n hn
  rw [if_neg]
  rintro rfl
  exact h n hn (List.dropLast_prefix n.1)

end SchemaHistory.FileTree
