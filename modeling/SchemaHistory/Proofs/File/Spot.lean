import SchemaHistory.Proofs.File.Partition
import SchemaHistory.Proofs.File.Writer

/-!
# Where partitions stand

Below a root that is there, each partition has one spot: the file with its name in the
directory of its topic. In a tree as a system of files keeps it, where nothing stands in the
air and no two paths lead to one file, what happens at one spot is seen at no other. So a
tree is known by what its partitions hold: making directories and empty files changes
nothing, and adding bytes to a file changes one partition.
-/

namespace SchemaHistory

open Text

/-- What stands under the path of what is open. -/
def Handle.node : Handle → Node
  | .file k => .file k
  | .nullDevice => .nullDevice

namespace FileTree

/-! ## Trees as a system keeps them -/

/-- A tree as a system of files keeps it. -/
structure Standing (t : FileTree) : Prop where
  /-- What stands somewhere stands in a directory. -/
  parent : ∀ path name n, Assoc.get? t.nodes (path ++ [name]) = some n →
    path = [] ∨ Assoc.get? t.nodes path = some .directory
  /-- Every file has contents. -/
  number : ∀ path k, Assoc.get? t.nodes path = some (.file k) → k < t.contents.size
  /-- No file stands under two paths. -/
  apart : ∀ path path' k, Assoc.get? t.nodes path = some (.file k) →
    Assoc.get? t.nodes path' = some (.file k) → path = path'

/-- A tree as a system of files keeps it, without links to the device. -/
structure Sound (t : FileTree) : Prop where
  /-- What stands somewhere stands in a directory. -/
  parent : ∀ path name n, Assoc.get? t.nodes (path ++ [name]) = some n →
    path = [] ∨ Assoc.get? t.nodes path = some .directory
  /-- Every file has contents. -/
  number : ∀ path k, Assoc.get? t.nodes path = some (.file k) → k < t.contents.size
  /-- No file stands under two paths. -/
  apart : ∀ path path' k, Assoc.get? t.nodes path = some (.file k) →
    Assoc.get? t.nodes path' = some (.file k) → path = path'
  /-- There are no links to the device. -/
  plain : ∀ path, Assoc.get? t.nodes path ≠ some .nullDevice

theorem Sound.standing {t : FileTree} (h : t.Sound) : t.Standing := ⟨h.parent, h.number, h.apart⟩

/-- It is enough to look at what is listed. -/
theorem sound_of_listed {t : FileTree} (h : ∀ x ∈ t.nodes,
    (x.1.dropLast = [] ∨ Assoc.get? t.nodes x.1.dropLast = some .directory) ∧
    (x.2 = .directory ∨ x.2 ∈ (List.range t.contents.size).map Node.file ∧
      ∀ y ∈ t.nodes, y.2 = x.2 → y.1 = x.1)) : t.Sound := by
  have hfile : ∀ path k, Assoc.get? t.nodes path = some (.file k) → k < t.contents.size ∧
      ∀ y ∈ t.nodes, y.2 = .file k → y.1 = path := by
    intro path k hk
    obtain ⟨hlisted, hapart⟩ := (h _ (Assoc.mem_of_get? hk)).2.resolve_left (by simp)
    exact ⟨by simpa using hlisted, hapart⟩
  refine ⟨fun path name n hn => ?_, fun path k hk => (hfile path k hk).1,
    fun path path' k hk hk' => ((hfile path k hk).2 _ (Assoc.mem_of_get? hk') rfl).symm,
    fun path hn => ?_⟩
  · have hparent := (h _ (Assoc.mem_of_get? hn)).1
    rw [List.dropLast_concat] at hparent
    exact hparent
  · have hlisted := (h _ (Assoc.mem_of_get? hn)).2
    simp at hlisted

variable {t t' : FileTree}

/-- A directory that is found is listed, or the top. -/
theorem Standing.walk_directory (h : t.Standing) {path q : Path} {node : Node} {names : List String}
    (hpath : node = .directory → path = [] ∨ Assoc.get? t.nodes path = some .directory)
    (hq : t.walk path node names = .ok (q, .directory)) :
    q = [] ∨ Assoc.get? t.nodes q = some .directory := by
  induction names generalizing path node with
  | nil =>
      rw [walk] at hq
      cases hq
      exact hpath rfl
  | cons name names ih =>
      rw [walk] at hq
      split at hq
      · cases hq
      · rename_i hdir
        have hlisted := hpath (Decidable.not_not.mp hdir)
        split at hq
        · exact ih (fun _ => hlisted) hq
        split at hq
        · -- one goes up: what holds something is a directory
          refine ih (fun _ => ?_) hq
          rcases List.eq_nil_or_concat path with rfl | ⟨front, last, rfl⟩
          · exact .inl rfl
          · rw [List.concat_eq_append] at hlisted ⊢
            rw [List.dropLast_concat]
            rcases hlisted with hnil | hlisted
            · simp at hnil
            · exact h.parent front last _ hlisted
        split at hq
        · cases hq
        split at hq
        · cases hq
        · rename_i n hn
          exact ih (fun hnode => .inr (by rw [hn, hnode])) hq

theorem Standing.find_directory (h : t.Standing) {path q : Path}
    (hq : t.find path = .ok (q, .directory)) :
    q = [] ∨ Assoc.get? t.nodes q = some .directory :=
  h.walk_directory (fun _ => .inl rfl) hq

/-- A directory that is put in another one. -/
theorem Standing.putDirectory (h : t.Standing) {path : Path}
    (hpath : path = [] ∨ Assoc.get? t.nodes path = some .directory) (name : String) :
    (⟨Assoc.put (path ++ [name]) .directory t.nodes, t.contents⟩ : FileTree).Standing := by
  have hfile : ∀ p k, Assoc.get? (Assoc.put (path ++ [name]) .directory t.nodes) p =
      some (.file k) → Assoc.get? t.nodes p = some (.file k) := by
    intro p k hp
    rw [Assoc.get?_put] at hp
    split at hp
    · cases hp
    · exact hp
  refine ⟨fun p x n hp => ?_, fun p k hp => h.number p k (hfile p k hp),
    fun p p' k hp hp' => h.apart p p' k (hfile p k hp) (hfile p' k hp')⟩
  have hlisted : ∀ d, d = [] ∨ Assoc.get? t.nodes d = some .directory →
      d = [] ∨ Assoc.get? (Assoc.put (path ++ [name]) .directory t.nodes) d = some .directory := by
    rintro d (hd | hd)
    · exact .inl hd
    · right
      rw [Assoc.get?_put]
      split
      · rfl
      · exact hd
  rw [Assoc.get?_put] at hp
  split at hp
  · rename_i he
    obtain ⟨rfl, -⟩ := List.append_inj' he rfl
    exact hlisted _ hpath
  · exact hlisted _ (h.parent p x n hp)

theorem Sound.putDirectory (h : t.Sound) {path : Path} {name : String}
    (hpath : path = [] ∨ Assoc.get? t.nodes path = some .directory) :
    (⟨Assoc.put (path ++ [name]) .directory t.nodes, t.contents⟩ : FileTree).Sound := by
  have hstanding := h.standing.putDirectory hpath name
  refine ⟨hstanding.parent, hstanding.number, hstanding.apart, fun p hp => ?_⟩
  rw [Assoc.get?_put] at hp
  split at hp
  · cases hp
  · exact h.plain p hp

/-- An empty file that is made in a directory. -/
theorem Standing.putFile (h : t.Standing) {path : Path} {name : String}
    (hpath : Assoc.get? t.nodes path = some .directory)
    (hnone : Assoc.get? t.nodes (path ++ [name]) = none) :
    (⟨Assoc.put (path ++ [name]) (.file t.contents.size) t.nodes,
      t.contents.add []⟩ : FileTree).Standing := by
  -- the new file has a number that no other file has
  have hfile : ∀ p k, Assoc.get? (Assoc.put (path ++ [name]) (.file t.contents.size) t.nodes) p =
      some (.file k) → (p = path ++ [name] ∧ k = t.contents.size) ∨
        (Assoc.get? t.nodes p = some (.file k) ∧ k < t.contents.size) := by
    intro p k hp
    rw [Assoc.get?_put] at hp
    split at hp
    · rename_i he
      cases hp
      exact .inl ⟨he.symm, rfl⟩
    · exact .inr ⟨hp, h.number p k hp⟩
  refine ⟨fun p x n hp => ?_, fun p k hp => ?_, fun p p' k hp hp' => ?_⟩
  · have hlisted : ∀ d, Assoc.get? t.nodes d = some .directory →
        Assoc.get? (Assoc.put (path ++ [name]) (.file t.contents.size) t.nodes) d =
          some .directory := by
      intro d hd
      rw [Assoc.get?_put, if_neg]
      · exact hd
      · rintro rfl
        rw [hnone] at hd
        cases hd
    rw [Assoc.get?_put] at hp
    split at hp
    · rename_i he
      obtain ⟨rfl, -⟩ := List.append_inj' he rfl
      exact .inr (hlisted _ hpath)
    · exact (h.parent p x n hp).imp_right (hlisted p)
  · rw [Registry.size_add]
    rcases hfile p k hp with ⟨-, rfl⟩ | ⟨-, hlt⟩
    · exact Nat.lt_succ_self _
    · exact Nat.lt_succ_of_lt hlt
  · rcases hfile p k hp with ⟨rfl, rfl⟩ | ⟨hp, hlt⟩ <;>
      rcases hfile p' _ hp' with ⟨rfl, hk⟩ | ⟨hp', hlt'⟩
    · rfl
    · exact absurd hlt' (Nat.lt_irrefl _)
    · exact absurd hlt (by rw [hk]; exact Nat.lt_irrefl _)
    · exact h.apart p p' k hp hp'

theorem Standing.append (h : t.Standing) (handle : Handle) (bs : Bytes) :
    (t.append handle bs).Standing := by
  cases handle with
  | nullDevice => exact h
  | file k =>
      refine ⟨h.parent, fun p j hp => ?_, h.apart⟩
      rw [FileTree.append]
      dsimp only
      rw [Registry.size_modify]
      exact h.number p j hp

theorem Sound.append (h : t.Sound) (handle : Handle) (bs : Bytes) : (t.append handle bs).Sound := by
  have hstanding := h.standing.append handle bs
  refine ⟨hstanding.parent, hstanding.number, hstanding.apart, ?_⟩
  rw [append_nodes]
  exact h.plain

/-! ## Making directories -/

/-- A directory is made in one that is there, or nothing is made. -/
theorem makeDirectory_cases (t : FileTree) (path : Path) :
    (∃ e, t.makeDirectory path = (.error e, t)) ∨
    ∃ above q name, t.find above = .ok (q, .directory) ∧
      Assoc.get? t.nodes (q ++ [name]) = none ∧ t.makeDirectory path =
        (.ok (), { t with nodes := Assoc.put (q ++ [name]) .directory t.nodes }) := by
  unfold makeDirectory
  dsimp only
  generalize dropEnd (fun x => decide (x = "")) path = path
  cases path.getLast? with
  | none => exact .inl ⟨_, rfl⟩
  | some name =>
      dsimp only
      split
      · left
        split <;> exact ⟨_, rfl⟩
      · cases hfind : t.find path.dropLast with
        | error e =>
            rw [place, hfind]
            exact .inl ⟨_, rfl⟩
        | ok p =>
            obtain ⟨q, n⟩ := p
            by_cases hn : n = .directory
            · subst hn
              rw [place_eq hfind]
              by_cases hlong : maxName < name.utf8ByteSize
              · rw [if_pos hlong]
                exact .inl ⟨_, rfl⟩
              · rw [if_neg hlong]
                dsimp only
                cases hat : Assoc.get? t.nodes (q ++ [name]) with
                | none => exact .inr ⟨_, q, name, hfind, hat, rfl⟩
                | some _ => exact .inl ⟨_, rfl⟩
            · rw [place, hfind]
              dsimp only
              rw [if_pos hn]
              exact .inl ⟨_, rfl⟩

/-- A directory is not made where a file stands. -/
theorem makeDirectories_file {root p : Path} {name : String} {n : Node}
    (hroot : t.find root = .ok (p, .directory)) (hname : Proper name)
    (hshort : name.utf8ByteSize ≤ maxName) (hn : Assoc.get? t.nodes (p ++ [name]) = some n)
    (hfile : n ≠ .directory) :
    t.makeDirectories (root ++ [name]) = (.error .alreadyExists, t) := by
  have hmake := makeDirectory_concat hname hroot
  rw [if_neg (Nat.not_lt.mpr hshort), hn] at hmake
  have hfind := find_child hroot hname hshort
  rw [hn] at hfind
  have hdir : t.isDirectory (root ++ [name]) = false := by
    rw [isDirectory, hfind]
    cases n with
    | directory => exact absurd rfl hfile
    | file k => rfl
    | nullDevice => rfl
  rw [makeDirectories_of_made hmake (by simp), settleDirectory, hdir]
  rfl

theorem settleDirectory_tree (path : Path) (r : Except SystemError Unit × FileTree) :
    (settleDirectory path r).2 = r.2 := by
  obtain ⟨result, t⟩ := r
  cases result with
  | ok u => rfl
  | error e =>
      rw [settleDirectory]
      split <;> rfl

/-- What making one directory preserves is preserved by making all that are missing. -/
theorem makeDirectories_preserves {P : FileTree → Prop}
    (hmake : ∀ t path, P t → P (t.makeDirectory path).2) {path : Path} (h : P t) :
    P (t.makeDirectories path).2 := by
  rw [makeDirectories]
  generalize path.length = above
  induction above generalizing t path with
  | zero =>
      rw [makeDirectoriesUpTo, settleDirectory_tree]
      exact hmake t path h
  | succ above ih =>
      have hfirst := hmake t path h
      rw [makeDirectoriesUpTo]
      split
      · rename_i t₁ hmade
        rw [hmade] at hfirst
        have habove : P (t₁.makeDirectoriesUpTo (FileTree.parent path) above).2 := ih hfirst
        split
        · rename_i e t₂ hr
          rw [hr] at habove
          exact habove
        · rename_i t₂ hr
          rw [hr] at habove
          rw [settleDirectory_tree]
          exact hmake t₂ path habove
      · rw [settleDirectory_tree]
        exact hfirst

/-- So is what putting a directory into one that is there preserves. -/
theorem makeDirectories_puts {P : FileTree → Prop}
    (hput : ∀ (t : FileTree) above q name, P t → t.find above = .ok (q, .directory) →
      P { t with nodes := Assoc.put (q ++ [name]) .directory t.nodes }) (path : Path) (h : P t) :
    P (t.makeDirectories path).2 := by
  refine makeDirectories_preserves (fun t path ht => ?_) h
  rcases makeDirectory_cases t path with ⟨e, hmake⟩ | ⟨above, q, name, hfind, -, hmake⟩
  · rw [hmake]
    exact ht
  · rw [hmake]
    exact hput t above q name ht hfind

theorem Standing.makeDirectories (h : t.Standing) (path : Path) :
    (t.makeDirectories path).2.Standing :=
  makeDirectories_puts (fun _ _ _ name ht hfind => ht.putDirectory (ht.find_directory hfind) name)
    path h

theorem Sound.makeDirectories (h : t.Sound) (path : Path) : (t.makeDirectories path).2.Sound :=
  makeDirectories_puts
    (fun _ _ _ _ ht hfind => ht.putDirectory (ht.standing.find_directory hfind)) path h

end FileTree

namespace FileLog

open FileTree

/-! ## The spot of a partition -/

/-- A topic and the number of one of its partitions. -/
abbrev PartitionKey := String × Int

/-- Where a partition stands, below the place of the root. -/
def spot (rp : Path) (key : PartitionKey) : Path := rp ++ [key.1] ++ [partitionName key.2]

theorem spot_injective {rp : Path} {key key' : PartitionKey} (h : spot rp key = spot rp key') :
    key = key' := by
  obtain ⟨hfront, hname⟩ := List.append_inj' h rfl
  obtain ⟨-, htopic⟩ := List.append_inj' hfront rfl
  exact Prod.ext (List.singleton_inj.mp htopic)
    (partitionName_injective (List.singleton_inj.mp hname))

/-- No partition stands where the directory of a topic stands. -/
theorem spot_ne_topic (rp : Path) (key : PartitionKey) (topic : String) :
    spot rp key ≠ rp ++ [topic] := by
  intro h
  have := congrArg List.length h
  simp [spot] at this

/-- What the file of a partition holds; a missing one holds nothing. -/
def partitionBytes (root : Path) (t : FileTree) (key : PartitionKey) : Bytes :=
  match partitionPath root key.1 key.2 with
  | .error _ => []
  | .ok path => (t.read path).toOption.getD []

/-- The partition has a path whose names are short enough. -/
structure Fits (key : PartitionKey) : Prop where
  legal : isTopicName key.1 = true
  number : 0 ≤ key.2
  topic : key.1.utf8ByteSize ≤ maxName
  name : (partitionName key.2).utf8ByteSize ≤ maxName

theorem Fits.path {key : PartitionKey} (h : Fits key) (root : Path) :
    partitionPath root key.1 key.2 = .ok (root ++ [key.1] ++ [partitionName key.2]) := by
  rw [partitionPath, if_neg (Int.not_lt.mpr h.number), topicPath_eq h.legal]
  rfl

/-- What is found under the path of a partition. -/
theorem find_partition {t : FileTree} {root rp : Path} (hroot : t.find root = .ok (rp, .directory))
    {key : PartitionKey} (h : Fits key) : t.find (root ++ [key.1] ++ [partitionName key.2]) =
      match Assoc.get? t.nodes (rp ++ [key.1]) with
      | none => .error .noEntry
      | some .directory =>
        match Assoc.get? t.nodes (spot rp key) with
        | none => .error .noEntry
        | some n => .ok (spot rp key, n)
      | some _ => .error .notDirectory := by
  have hchild := find_child hroot (proper_of_isTopicName h.legal) h.topic
  cases hn : Assoc.get? t.nodes (rp ++ [key.1]) with
  | none =>
      rw [hn] at hchild
      exact find_append_error hchild _
  | some n =>
      rw [hn] at hchild
      cases n with
      | directory => exact find_child hchild (proper_partitionName _) h.name
      | file k => exact find_child_file hchild (by simp)
      | nullDevice => exact find_child_file hchild (by simp)

section Bytes

variable {t t' : FileTree} {root rp : Path} {key : PartitionKey}

theorem partitionBytes_fits (hstanding : t.Standing) (hroot : t.find root = .ok (rp, .directory))
    (h : Fits key) : partitionBytes root t key =
      match Assoc.get? t.nodes (spot rp key) with
      | some (.file k) => t.bytes k
      | _ => [] := by
  rw [partitionBytes, h.path]
  dsimp only
  rw [FileTree.read, find_partition hroot h]
  cases hn : Assoc.get? t.nodes (spot rp key) with
  | none =>
      cases Assoc.get? t.nodes (rp ++ [key.1]) with
      | none => rfl
      | some n => cases n <;> rfl
  | some n =>
      -- what stands at the spot stands in the directory of the topic
      have hparent : Assoc.get? t.nodes (rp ++ [key.1]) = some .directory :=
        (hstanding.parent _ _ _ hn).resolve_left (by simp)
      rw [hparent]
      cases n <;> rfl

/-- A partition without a path has no file. -/
theorem partitionBytes_unfit (hroot : t.find root = .ok (rp, .directory)) (h : ¬ Fits key) :
    partitionBytes root t key = [] := by
  rw [partitionBytes, partitionPath]
  by_cases hnumber : key.2 < 0
  · rw [if_pos hnumber]
  rw [if_neg hnumber, topicPath]
  by_cases hlegal : isTopicName key.1 = true
  swap
  · rw [if_neg hlegal]
    rfl
  rw [if_pos hlegal]
  have hname := proper_of_isTopicName hlegal
  have herror : ∃ e, t.find (root ++ [key.1] ++ [partitionName key.2]) = .error e := by
    by_cases htopic : key.1.utf8ByteSize ≤ maxName
    · have hchild := find_child hroot hname htopic
      cases hn : Assoc.get? t.nodes (rp ++ [key.1]) with
      | none =>
          rw [hn] at hchild
          exact ⟨_, find_append_error hchild _⟩
      | some n =>
          rw [hn] at hchild
          by_cases hdir : n = .directory
          · subst hdir
            have hlong : ¬ (partitionName key.2).utf8ByteSize ≤ maxName :=
              fun hshort => h ⟨hlegal, Int.not_lt.mp hnumber, htopic, hshort⟩
            exact ⟨_, find_child_long hchild (proper_partitionName _) (Nat.lt_of_not_le hlong)⟩
          · exact ⟨_, find_child_file hchild hdir⟩
    · exact ⟨_, find_append_error (find_child_long hroot hname (Nat.lt_of_not_le htopic)) _⟩
  obtain ⟨e, he⟩ := herror
  show (t.read (root ++ [key.1] ++ [partitionName key.2])).toOption.getD [] = []
  rw [FileTree.read, he]
  rfl

/-- The file `k` is at the spot of the partition. -/
structure OnSpot (t : FileTree) (rp : Path) (key : PartitionKey) (k : Nat) : Prop where
  fits : Fits key
  file : Assoc.get? t.nodes (spot rp key) = some (.file k)

/-- What is open is what stands at the spot of the partition. -/
structure AtSpot (t : FileTree) (rp : Path) (key : PartitionKey) (h : Handle) : Prop where
  fits : Fits key
  node : Assoc.get? t.nodes (spot rp key) = some h.node

/-- Without links to the device it is a file. -/
theorem AtSpot.onSpot {h : Handle} (hspot : AtSpot t rp key h) (hsound : t.Sound) :
    ∃ k, h = .file k ∧ OnSpot t rp key k := by
  cases h with
  | file k => exact ⟨k, rfl, hspot.fits, hspot.node⟩
  | nullDevice => exact absurd hspot.node (hsound.plain _)

theorem OnSpot.keeps {k : Nat} (h : OnSpot t rp key k) (hkeeps : KeepsFiles t t') :
    OnSpot t' rp key k := ⟨h.fits, hkeeps _ _ h.file⟩

theorem OnSpot.bytes {k : Nat} (h : OnSpot t rp key k) (hsound : t.Sound)
    (hroot : t.find root = .ok (rp, .directory)) : partitionBytes root t key = t.bytes k := by
  rw [partitionBytes_fits hsound.standing hroot h.fits, h.file]

theorem bytes_append {k : Nat} (hk : k < t.contents.size) (ys : Bytes) (j : Nat) :
    (t.append (.file k) ys).bytes j = if j = k then t.bytes j ++ ys else t.bytes j := by
  rw [FileTree.bytes, FileTree.append, FileTree.bytes]
  dsimp only
  rw [Registry.get?_modify]
  by_cases hj : j = k
  · subst hj
    rw [if_pos rfl, if_pos rfl]
    obtain ⟨bs, hbs⟩ : ∃ bs, t.contents.get? j = some bs :=
      ⟨_, Array.getElem?_eq_some_iff.mpr ⟨hk, rfl⟩⟩
    rw [hbs]
    rfl
  · rw [if_neg (Ne.symm hj), if_neg hj]

/-- **What is added to a file** is added to the partition that is there, and to no other. -/
theorem partitionBytes_append (hstanding : t.Standing)
    (hroot : t.find root = .ok (rp, .directory)) {k : Nat} (h : OnSpot t rp key k) (ys : Bytes)
    (other : PartitionKey) : partitionBytes root (t.append (.file k) ys) other =
      if other = key then partitionBytes root t other ++ ys else partitionBytes root t other := by
  have hroot' : (t.append (.file k) ys).find root = .ok (rp, .directory) :=
    (find_nodes (append_nodes _ _) root).trans hroot
  by_cases hfits : Fits other
  · rw [partitionBytes_fits (hstanding.append _ _) hroot' hfits,
      partitionBytes_fits hstanding hroot hfits, append_nodes]
    by_cases hother : other = key
    · subst hother
      rw [h.file, if_pos rfl]
      exact (bytes_append (hstanding.number _ _ h.file) _ _).trans (if_pos rfl)
    · rw [if_neg hother]
      split
      · -- two spots are two files
        rename_i j hn
        have hj : j ≠ k := by
          rintro rfl
          exact hother (spot_injective (hstanding.apart _ _ _ hn h.file))
        exact (bytes_append (hstanding.number _ _ h.file) _ _).trans (if_neg hj)
      · rfl
  · rw [partitionBytes_unfit hroot' hfits, partitionBytes_unfit hroot hfits, if_neg]
    rintro rfl
    exact hfits h.fits

end Bytes

/-! ## Making what is missing -/

/-- Something was put under the path, where nothing stood, or the nodes are the same. -/
def PutAt (t t' : FileTree) (new : Path) : Prop :=
  t'.nodes = t.nodes ∨
    Assoc.get? t.nodes new = none ∧ ∃ n, t'.nodes = Assoc.put new n t.nodes

theorem PutAt.get? {t t' : FileTree} {new path : Path} (h : PutAt t t' new) (hpath : path ≠ new) :
    Assoc.get? t'.nodes path = Assoc.get? t.nodes path := by
  rcases h with hsame | ⟨-, n, hput⟩
  · rw [hsame]
  · rw [hput, Assoc.get?_put, if_neg (Ne.symm hpath)]

/-- A name that is new in a directory is the one that was put there. -/
theorem PutAt.mem_namesIn {t t' : FileTree} {new directory : Path} {name : String}
    (h : PutAt t t' new) (hname : name ∈ t'.namesIn directory) :
    name ∈ t.namesIn directory ∨ directory ++ [name] = new := by
  by_cases hnew : directory ++ [name] = new
  · exact .inr hnew
  · rw [FileTree.mem_namesIn, h.get? hnew] at hname
    exact .inl (FileTree.mem_namesIn.mpr hname)

/-- It was not there before. -/
theorem PutAt.nodup_namesIn {t t' : FileTree} {new directory : Path} (h : PutAt t t' new)
    (hnodup : (t.namesIn directory).Nodup) : (t'.namesIn directory).Nodup := by
  rcases h with hsame | ⟨hnone, n, hput⟩
  · rw [namesIn, hsame]
    exact hnodup
  · rw [namesIn_put hnone hput]
    split
    · rename_i hdirectory
      cases hlast : new.getLast? with
      | none => simpa using hnodup
      | some name =>
          obtain ⟨front, rfl⟩ := List.getLast?_eq_some_iff.mp hlast
          rw [List.dropLast_concat] at hdirectory
          subst hdirectory
          rw [Option.toList_some, List.nodup_append]
          refine ⟨hnodup, by simp, fun other hother last hmem => ?_⟩
          obtain rfl := List.mem_singleton.mp hmem
          rintro rfl
          obtain ⟨m, hm⟩ := FileTree.mem_namesIn.mp hother
          rw [hnone] at hm
          cases hm
    · simpa using hnodup

/-- Directories and empty files were made in the tree, and nothing else has changed. -/
structure Made (root rp : Path) (t t' : FileTree) : Prop where
  /-- The root is there. -/
  found : t'.find root = .ok (rp, .directory)
  standing : t'.Standing
  nodes : t.Extends t'
  /-- No link to the device was made. -/
  links : ∀ path, Assoc.get? t'.nodes path = some .nullDevice →
    Assoc.get? t.nodes path = some .nullDevice
  /-- Every partition holds what it held. -/
  bytes : ∀ key, partitionBytes root t' key = partitionBytes root t key

/-- The directory of the topic was made, or it stood there before, or nothing was done. -/
structure MadeTopic (root rp : Path) (topic : String) (t t' : FileTree) : Prop where
  made : Made root rp t t'
  put : PutAt t t' (rp ++ [topic])
  directory : t' = t ∨ Assoc.get? t'.nodes (rp ++ [topic]) = some .directory

/-- The tree has changed by directories and empty files that were made in it. -/
structure Kept (root rp : Path) (t t' : FileTree) : Prop where
  /-- The root is there. -/
  found : t'.find root = .ok (rp, .directory)
  sound : t'.Sound
  /-- Files stay at their spots. -/
  files : KeepsFiles t t'
  /-- Every partition holds what it held. -/
  bytes : ∀ key, partitionBytes root t' key = partitionBytes root t key

section Making

variable {t t' t'' : FileTree} {root rp : Path}

theorem Made.refl (hroot : t.find root = .ok (rp, .directory)) (hstanding : t.Standing) :
    Made root rp t t := ⟨hroot, hstanding, fun _ _ h => h, fun _ h => h, fun _ => rfl⟩

theorem Made.trans (h : Made root rp t t') (h' : Made root rp t' t'') : Made root rp t t'' :=
  ⟨h'.found, h'.standing, fun path n hn => h'.nodes path n (h.nodes path n hn),
    fun path hn => h.links path (h'.links path hn), fun key => (h'.bytes key).trans (h.bytes key)⟩

theorem MadeTopic.refl (hroot : t.find root = .ok (rp, .directory)) (hstanding : t.Standing)
    (topic : String) : MadeTopic root rp topic t t :=
  ⟨.refl hroot hstanding, .inl rfl, .inl rfl⟩

/-- Where there were no links to the device there are none. -/
theorem Made.kept (h : Made root rp t t') (hsound : t.Sound) : Kept root rp t t' :=
  ⟨h.found, ⟨h.standing.parent, h.standing.number, h.standing.apart,
    fun path hn => hsound.plain path (h.links path hn)⟩, fun path _ hk => h.nodes path _ hk, h.bytes⟩

theorem Kept.refl (hroot : t.find root = .ok (rp, .directory)) (hsound : t.Sound) :
    Kept root rp t t := (Made.refl hroot hsound.standing).kept hsound

theorem Kept.trans (h : Kept root rp t t') (h' : Kept root rp t' t'') : Kept root rp t t'' :=
  ⟨h'.found, h'.sound, fun path k hk => h'.files path k (h.files path k hk),
    fun key => (h'.bytes key).trans (h.bytes key)⟩

/-- A directory or an empty file that is put where nothing stood. -/
theorem made_of_put (hroot : t.find root = .ok (rp, .directory)) (hstanding : t.Standing)
    (hstanding' : t'.Standing) {new : Path} {n : Node} (hnew : Assoc.get? t.nodes new = none)
    (hput : t'.nodes = Assoc.put new n t.nodes) (hbytes : ∀ k, t'.bytes k = t.bytes k)
    (hn : n = .directory ∨ ∃ k, n = .file k ∧ t.bytes k = []) : Made root rp t t' := by
  have hextends := extends_put hnew hput
  refine ⟨hextends.find hroot, hstanding', hextends, fun path hpath => ?_, fun key => ?_⟩
  · rw [hput, Assoc.get?_put] at hpath
    split at hpath
    · rcases hn with rfl | ⟨k, rfl, -⟩ <;> cases hpath
    · exact hpath
  · by_cases hfits : Fits key
    swap
    · rw [partitionBytes_unfit (hextends.find hroot) hfits, partitionBytes_unfit hroot hfits]
    rw [partitionBytes_fits hstanding' (hextends.find hroot) hfits,
      partitionBytes_fits hstanding hroot hfits, hput, Assoc.get?_put]
    by_cases hkey : new = spot rp key
    · rw [if_pos hkey, ← hkey, hnew]
      rcases hn with rfl | ⟨k, rfl, hempty⟩
      · rfl
      · exact (hbytes k).trans hempty
    · rw [if_neg hkey]
      split
      · exact hbytes _
      · rfl

/-- Making the directory of a topic fails, where something else stands or its name is too long, or it
is there then. -/
theorem makeTopic_made (hroot : t.find root = .ok (rp, .directory)) (hstanding : t.Standing)
    {topic : String} (hname : Proper topic) :
    ((∃ e, t.makeDirectories (root ++ [topic]) = (.error e, t)) ∧
      ¬ (topic.utf8ByteSize ≤ maxName ∧
        ∀ n, Assoc.get? t.nodes (rp ++ [topic]) = some n → n = .directory)) ∨
    ∃ t', t.makeDirectories (root ++ [topic]) = (.ok (), t') ∧ MadeTopic root rp topic t t' ∧
      topic.utf8ByteSize ≤ maxName ∧ Assoc.get? t'.nodes (rp ++ [topic]) = some .directory ∧
      ∀ n, Assoc.get? t.nodes (rp ++ [topic]) = some n → n = .directory := by
  by_cases hlong : maxName < topic.utf8ByteSize
  · exact .inl ⟨⟨_, makeDirectories_child_long hroot hname hlong⟩,
      fun h => absurd h.1 (Nat.not_le.mpr hlong)⟩
  have hshort := Nat.le_of_not_lt hlong
  have hchild := find_child hroot hname hshort
  cases hn : Assoc.get? t.nodes (rp ++ [topic]) with
  | none =>
      have hdir : Assoc.get? (Assoc.put (rp ++ [topic]) .directory t.nodes) (rp ++ [topic]) =
          some .directory := by
        rw [Assoc.get?_put, if_pos rfl]
      have hmade := made_of_put hroot hstanding
        (hstanding.putDirectory (hstanding.find_directory hroot) topic) hn rfl (fun _ => rfl) (.inl rfl)
      exact .inr ⟨_, makeDirectories_child hroot hname hshort hn,
        ⟨hmade, .inr ⟨hn, _, rfl⟩, .inr hdir⟩, hshort, hdir, fun n h => by cases h⟩
  | some n =>
      rw [hn] at hchild
      by_cases hdir : n = .directory
      · subst hdir
        exact .inr ⟨t, makeDirectories_again (isDirectory_of_find hchild),
          .refl hroot hstanding topic, hshort, hn, fun n h => (Option.some.inj h).symm⟩
      · exact .inl ⟨⟨_, makeDirectories_file hroot hname hshort hn hdir⟩,
          fun h => hdir (h.2 n rfl)⟩

/-- Making the directory of a topic fails, or it is there then. -/
theorem makeTopic_cases (hroot : t.find root = .ok (rp, .directory)) (hsound : t.Sound)
    {topic : String} (hname : Proper topic) :
    (∃ e, t.makeDirectories (root ++ [topic]) = (.error e, t)) ∨
    ∃ t', t.makeDirectories (root ++ [topic]) = (.ok (), t') ∧ Kept root rp t t' ∧
      topic.utf8ByteSize ≤ maxName ∧
      Assoc.get? t'.nodes (rp ++ [topic]) = some .directory ∧ PutAt t t' (rp ++ [topic]) := by
  rcases makeTopic_made hroot hsound.standing hname with ⟨hfails, -⟩ |
    ⟨t', hmake, htopic, hshort, hdir, -⟩
  · exact .inl hfails
  · exact .inr ⟨t', hmake, htopic.made.kept hsound, hshort, hdir, htopic.put⟩

/-- Opening the file of a partition in the directory of its topic fails, where a directory stands, or
what is at its spot then is open. -/
theorem openAppend_made (hroot : t.find root = .ok (rp, .directory)) (hstanding : t.Standing)
    {key : PartitionKey} (hfits : Fits key)
    (hdir : Assoc.get? t.nodes (rp ++ [key.1]) = some .directory) :
    (Assoc.get? t.nodes (spot rp key) = some .directory ∧
      t.read (root ++ [key.1] ++ [partitionName key.2]) = .error .isDirectory ∧
      ∃ e, t.openAppend (root ++ [key.1] ++ [partitionName key.2]) = (.error e, t)) ∨
    PartitionWriter.present (root ++ [key.1] ++ [partitionName key.2]) t =
      .ok (partitionBytes root t key) ∧
    ∃ h t', t.openAppend (root ++ [key.1] ++ [partitionName key.2]) = (.ok h, t') ∧
      Made root rp t t' ∧ AtSpot t' rp key h ∧ PutAt t t' (spot rp key) ∧
      (∀ n, Assoc.get? t.nodes (spot rp key) = some n → n = h.node) := by
  have hchild := find_child hroot (proper_of_isTopicName hfits.legal) hfits.topic
  rw [hdir] at hchild
  have hlast := getLast?_partitionName (root ++ [key.1]) key.2
  have hbytes := partitionBytes_fits hstanding hroot hfits
  have hfind := find_partition hroot hfits
  rw [hdir] at hfind
  dsimp only at hfind
  cases hn : Assoc.get? t.nodes (spot rp key) with
  | none =>
      rw [hn] at hfind hbytes
      have hbytes' : ∀ j, (⟨Assoc.put (spot rp key) (.file t.contents.size) t.nodes,
          t.contents.add []⟩ : FileTree).bytes j = t.bytes j := by
        intro j
        rw [FileTree.bytes, Registry.get?_add, FileTree.bytes]
        split
        · rename_i hj
          rw [hj, Registry.get?_size]
          rfl
        · rfl
      have hopen : t.openAppend (root ++ [key.1] ++ [partitionName key.2]) =
          (.ok (.file t.contents.size), ⟨Assoc.put (spot rp key) (.file t.contents.size) t.nodes,
            t.contents.add []⟩) :=
        openAppend_new hchild (proper_partitionName _) hfits.name hn
      have hempty : t.bytes t.contents.size = [] := by
        rw [FileTree.bytes, Registry.get?_size]
        rfl
      refine .inr ⟨?_, .file t.contents.size, _, hopen,
        made_of_put hroot hstanding (hstanding.putFile hdir hn) hn rfl hbytes'
          (.inr ⟨_, rfl, hempty⟩), ⟨hfits, ?_⟩, .inr ⟨hn, _, rfl⟩, fun n h => by cases h⟩
      · rw [PartitionWriter.present, FileTree.read, hfind, hbytes]
      · rw [Assoc.get?_put, if_pos rfl]
        rfl
  | some n =>
      rw [hn] at hfind hbytes
      have hmade := Made.refl hroot hstanding
      cases n with
      | directory =>
          refine .inl ⟨rfl, ?_, .isDirectory, ?_⟩
          · rw [FileTree.read, hfind]
            rfl
          · rw [openAppend, if_neg hlast, hfind]
      | nullDevice =>
          refine .inr ⟨?_, .nullDevice, t, ?_, hmade, ⟨hfits, hn⟩, .inl rfl,
            fun n h => (Option.some.inj h).symm⟩
          · rw [PartitionWriter.present, FileTree.read, hfind, hbytes]
            rfl
          · rw [openAppend, if_neg hlast, hfind]
      | file k =>
          refine .inr ⟨?_, .file k, t, openAppend_file hlast hfind, hmade, ⟨hfits, hn⟩, .inl rfl,
            fun n h => (Option.some.inj h).symm⟩
          rw [PartitionWriter.present, FileTree.read, hfind, hbytes]
          rfl

/-- Opening the file of a partition in the directory of its topic fails, or the file is at its spot
then. -/
theorem openAppend_cases (hroot : t.find root = .ok (rp, .directory)) (hsound : t.Sound)
    {key : PartitionKey} (hfits : Fits key)
    (hdir : Assoc.get? t.nodes (rp ++ [key.1]) = some .directory) :
    (t.read (root ++ [key.1] ++ [partitionName key.2]) = .error .isDirectory ∧
      ∃ e, t.openAppend (root ++ [key.1] ++ [partitionName key.2]) = (.error e, t)) ∨
    PartitionWriter.present (root ++ [key.1] ++ [partitionName key.2]) t =
      .ok (partitionBytes root t key) ∧
    ∃ k t', t.openAppend (root ++ [key.1] ++ [partitionName key.2]) = (.ok (.file k), t') ∧
      Kept root rp t t' ∧ OnSpot t' rp key k ∧ PutAt t t' (spot rp key) := by
  rcases openAppend_made hroot hsound.standing hfits hdir with ⟨-, hfails⟩ |
    ⟨hpresent, h, t', hopen, hmade, hspot, hput, -⟩
  · exact .inl hfails
  · have hkept := hmade.kept hsound
    obtain ⟨k, rfl, hfile⟩ := hspot.onSpot hkept.sound
    exact .inr ⟨hpresent, k, t', hopen, hkept, hfile, hput⟩

/-- A partition that has a path is one of a topic that can be named so. -/
theorem partitionPath_eq_ok {topic : String} {p : Int} {path : Path} :
    partitionPath root topic p = .ok path ↔
      isTopicName topic = true ∧ 0 ≤ p ∧ path = root ++ [topic] ++ [partitionName p] := by
  rw [partitionPath]
  by_cases hnumber : p < 0
  · rw [if_pos hnumber]
    simp [Int.not_le.mpr hnumber]
  rw [if_neg hnumber]
  by_cases hlegal : isTopicName topic = true
  · rw [topicPath_eq hlegal]
    simp only [Except.map, Except.ok.injEq, hlegal, Int.not_lt.mp hnumber, true_and]
    exact eq_comm
  · rw [topicPath, if_neg hlegal]
    simp [Except.map, hlegal]

theorem partitionPath_ok {key : PartitionKey} {path : Path}
    (h : partitionPath root key.1 key.2 = .ok path) : isTopicName key.1 = true ∧ 0 ≤ key.2 ∧
      path = root ++ [key.1] ++ [partitionName key.2] := partitionPath_eq_ok.mp h

/-- The file of the partition can be opened, or made: there is no file in place of its directory, and
no directory in its own place. -/
structure Openable (t : FileTree) (rp : Path) (key : PartitionKey) : Prop where
  fits : Fits key
  topic : ∀ n, Assoc.get? t.nodes (rp ++ [key.1]) = some n → n = .directory
  file : Assoc.get? t.nodes (spot rp key) ≠ some .directory

/-- The directory of a topic keeps no partition from being opened, nor lets one be. -/
theorem MadeTopic.openable_iff {topic : String} (h : MadeTopic root rp topic t t')
    (other : PartitionKey) : Openable t' rp other ↔ Openable t rp other := by
  have hspot := h.put.get? (spot_ne_topic rp other topic)
  refine ⟨fun ho => ⟨ho.fits, fun n hn => ho.topic n (h.made.nodes _ _ hn), hspot ▸ ho.file⟩,
    fun ho => ⟨ho.fits, fun n hn => ?_, hspot.symm ▸ ho.file⟩⟩
  by_cases htopic : other.1 = topic
  · rcases h.directory with rfl | hdir
    · exact ho.topic n hn
    · rw [htopic, hdir] at hn
      exact (Option.some.inj hn).symm
  · rw [h.put.get? (by simpa using htopic)] at hn
    exact ho.topic n hn

/-- What opening a partition has made: the directory of the topic first, and then its file. -/
def Opens (root rp : Path) (key : PartitionKey) (t t' : FileTree) : Prop :=
  ∃ t₁, MadeTopic root rp key.1 t t₁ ∧ Made root rp t₁ t' ∧ PutAt t₁ t' (spot rp key)

theorem Opens.made {key : PartitionKey} (h : Opens root rp key t t') : Made root rp t t' := by
  obtain ⟨t₁, htopic, hfile, -⟩ := h
  exact htopic.made.trans hfile

/-- At the spots of the others there is what there was. -/
theorem Opens.get?_other {key other : PartitionKey} (h : Opens root rp key t t')
    (hother : other ≠ key) :
    Assoc.get? t'.nodes (spot rp other) = Assoc.get? t.nodes (spot rp other) := by
  obtain ⟨t₁, htopic, -, hput⟩ := h
  exact (hput.get? fun he => hother (spot_injective he)).trans
    (htopic.put.get? (spot_ne_topic rp other key.1))

/-- The others can be opened as before. -/
theorem Opens.openable_iff {key other : PartitionKey} (h : Opens root rp key t t')
    (hother : other ≠ key) : Openable t' rp other ↔ Openable t rp other := by
  have hspot := h.get?_other hother
  obtain ⟨t₁, htopic, -, hput⟩ := h
  have hsame : Assoc.get? t'.nodes (rp ++ [other.1]) = Assoc.get? t₁.nodes (rp ++ [other.1]) :=
    hput.get? (spot_ne_topic rp key other.1).symm
  rw [← htopic.openable_iff other]
  have hspot₁ := htopic.put.get? (spot_ne_topic rp other key.1)
  exact ⟨fun ho => ⟨ho.fits, hsame ▸ ho.topic, hspot₁.symm ▸ hspot ▸ ho.file⟩,
    fun ho => ⟨ho.fits, hsame.symm ▸ ho.topic, hspot.symm ▸ hspot₁ ▸ ho.file⟩⟩

/-- **Opening a partition.** It fails, where the partition cannot be opened, and a directory at most
was made, or there is a writer that goes on behind the bytes that the partition holds. -/
theorem openAt_made (hroot : t.find root = .ok (rp, .directory)) (hstanding : t.Standing)
    {key : PartitionKey} {path : Path} (hpath : partitionPath root key.1 key.2 = .ok path) :
    (¬ Openable t rp key ∧ ∃ e t', PartitionWriter.openAt path t = (.error e, t') ∧
      MadeTopic root rp key.1 t t') ∨
    Openable t rp key ∧ ∃ h t', PartitionWriter.openAt path t =
        (.ok (PartitionWriter.continuing h (partitionBytes root t key) t').1,
          (PartitionWriter.continuing h (partitionBytes root t key) t').2) ∧
      Opens root rp key t t' ∧ AtSpot t' rp key h := by
  obtain ⟨hlegal, hnumber, rfl⟩ := partitionPath_ok hpath
  rw [PartitionWriter.openAt, List.dropLast_concat]
  rcases makeTopic_made hroot hstanding (proper_of_isTopicName hlegal) with ⟨⟨e, hmake⟩, hnot⟩ |
    ⟨t₁, hmake, hmadeTopic, htopic, hdir, hplace⟩
  · rw [hmake]
    exact .inl ⟨fun h => hnot ⟨h.fits.topic, h.topic⟩, e, t, rfl, .refl hroot hstanding key.1⟩
  have hmade := hmadeTopic.made
  rw [hmake]
  dsimp only
  by_cases hname : (partitionName key.2).utf8ByteSize ≤ maxName
  · have hspot : Assoc.get? t₁.nodes (spot rp key) = Assoc.get? t.nodes (spot rp key) :=
      hmadeTopic.put.get? (spot_ne_topic rp key key.1)
    rcases openAppend_made hmade.found hmade.standing ⟨hlegal, hnumber, htopic, hname⟩ hdir with
      ⟨hthere, hread, -⟩ | ⟨hpresent, h, t₂, hopen, hmade', hat, hput, hnode⟩
    · rw [PartitionWriter.present, hread]
      exact .inl ⟨fun h => h.file (hspot ▸ hthere), _, t₁, rfl, hmadeTopic⟩
    · rw [hpresent, hmade.bytes]
      dsimp only
      rw [hopen]
      refine .inr ⟨⟨⟨hlegal, hnumber, htopic, hname⟩, hplace, fun hthere => ?_⟩, h, t₂, rfl,
        ⟨t₁, hmadeTopic, hmade', hput⟩, hat⟩
      have := hnode _ (hspot.trans hthere)
      cases h <;> cases this
  · have hchild := find_child hmade.found (proper_of_isTopicName hlegal) htopic
    rw [hdir] at hchild
    rw [PartitionWriter.present, FileTree.read,
      find_child_long hchild (proper_partitionName _) (Nat.lt_of_not_le hname)]
    exact .inl ⟨fun h => hname h.fits.name, _, t₁, rfl, hmadeTopic⟩

end Making

end FileLog

end SchemaHistory
