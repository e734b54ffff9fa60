import SchemaHistory.Collections

/-!
# Maps with their keys in order

A finite map from texts, listed by ascending key. The order of texts is that of their code
points, which is also the order of their bytes. A map has one list, so two maps are equal
exactly when they hold the same pairs.
-/

namespace SchemaHistory

/-- A finite map whose entries stand in ascending order of their keys. -/
structure KeyMap (α : Type) where
  entries : List (String × α)
  /-- Each key is smaller than every later one. -/
  sorted : entries.Pairwise fun a b => a.1 < b.1

namespace KeyMap

variable {α : Type}

/-- Sets the value under a key in a list of entries in ascending order. -/
def insertEntry (key : String) (value : α) : List (String × α) → List (String × α)
  | [] => [(key, value)]
  | (k, v) :: rest =>
    if key < k then (key, value) :: (k, v) :: rest
    else if key = k then (key, value) :: rest
    else (k, v) :: insertEntry key value rest

theorem mem_insertEntry {key : String} {value : α} {es : List (String × α)} {e : String × α}
    (h : e ∈ insertEntry key value es) : e = (key, value) ∨ e ∈ es := by
  induction es with
  | nil => simpa [insertEntry] using h
  | cons p rest ih =>
    obtain ⟨k, v⟩ := p
    simp only [insertEntry] at h
    split at h
    · simpa using h
    split at h
    · rcases List.mem_cons.1 h with h | h
      · exact .inl h
      · exact .inr (List.mem_cons_of_mem _ h)
    · rcases List.mem_cons.1 h with h | h
      · exact .inr (by simp [h])
      · rcases ih h with h | h
        · exact .inl h
        · exact .inr (List.mem_cons_of_mem _ h)

/-- Of two different keys one is the smaller. -/
theorem lt_of_not_lt_of_ne {a b : String} (h : ¬ a < b) (hne : a ≠ b) : b < a :=
  Decidable.byContradiction fun h' =>
    hne (String.le_antisymm (String.not_lt.1 h') (String.not_lt.1 h))

theorem sorted_insertEntry {key : String} {value : α} {es : List (String × α)}
    (h : es.Pairwise fun a b => a.1 < b.1) :
    (insertEntry key value es).Pairwise fun a b => a.1 < b.1 := by
  induction es with
  | nil => simp [insertEntry]
  | cons p rest ih =>
    obtain ⟨k, v⟩ := p
    obtain ⟨hk, hrest⟩ := List.pairwise_cons.1 h
    simp only [insertEntry]
    split
    · rename_i hlt
      refine List.pairwise_cons.2 ⟨fun e he => ?_, h⟩
      rcases List.mem_cons.1 he with rfl | he
      · exact hlt
      · exact String.lt_trans hlt (hk e he)
    split
    · rename_i heq
      subst heq
      exact List.pairwise_cons.2 ⟨hk, hrest⟩
    · rename_i hlt hne
      refine List.pairwise_cons.2 ⟨fun e he => ?_, ih hrest⟩
      rcases mem_insertEntry he with rfl | he
      · exact lt_of_not_lt_of_ne hlt hne
      · exact hk e he

/-- The map without keys. -/
def empty : KeyMap α := ⟨[], .nil⟩

/-- The value under a key. -/
def get? (m : KeyMap α) (key : String) : Option α := Assoc.get? m.entries key

/-- Sets the value under a key. -/
def insert (m : KeyMap α) (key : String) (value : α) : KeyMap α :=
  ⟨insertEntry key value m.entries, sorted_insertEntry m.sorted⟩

theorem get?_insertEntry (key k : String) (value : α) (es : List (String × α)) :
    Assoc.get? (insertEntry key value es) k =
      if key = k then some value else Assoc.get? es k := by
  induction es with
  | nil => simp [insertEntry, Assoc.get?]
  | cons e rest ih =>
    obtain ⟨k', v⟩ := e
    simp only [insertEntry]
    split
    · simp [Assoc.get?]
    split
    · rename_i h
      subst h
      by_cases hk : key = k <;> simp [Assoc.get?, hk]
    · rename_i hne
      by_cases hk : k' = k
      · subst hk
        simp [Assoc.get?, hne]
      · simp [Assoc.get?, hk, ih]

theorem get?_insert (m : KeyMap α) (key k : String) (value : α) :
    (m.insert key value).get? k = if key = k then some value else m.get? k :=
  get?_insertEntry key k value m.entries

/-- Sets the value under a key that has none. -/
def insertIfNew (m : KeyMap α) (key : String) (value : α) : KeyMap α :=
  if (m.get? key).isSome then m else m.insert key value

/-- The map of some pairs, of which a later one replaces an earlier one with its key. -/
def ofPairs (pairs : List (String × α)) : KeyMap α :=
  pairs.foldl (fun m p => m.insert p.1 p.2) empty

/-- Two maps are equal when they list the same entries. -/
protected def beq [BEq α] (m n : KeyMap α) : Bool := m.entries == n.entries

instance [BEq α] : BEq (KeyMap α) := ⟨KeyMap.beq⟩

end KeyMap

end SchemaHistory
