/-!
# Pairs under distinct keys, and things numbered as they come

A list of pairs in which each key occurs once, in the order in which the keys came: setting
the value of a key that is there changes it in place, and a new key comes last.

A registry numbers the things added to it from zero. Numbers are never given twice, so a
number held elsewhere keeps naming the same thing, whatever is added later.
-/

namespace SchemaHistory

/-- Values under keys, in the order in which the keys came. -/
abbrev Assoc (κ α : Type) := List (κ × α)

namespace Assoc

variable {κ α : Type} [DecidableEq κ]

/-- The value under a key. -/
def get? : Assoc κ α → κ → Option α
  | [], _ => none
  | (k, v) :: rest, key => if k = key then some v else get? rest key

/-- Sets the value under a key. -/
def put (key : κ) (value : α) : Assoc κ α → Assoc κ α
  | [] => [(key, value)]
  | (k, v) :: rest => if k = key then (k, value) :: rest else (k, v) :: put key value rest

/-- Puts pairs in one after another. -/
def putAll (m : Assoc κ α) (pairs : List (κ × α)) : Assoc κ α :=
  pairs.foldl (fun acc p => acc.put p.1 p.2) m

/-- The pairs under distinct keys that a list of pairs describes: a repeated key has its first
place and its last value. -/
def ofPairs (pairs : List (κ × α)) : Assoc κ α := putAll [] pairs

theorem get?_put (m : Assoc κ α) (key k : κ) (value : α) :
    get? (put key value m) k = if key = k then some value else get? m k := by
  induction m with
  | nil => simp [put, get?]
  | cons p rest ih =>
    obtain ⟨k', v⟩ := p
    simp only [put]
    by_cases h : k' = key
    · subst h
      by_cases hk : k' = k <;> simp [get?, hk]
    · simp only [if_neg h, get?, ih]
      by_cases hk : k' = k
      · subst hk
        simp [Ne.symm h]
      · simp [hk]

end Assoc

/-- Things with the numbers 0, 1, 2, … in the order in which they were added. -/
structure Registry (α : Type) where
  /-- The things, each at its number. -/
  items : Array α

namespace Registry

variable {α : Type}

/-- The registry of nothing. -/
def empty : Registry α := ⟨#[]⟩

/-- How many things were added. -/
def size (r : Registry α) : Nat := r.items.size

/-- The thing with a number. -/
def get? (r : Registry α) (i : Nat) : Option α := r.items[i]?

/-- Adds a thing; its number is the size before. -/
def add (r : Registry α) (a : α) : Registry α := ⟨r.items.push a⟩

/-- Changes the thing with a number. -/
def modify (r : Registry α) (i : Nat) (f : α → α) : Registry α := ⟨r.items.modify i f⟩

/-- Replaces the thing with a number. -/
def set (r : Registry α) (i : Nat) (a : α) : Registry α := r.modify i fun _ => a

@[simp] theorem size_add (r : Registry α) (a : α) : (r.add a).size = r.size + 1 := by
  simp [add, size]

@[simp] theorem size_modify (r : Registry α) (i : Nat) (f : α → α) :
    (r.modify i f).size = r.size := by
  simp [modify, size]

theorem get?_add (r : Registry α) (a : α) (i : Nat) :
    (r.add a).get? i = if i = r.size then some a else r.get? i := by
  exact Array.getElem?_push

theorem get?_modify (r : Registry α) (i j : Nat) (f : α → α) :
    (r.modify i f).get? j = if i = j then (r.get? j).map f else r.get? j := by
  simp [modify, get?, Array.getElem?_modify]

end Registry

end SchemaHistory
