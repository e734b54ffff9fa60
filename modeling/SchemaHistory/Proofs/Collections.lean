import Mathlib.Data.List.Induction
import SchemaHistory.Collections

/-!
# Keys and numbers

Looking a key up goes by the first pair with it, and putting a pair in keeps the keys
distinct when they were. With distinct keys the two views of such a list agree: what is
under a key is exactly what is listed with it. In a registry a number that was not given
yet names nothing, and what happens under one number is not seen under another.
-/

namespace SchemaHistory.Assoc

variable {κ α : Type} [DecidableEq κ]

theorem get?_eq_none {m : Assoc κ α} {k : κ} : get? m k = none ↔ k ∉ m.map Prod.fst := by
  induction m with
  | nil => simp [get?]
  | cons p rest ih =>
      obtain ⟨k', v'⟩ := p
      rw [get?, List.map_cons, List.mem_cons, not_or]
      by_cases hk : k' = k
      · rw [if_pos hk]
        simp [hk]
      · rw [if_neg hk, ih]
        exact ⟨fun h => ⟨fun he => hk he.symm, h⟩, fun h => h.2⟩

theorem get?_of_mem {m : Assoc κ α} {k : κ} {v : α} (hm : (m.map Prod.fst).Nodup)
    (h : (k, v) ∈ m) : get? m k = some v := by
  induction m with
  | nil => cases h
  | cons p rest ih =>
      obtain ⟨k', v'⟩ := p
      rw [List.map_cons, List.nodup_cons] at hm
      rw [get?]
      rcases List.mem_cons.mp h with h | h
      · cases h
        exact if_pos rfl
      · have hne : k' ≠ k := by
          rintro rfl
          exact hm.1 (List.mem_map.mpr ⟨_, h, rfl⟩)
        rw [if_neg hne]
        exact ih hm.2 h

theorem mem_of_get? {m : Assoc κ α} {k : κ} {v : α} (h : get? m k = some v) : (k, v) ∈ m := by
  induction m with
  | nil => cases h
  | cons p rest ih =>
      obtain ⟨k', v'⟩ := p
      rw [get?] at h
      split at h
      · rename_i hk
        cases h
        rw [hk]
        exact List.mem_cons_self
      · exact List.mem_cons_of_mem _ (ih h)

/-- A key that is not there comes last. -/
theorem put_of_notMem {m : Assoc κ α} {k : κ} (v : α) (h : k ∉ m.map Prod.fst) :
    put k v m = m ++ [(k, v)] := by
  induction m with
  | nil => rfl
  | cons p rest ih =>
      obtain ⟨k', v'⟩ := p
      rw [List.map_cons, List.mem_cons, not_or] at h
      rw [put, if_neg (fun he => h.1 he.symm), ih h.2]
      rfl

/-- A key that is there keeps its place, and a new one comes last. -/
theorem keys_put (m : Assoc κ α) (k : κ) (v : α) : (put k v m).map Prod.fst =
    if k ∈ m.map Prod.fst then m.map Prod.fst else m.map Prod.fst ++ [k] := by
  split
  · rename_i hk
    induction m with
    | nil => cases hk
    | cons p rest ih =>
        obtain ⟨k', v'⟩ := p
        rw [put]
        split
        · rfl
        · rename_i hne
          rw [List.map_cons, List.mem_cons] at hk
          rw [List.map_cons, List.map_cons, ih (hk.resolve_left fun he => hne he.symm)]
  · rename_i hk
    rw [put_of_notMem v hk, List.map_append]
    rfl

/-- Keys stay distinct. -/
theorem nodup_put {m : Assoc κ α} (hm : (m.map Prod.fst).Nodup) (k : κ) (v : α) :
    ((put k v m).map Prod.fst).Nodup := by
  rw [keys_put]
  split
  · exact hm
  · rename_i hk
    rw [List.nodup_append]
    refine ⟨hm, by simp, fun a ha b hb => ?_⟩
    rw [List.mem_singleton.mp hb]
    rintro rfl
    exact hk ha

/-- A pair that is there afterwards was put in or there before. -/
theorem mem_put {m : Assoc κ α} {k : κ} {v : α} {p : κ × α} (h : p ∈ put k v m) :
    p = (k, v) ∨ p ∈ m := by
  induction m with
  | nil => exact Or.inl (List.mem_singleton.mp h)
  | cons q rest ih =>
      obtain ⟨k', v'⟩ := q
      rw [put] at h
      split at h
      · rename_i heq
        rcases List.mem_cons.mp h with h | h
        · exact Or.inl (heq ▸ h)
        · exact Or.inr (List.mem_cons_of_mem _ h)
      · rcases List.mem_cons.mp h with h | h
        · exact Or.inr (h ▸ List.mem_cons_self)
        · exact (ih h).imp_right (List.mem_cons_of_mem _)

theorem mem_putAll {m pairs : Assoc κ α} {p : κ × α} (h : p ∈ putAll m pairs) :
    p ∈ m ∨ p ∈ pairs := by
  induction pairs generalizing m with
  | nil => exact Or.inl h
  | cons q rest ih =>
      rcases ih (m := m.put q.1 q.2) h with hp | hp
      · rcases mem_put hp with hp | hp
        · exact Or.inr (hp ▸ List.mem_cons_self)
        · exact Or.inl hp
      · exact Or.inr (List.mem_cons_of_mem _ hp)

theorem nodup_putAll {m pairs : Assoc κ α} (hm : (m.map Prod.fst).Nodup) :
    ((putAll m pairs).map Prod.fst).Nodup := by
  induction pairs generalizing m with
  | nil => exact hm
  | cons q rest ih => exact ih (m := m.put q.1 q.2) (nodup_put hm q.1 q.2)

/-- A key that always comes with the same value has that value afterwards. -/
theorem get?_putAll {m : Assoc κ α} {pairs : List (κ × α)} {k : κ} {v : α}
    (h : ∀ p ∈ pairs, p.1 = k → p.2 = v) :
    get? (putAll m pairs) k = if k ∈ pairs.map Prod.fst then some v else get? m k := by
  induction pairs generalizing m with
  | nil => rfl
  | cons q rest ih =>
      have hrest : get? (putAll m (q :: rest)) k = _ :=
        ih (m := m.put q.1 q.2) fun p hp => h p (List.mem_cons_of_mem q hp)
      rw [hrest, get?_put]
      by_cases hq : q.1 = k
      · rw [if_pos hq, h q List.mem_cons_self hq, ite_self, List.map_cons, hq,
          if_pos List.mem_cons_self]
      · rw [if_neg hq, List.map_cons]
        simp only [List.mem_cons, show ¬ k = q.1 from fun heq => hq heq.symm, false_or]

/-- Keys are distinct, however often they were repeated. -/
theorem nodup_ofPairs (pairs : List (κ × α)) : ((ofPairs pairs).map Prod.fst).Nodup :=
  nodup_putAll List.nodup_nil

theorem mem_of_mem_ofPairs {pairs : List (κ × α)} {p : κ × α} (h : p ∈ ofPairs pairs) :
    p ∈ pairs := (mem_putAll h).resolve_left List.not_mem_nil

theorem putAll_of_nodup {m pairs : Assoc κ α} (h : ((m ++ pairs).map Prod.fst).Nodup) :
    putAll m pairs = m ++ pairs := by
  induction pairs generalizing m with
  | nil => rw [List.append_nil]; rfl
  | cons p rest ih =>
      have hp : p.1 ∉ m.map Prod.fst := by
        intro hmem
        rw [List.map_append, List.nodup_append] at h
        exact h.2.2 _ hmem p.1 (by simp) rfl
      have hstep : putAll m (p :: rest) = putAll (m ++ [p]) rest := by
        rw [← put_of_notMem p.2 hp]
        rfl
      rw [hstep, ih (by simpa using h)]
      simp

theorem ofPairs_concat (pairs : List (κ × α)) (p : κ × α) :
    ofPairs (pairs ++ [p]) = put p.1 p.2 (ofPairs pairs) := List.foldl_append

/-- A repeated key has its first place. -/
theorem keys_ofPairs (pairs : List (κ × α)) :
    (ofPairs pairs).map Prod.fst = (pairs.map Prod.fst).eraseDups := by
  induction pairs using List.reverseRecOn with
  | nil => rfl
  | append_singleton pairs p ih =>
      rw [ofPairs_concat, keys_put, ih, List.map_append, List.eraseDups_append, List.map_singleton]
      by_cases hp : p.1 ∈ pairs.map Prod.fst
      · rw [if_pos (List.mem_eraseDups.mpr hp)]
        simp [List.removeAll, hp]
      · rw [if_neg fun h => hp (List.mem_eraseDups.mp h)]
        simp [List.removeAll, hp, List.eraseDups_cons]

/-- A repeated key has its last value. -/
theorem get?_ofPairs (pairs : List (κ × α)) (k : κ) :
    get? (ofPairs pairs) k = get? pairs.reverse k := by
  induction pairs using List.reverseRecOn with
  | nil => rfl
  | append_singleton pairs p ih =>
      rw [ofPairs_concat, get?_put, ih, List.reverse_append, List.reverse_singleton,
        List.singleton_append, get?]

/-- Pairs that have distinct keys already are taken as they are. -/
theorem ofPairs_of_nodup {pairs : Assoc κ α} (h : (pairs.map Prod.fst).Nodup) :
    ofPairs pairs = pairs := putAll_of_nodup (m := []) h

end SchemaHistory.Assoc

namespace SchemaHistory.Registry

variable {α : Type} {r : Registry α}

@[simp] theorem get?_size : r.get? r.size = none := Array.getElem?_size

theorem lt_size_of_get? {i : Nat} {a : α} (h : r.get? i = some a) : i < r.size :=
  (Array.getElem?_eq_some_iff.mp h).1

theorem get?_add_self (a : α) : (r.add a).get? r.size = some a := by
  rw [get?_add, if_pos rfl]

theorem get?_add_of_some {i : Nat} {a : α} (h : r.get? i = some a) (b : α) :
    (r.add b).get? i = some a := by
  rw [get?_add, if_neg (Nat.ne_of_lt (lt_size_of_get? h)), h]

theorem get?_set_self {i : Nat} {a : α} (h : r.get? i = some a) (b : α) :
    (r.set i b).get? i = some b := by
  rw [set, get?_modify, if_pos rfl, h]
  rfl

theorem get?_set_other {i j : Nat} (h : i ≠ j) (b : α) : (r.set i b).get? j = r.get? j := by
  rw [set, get?_modify, if_neg h]

/-- A registry is what is under its numbers. -/
theorem eq_of_get? {r s : Registry α} (h : ∀ i, r.get? i = s.get? i) : r = s := by
  obtain ⟨a⟩ := r
  obtain ⟨b⟩ := s
  exact congrArg Registry.mk (Array.ext_getElem? h)

theorem modify_same {i : Nat} {f : α → α} (h : ∀ a, f a = a) : r.modify i f = r := by
  refine eq_of_get? fun j => ?_
  rw [get?_modify]
  split
  · cases r.get? j with
    | none => rfl
    | some a => exact congrArg some (h a)
  · rfl

theorem modify_modify (i : Nat) (f g : α → α) :
    (r.modify i f).modify i g = r.modify i fun a => g (f a) := by
  refine eq_of_get? fun j => ?_
  rw [get?_modify, get?_modify, get?_modify]
  split
  · rw [Option.map_map]
    rfl
  · rfl

end SchemaHistory.Registry
