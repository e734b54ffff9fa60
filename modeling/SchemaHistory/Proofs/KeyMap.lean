import Mathlib.Data.List.Nodup
import SchemaHistory.KeyMap
import SchemaHistory.Proofs.Collections

/-!
# Maps by what is looked up in them

The order of the keys leaves a map one list only. So a map is known by what is under each key, and
its list, put in pair by pair, gives it back.
-/

namespace SchemaHistory.KeyMap

variable {α : Type} {m n : KeyMap α}

theorem nodup_keys (m : KeyMap α) : (m.entries.map Prod.fst).Nodup := by
  rw [List.nodup_iff_pairwise_ne, List.pairwise_map]
  refine m.sorted.imp fun {a b} hlt heq => ?_
  rw [heq] at hlt
  exact String.lt_irrefl _ hlt

theorem eq_of_entries (h : m.entries = n.entries) : m = n := by
  cases m
  cases n
  cases h
  rfl

theorem isSome_get?_iff (m : KeyMap α) (key : String) :
    (m.get? key).isSome = true ↔ key ∈ m.entries.map Prod.fst := by
  rw [Option.isSome_iff_ne_none, get?, Ne, Assoc.get?_eq_none, not_not]

/-- Maps with the same keys list them alike, for the order is that of the keys. -/
theorem keys_congr {β : Type} {m : KeyMap α} {n : KeyMap β}
    (h : ∀ key, (m.get? key).isSome = (n.get? key).isSome) :
    m.entries.map Prod.fst = n.entries.map Prod.fst := by
  have hsame (key : String) : key ∈ m.entries.map Prod.fst ↔ key ∈ n.entries.map Prod.fst := by
    rw [← isSome_get?_iff, ← isSome_get?_iff, h]
  have hone (a b : String) (hab : a < b) (hba : b < a) : a = b :=
    absurd (String.lt_trans hab hba) (String.lt_irrefl a)
  exact List.Perm.eq_of_pairwise (fun a b _ _ => hone a b) (List.pairwise_map.mpr m.sorted)
    (List.pairwise_map.mpr n.sorted)
    ((List.perm_ext_iff_of_nodup m.nodup_keys n.nodup_keys).mpr hsame)

theorem mem_entries (m : KeyMap α) {key : String} {value : α} :
    (key, value) ∈ m.entries ↔ m.get? key = some value :=
  ⟨Assoc.get?_of_mem m.nodup_keys, Assoc.mem_of_get?⟩

/-- **A map is known by its lookups.** -/
theorem eq_of_get? (h : ∀ key, m.get? key = n.get? key) : m = n := by
  have hone (a b : String × α) (hab : a.1 < b.1) (hba : b.1 < a.1) : a = b :=
    absurd (String.lt_trans hab hba) (String.lt_irrefl a.1)
  have hsame (e : String × α) : e ∈ m.entries ↔ e ∈ n.entries := by
    obtain ⟨key, value⟩ := e
    rw [mem_entries, mem_entries, h]
  exact eq_of_entries (List.Perm.eq_of_pairwise (fun a b _ _ => hone a b) m.sorted n.sorted
    ((List.perm_ext_iff_of_nodup (.of_map _ m.nodup_keys) (.of_map _ n.nodup_keys)).mpr hsame))

theorem get?_insertIfNew (m : KeyMap α) (key k : String) (value : α) :
    (m.insertIfNew key value).get? k =
      (m.get? k).or (if key = k then some value else none) := by
  rw [insertIfNew]
  by_cases hk : key = k
  · subst hk
    rw [if_pos rfl]
    cases hget : m.get? key with
    | some v => rw [Option.isSome_some, if_pos rfl, hget, Option.some_or]
    | none => rw [Option.isSome_none, if_neg Bool.false_ne_true, get?_insert, if_pos rfl, Option.none_or]
  · rw [if_neg hk, Option.or_none]
    split
    · rfl
    · rw [get?_insert, if_neg hk]

/-- Of pairs with distinct keys each is found. -/
theorem get?_ofPairs {pairs : List (String × α)} (hkeys : (pairs.map Prod.fst).Nodup)
    (key : String) : (ofPairs pairs).get? key = Assoc.get? pairs key := by
  have hput (m : KeyMap α) : (pairs.foldl (fun m p => m.insert p.1 p.2) m).get? key =
      (Assoc.get? pairs key).or (m.get? key) := by
    induction pairs generalizing m with
    | nil => rfl
    | cons p pairs ih =>
        obtain ⟨k, v⟩ := p
        rw [List.map_cons, List.nodup_cons] at hkeys
        rw [List.foldl_cons, ih hkeys.2, get?_insert, Assoc.get?]
        by_cases hk : k = key
        · subst hk
          rw [if_pos rfl, if_pos rfl, Assoc.get?_eq_none.mpr hkeys.1, Option.none_or, Option.some_or]
        · rw [if_neg hk, if_neg hk]
  rw [ofPairs, hput]
  exact Option.or_none

/-- The pairs of a map give it back. -/
theorem ofPairs_entries (m : KeyMap α) : ofPairs m.entries = m :=
  eq_of_get? fun key => get?_ofPairs m.nodup_keys key

end SchemaHistory.KeyMap
