import SchemaHistory.Proofs.Json.RoundTrip

/-!
# What a reader builds

No text makes a reader build a document that could not have been built by hand: no object in
it has a key twice, and its brackets nest no deeper than the reader went. Both are carried
from a reader of values to the reader of the brackets around them, so the induction is on the
depth.
-/

namespace SchemaHistory.Json

variable {α : Type}

/-- Whatever a scan answers has a property. -/
def Yields (P : α → Prop) (run : List Char → Except Fault (α × List Char)) : Prop :=
  ∀ ⦃s r v⦄, run s = .ok (v, r) → P v

theorem readItems_yields {P : α → Prop} {b : Bracket} {item : Reader α} (hitem : Yields P item.run)
    {acc vs : List α} {s r : List Char} (hacc : ∀ v ∈ acc, P v)
    (h : readItems b item acc s = .ok (vs, r)) : ∀ v ∈ vs, P v := by
  fun_induction readItems b item acc s with
  | case1 => cases h
  | case2 => cases h
  | case3 acc s v behind hrun rest hspace =>
      cases h
      intro w hw
      rw [List.mem_reverse] at hw
      exact List.forall_mem_cons.mpr ⟨hitem hrun, hacc⟩ w hw
  | case4 => cases h
  | case5 acc s v behind hrun rest hspace next hcomma hnext ih =>
      exact ih (List.forall_mem_cons.mpr ⟨hitem hrun, hacc⟩) h
  | case6 => cases h

theorem readBracket_yields {P : α → Prop} {b : Bracket} {item : Reader α}
    (hitem : Yields P item.run) : Yields (fun vs => ∀ v ∈ vs, P v) (readBracket b item) := by
  intro s r vs h
  rw [readBracket] at h
  split at h
  · cases h
  split at h
  · cases h
    exact fun v hv => absurd hv List.not_mem_nil
  · exact readItems_yields hitem (fun v hv => absurd hv List.not_mem_nil) h

theorem member_yields {P : α → Prop} {value : Reader α} (hvalue : Yields P value.run) :
    Yields (fun m => P m.2) (member value).run := by
  intro s r m h
  change readMember value s = _ at h
  rw [readMember] at h
  split at h
  · cases h
  split at h
  · cases h
  split at h
  · cases h
  rename_i hrun
  cases h
  exact hvalue hrun

/-- A document as a reader builds it that goes `depth` brackets deep. -/
structure Built (depth : Nat) (v : Json) : Prop where
  wellKeyed : v.WellKeyed
  shallow : v.nesting ≤ depth

theorem Built.array {depth : Nat} {items : List Json} (h : ∀ v ∈ items, Built depth v) :
    Built (depth + 1) (array items) := by
  refine ⟨?_, ?_⟩
  · rw [WellKeyed, wellKeyedItems_iff]
    exact fun v hv => (h v hv).wellKeyed
  · rw [nesting]
    exact Nat.succ_le_succ (nestingItems_le.mpr fun v hv => (h v hv).shallow)

theorem Built.object {depth : Nat} {pairs : List (String × Json)}
    (h : ∀ m ∈ pairs, Built depth m.2) : Built (depth + 1) (object (Assoc.ofPairs pairs)) := by
  refine ⟨?_, ?_⟩
  · rw [WellKeyed, wellKeyedMembers_iff]
    exact ⟨Assoc.nodup_ofPairs pairs,
      fun m hm => (h m (Assoc.mem_of_mem_ofPairs hm)).wellKeyed⟩
  · rw [nesting]
    exact Nat.succ_le_succ
      (nestingMembers_le.mpr fun m hm => (h m (Assoc.mem_of_mem_ofPairs hm)).shallow)

/-- A value without brackets. -/
theorem Built.flat {depth : Nat} {v : Json} (hkeys : v.WellKeyed) (hflat : v.nesting = 0) :
    Built depth v := ⟨hkeys, hflat ▸ Nat.zero_le depth⟩

theorem readWord_built {depth : Nat} {word : List Char} {v : Json} (hv : Built depth v) :
    Yields (Built depth) (readWord word v) := by
  intro s r w h
  rw [readWord] at h
  split at h
  · cases h
  · cases h
    exact hv

/-- A reader that may open a bracket builds one bracket more than the reader inside. -/
theorem readValue_built {depth : Nat} {inner : Option (Reader Json)}
    (hinner : ∀ item, inner = some item → ∃ d, depth = d + 1 ∧ Yields (Built d) item.run) :
    Yields (Built depth) (readValue inner) := by
  intro s r v h
  have hnumber : ∀ n, Built depth (number n) := fun n => .flat (by simp [WellKeyed]) rfl
  have hstring : ∀ t, Built depth (string t) := fun t => .flat (by simp [WellKeyed]) rfl
  have hboolean : ∀ b, Built depth (boolean b) := fun b => .flat (by simp [WellKeyed]) rfl
  have hnull : Built depth null := .flat (by simp [WellKeyed]) rfl
  rw [readValue] at h
  split at h
  · cases h
  split at h
  · exact readWord_built hnull h
  split at h
  · exact readWord_built (hboolean true) h
  split at h
  · exact readWord_built (hboolean false) h
  split at h
  · obtain ⟨n, -, rfl⟩ := mapScan_eq_ok.mp h
    exact hnumber n
  split at h
  · obtain ⟨n, -, rfl⟩ := mapScan_eq_ok.mp h
    exact hnumber n
  split at h
  · obtain ⟨t, -, rfl⟩ := mapScan_eq_ok.mp h
    exact hstring t
  split at h
  · split at h
    · cases h
    rename_i item
    obtain ⟨d, rfl, hitem⟩ := hinner item rfl
    obtain ⟨items, hitems, rfl⟩ := mapScan_eq_ok.mp h
    exact .array (readBracket_yields hitem hitems)
  split at h
  · split at h
    · cases h
    rename_i item
    obtain ⟨d, rfl, hitem⟩ := hinner item rfl
    obtain ⟨pairs, hpairs, rfl⟩ := mapScan_eq_ok.mp h
    exact .object (readBracket_yields (member_yields hitem) hpairs)
  · cases h

theorem value_built (depth : Nat) : Yields (Built depth) (value depth).run := by
  induction depth with
  | zero =>
      have hinner : ∀ item : Reader Json, none = some item → ∃ d, 0 = d + 1 ∧
          Yields (Built d) item.run := fun item h => by cases h
      rw [value]
      exact readValue_built hinner
  | succ depth ih =>
      have hinner : ∀ item : Reader Json, some (value depth) = some item →
          ∃ d, depth + 1 = d + 1 ∧ Yields (Built d) item.run := by
        intro item h
        cases h
        exact ⟨depth, rfl, ih⟩
      rw [value]
      exact readValue_built hinner

/-- **What is read** has no key twice in an object and nests no deeper than a reader goes. -/
theorem built_of_read {cs : List Char} {v : Json} (h : read cs = .ok v) : Built maxDepth v := by
  rw [read] at h
  cases hrun : (value maxDepth).run cs with
  | error f =>
      rw [hrun] at h
      cases h
  | ok p =>
      rw [hrun, finish] at h
      split at h
      · cases h
        exact value_built maxDepth hrun
      · cases h

end SchemaHistory.Json
