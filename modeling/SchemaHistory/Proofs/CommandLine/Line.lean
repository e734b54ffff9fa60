import SchemaHistory.CommandLine.Arguments
import SchemaHistory.Proofs.Collections
import SchemaHistory.Proofs.Payload

/-!
# The line of a change

A change that is given on the command line becomes a record, and a listing shows the record on a
line. What stands on that line can be told from the change: each key of its attributes is written
where it came first, with what came last under it, and around them are the names of the members. The
record comes back from its payload as it was stored if every value that is read as a double is
spelled by digits that mean it.
-/

namespace SchemaHistory

open Decimal Json

namespace Attribute

/-- The keys of some attributes, each at its first place. -/
def keysOf (attributes : List (String × String)) : List String :=
  (attributes.map Prod.fst).eraseDups

/-- The text that was given last under a key. -/
def lastUnder (attributes : List (String × String)) (key : String) : String :=
  (Assoc.get? attributes.reverse key).getD ""

/-- How a key is written with what was given last under it. -/
def memberText (attributes : List (String × String)) (key : String) : String :=
  (Json.string key).text ++ ":" ++ (value (lastUnder attributes key)).text

/-- How a document of attributes is written. -/
def documentText (attributes : List (String × String)) : String :=
  "\x7b" ++ ",".intercalate ((keysOf attributes).map (memberText attributes)) ++ "\x7d"

variable {attributes : List (String × String)}

theorem nodup_document (attributes : List (String × String)) :
    ((document attributes).map Prod.fst).Nodup := Assoc.nodup_ofPairs _

/-- Values of attributes are looked up as their texts are. -/
theorem get?_map_value (attributes : List (String × String)) (key : String) :
    Assoc.get? (attributes.map fun a => (a.1, value a.2)) key =
      (Assoc.get? attributes key).map value := by
  induction attributes with
  | nil => rfl
  | cons a attributes ih =>
      rw [List.map_cons, Assoc.get?, Assoc.get?, ih]
      split <;> rfl

/-- What stands under a key is what was given last under it. -/
theorem get?_document (attributes : List (String × String)) (key : String) :
    Assoc.get? (document attributes) key = (Assoc.get? attributes.reverse key).map value := by
  rw [document, Assoc.get?_ofPairs, ← List.map_reverse, get?_map_value]

/-- **A document lists its keys as they came first, with what came last.** -/
theorem document_eq (attributes : List (String × String)) : document attributes =
    (keysOf attributes).map fun key => (key, value (lastUnder attributes key)) := by
  have hkeys : (document attributes).map Prod.fst = keysOf attributes := by
    rw [document, Assoc.keys_ofPairs, List.map_map]
    rfl
  rw [← hkeys, List.map_map]
  refine (List.map_id _).symm.trans (List.map_congr_left fun m hm => ?_)
  have hget := Assoc.get?_of_mem (nodup_document attributes) hm
  rw [get?_document] at hget
  obtain ⟨text, htext, hvalue⟩ := Option.map_eq_some_iff.mp hget
  rw [Function.comp, lastUnder, htext, Option.getD_some, hvalue]
  rfl

/-- A value is a number, a truth value or a text. -/
theorem value_cases (text : String) : (∃ n, value text = .number n) ∨
    (∃ b, value text = .boolean b) ∨ value text = .string text := by
  rw [value]
  split
  · exact .inl ⟨_, rfl⟩
  · exact .inr (.inl ⟨_, rfl⟩)
  · exact .inr (.inr rfl)

theorem wellKeyed_document (attributes : List (String × String)) :
    (Json.object (document attributes)).WellKeyed := by
  rw [WellKeyed, wellKeyedMembers_iff]
  refine ⟨nodup_document attributes, fun m hm => ?_⟩
  obtain ⟨a, -, rfl⟩ := List.mem_map.mp (Assoc.mem_of_mem_ofPairs hm)
  rcases value_cases a.2 with ⟨n, hv⟩ | ⟨b, hv⟩ | hv <;> simp [hv, WellKeyed]

theorem nesting_document (attributes : List (String × String)) :
    (Json.object (document attributes)).nesting ≤ 1 := by
  rw [nesting]
  refine Nat.succ_le_succ (nestingMembers_le.mpr fun m hm => ?_)
  obtain ⟨a, -, rfl⟩ := List.mem_map.mp (Assoc.mem_of_mem_ofPairs hm)
  rcases value_cases a.2 with ⟨n, hv⟩ | ⟨b, hv⟩ | hv <;> simp [hv, nesting]

/-- Every double in a document was given. -/
theorem given_of_doubles {d : Double} (hd : d ∈ (Json.object (document attributes)).doubles) :
    ∃ a ∈ attributes, value a.2 = .number (.double d) := by
  rw [doubles, mem_doublesMembers] at hd
  obtain ⟨m, hm, hd⟩ := hd
  obtain ⟨a, ha, rfl⟩ := List.mem_map.mp (Assoc.mem_of_mem_ofPairs hm)
  refine ⟨a, ha, ?_⟩
  rcases value_cases a.2 with ⟨n, hv⟩ | ⟨b, hv⟩ | hv
  · rw [hv] at hd ⊢
    cases n with
    | integer i fits => simp [doubles] at hd
    | double e => rw [List.mem_singleton.mp hd]
  · simp [hv, doubles] at hd
  · simp [hv, doubles] at hd

theorem joined_eq_intercalate (xs : List (List Char)) : joined xs = [','].intercalate xs := by
  induction xs with
  | nil => rfl
  | cons x xs ih =>
      cases xs with
      | nil => simp [joined]
      | cons y xs => rw [joined, ih, List.intercalate_cons_cons, List.append_assoc]; rfl

/-- **A document is written member by member**, and nothing stands between them but commas. -/
theorem text_document (attributes : List (String × String)) :
    (Json.object (document attributes)).text = documentText attributes := by
  have hmember (key : String) : writeMember (key, value (lastUnder attributes key)) =
      (memberText attributes key).toList := by
    simp [writeMember, memberText, Json.text, write]
  rw [← String.toList_inj, Json.text, String.toList_ofList, write, writeMembers_eq,
    joined_eq_intercalate, document_eq, List.map_map, documentText, String.toList_append,
    String.toList_append, String.toList_intercalate, List.map_map]
  refine congrArg (fun ms => '{' :: [','].intercalate ms ++ ['}']) ?_
  exact List.map_congr_left fun key _ => hmember key

end Attribute

namespace ChangeArguments

open Attribute

/-- The record of a change. -/
def record (c : ChangeArguments) : Record :=
  .ofChange (document c.source) (document c.position) c.database (some c.ddl)

/-- How the database is written, behind the documents. -/
def databaseText : Option String → String
  | none => ""
  | some name => ",\"databaseName\":" ++ (Json.string name).text

/-- The line of a change. -/
def line (c : ChangeArguments) : String :=
  "\x7b\"source\":" ++ documentText c.source ++ ",\"position\":" ++ documentText c.position ++
    databaseText c.database ++ ",\"ddl\":" ++ (Json.string c.ddl).text ++ "\x7d"

/-- How changes are listed: each on its line. -/
def listing (changes : List ChangeArguments) : String :=
  String.join (changes.map fun c => c.line ++ "\n")

/-- Every value that is read as a double is spelled by digits that are read as that double again. -/
def Exact (c : ChangeArguments) : Prop :=
  ∀ a ∈ c.source ++ c.position, ∀ d, value a.2 = .number (.double d) →
    rereadNumber (.double d) = some (.double d)

/-- The value is no double, or its digits mean it. -/
def meansItself : Json → Bool
  | .number (.double d) => rereadNumber (.double d) = some (.double d)
  | _ => true

theorem meansItself_iff (v : Json) : meansItself v = true ↔
    ∀ d, v = .number (.double d) → rereadNumber (.double d) = some (.double d) := by
  rw [meansItself.eq_def]
  split
  · simp
  · rename_i hother
    exact ⟨fun _ d hd => absurd hd (hother d), fun _ => rfl⟩

instance (c : ChangeArguments) : Decidable c.Exact :=
  decidable_of_iff (∀ a ∈ c.source ++ c.position, meansItself (value a.2) = true)
    (forall₂_congr fun a _ => meansItself_iff (value a.2))

variable {c : ChangeArguments}

/-- **A listing shows the record of a change on the line of the change.** -/
theorem line_record (c : ChangeArguments) : c.record.line = c.line := by
  obtain ⟨database, ddl, source, position⟩ := c
  -- the names of the members need no escapes
  have hsource : writeString Record.sourceKey = "\"source\"".toList := by decide
  have hposition : writeString Record.positionKey = "\"position\"".toList := by decide
  have hdatabase : writeString Record.databaseKey = "\"databaseName\"".toList := by decide
  have hddl : writeString Record.ddlKey = "\"ddl\"".toList := by decide
  unfold line databaseText
  rw [← text_document, ← text_document, ← String.toList_inj]
  cases database <;>
    simp [Record.line, record, Record.ofChange, Record.membersOf, writeMembers, write, Json.text,
      hsource, hposition, hdatabase, hddl]

theorem oneLine_line (c : ChangeArguments) : '\n' ∉ c.line.toList := by
  rw [← line_record]
  exact c.record.oneLine_payload

theorem wellKeyed_record (c : ChangeArguments) : c.record.WellKeyed :=
  Record.wellKeyed_ofChange _ _ (wellKeyed_document c.source) (wellKeyed_document c.position)

/-- What stands in a record of a change is a document of attributes or a text. -/
theorem member_record {m : String × Json} (hm : m ∈ c.record.document) :
    m.2 = .object (document c.source) ∨ m.2 = .object (document c.position) ∨
      ∃ s, m.2 = .string s := by
  rw [record, Record.ofChange, Record.membersOf, List.mem_append, List.mem_append] at hm
  rcases hm with (hm | hm) | hm
  · rw [List.mem_cons, List.mem_singleton] at hm
    rcases hm with rfl | rfl
    · exact .inl rfl
    · exact .inr (.inl rfl)
  · obtain ⟨name, -, rfl⟩ := Option.map_eq_some_iff.mp (Option.mem_toList.mp hm)
    exact .inr (.inr ⟨name, rfl⟩)
  · rw [Option.map_some, Option.toList_some] at hm
    rw [List.mem_singleton.mp hm]
    exact .inr (.inr ⟨c.ddl, rfl⟩)

/-- **The record of a change is faithful** if the doubles in it are spelled by digits that mean them. -/
theorem Exact.faithful (h : c.Exact) : c.record.Faithful := by
  refine ⟨?_, fun d hd => ?_⟩
  · have hflat : (Json.object c.record.document).nesting ≤ 2 := by
      rw [nesting]
      refine Nat.succ_le_succ (nestingMembers_le.mpr fun m hm => ?_)
      rcases member_record hm with hm | hm | ⟨s, hm⟩
      · rw [hm]
        exact nesting_document c.source
      · rw [hm]
        exact nesting_document c.position
      · simp [hm, nesting]
    exact Nat.le_trans hflat (by decide)
  · rw [doubles, mem_doublesMembers] at hd
    obtain ⟨m, hm, hd⟩ := hd
    rcases member_record hm with hm | hm | ⟨s, hm⟩
    · rw [hm] at hd
      obtain ⟨a, ha, hv⟩ := given_of_doubles hd
      exact h a (List.mem_append_left _ ha) d hv
    · rw [hm] at hd
      obtain ⟨a, ha, hv⟩ := given_of_doubles hd
      exact h a (List.mem_append_right _ ha) d hv
    · simp [hm, doubles] at hd

end ChangeArguments

end SchemaHistory
