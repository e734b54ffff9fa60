import SchemaHistory.Proofs.File.Lines
import SchemaHistory.Proofs.Memory.Partition
import SchemaHistory.Proofs.Text.Utf8

/-!
# Entries on lines

Files keep an entry as a line with its text. So they keep no key, and a line feed in the text would
make two entries of one. But for that a line is handed over as its entry is.
-/

namespace SchemaHistory

open FileLog Text

/-- An entry as files keep it, which have no keys. -/
def Entry.keyless (e : Entry) : Entry := { e with key := none }

theorem keyless_keyless (es : List Entry) :
    (es.map Entry.keyless).map Entry.keyless = es.map Entry.keyless := by
  rw [List.map_map]
  rfl

/-- The lines that entries are in a file. -/
def storedLines (es : List Stored) : List Bytes := es.map fun e => utf8 e.payload

/-- Each of the entries is one line. -/
def OnLines (es : List Stored) : Prop := ∀ e ∈ es, '\n' ∉ e.payload.toList

section Lines

variable {es : List Stored}

theorem length_storedLines (es : List Stored) : (storedLines es).length = es.length :=
  List.length_map _

theorem lined_storedLines (h : OnLines es) :
    Lined (ended (storedLines es)) (storedLines es) [] := by
  refine ⟨(List.append_nil _).symm, fun line hline => ?_, by simp⟩
  obtain ⟨e, he, rfl⟩ := List.mem_map.mp hline
  exact lineFeed_not_mem_encode (h e he)

theorem storedLines_split (es : List Stored) (n : Nat) :
    storedLines es = storedLines (es.take n) ++ storedLines (es.drop n) := by
  rw [storedLines, storedLines, storedLines, ← List.map_append, List.take_append_drop]

theorem ended_storedLines_concat (es : List Stored) (e : Stored) :
    ended (storedLines (es ++ [e])) = ended (storedLines es) ++ (utf8 e.payload ++ [lineFeed]) := by
  rw [storedLines, List.map_append, ended_append]
  exact congrArg _ (ended_singleton _)

/-- **Lines are handed over as entries are**, but for the keys. -/
theorem entriesOf_storedLines (topic : String) (p n : Nat) (es : List Stored) :
    entriesOf topic p n (storedLines es) =
      (MemoryConsumer.handOver topic p n es).map Entry.keyless := by
  induction es generalizing n with
  | nil => rfl
  | cons e es ih =>
      rw [storedLines, List.map_cons, entriesOf_cons, MemoryConsumer.handOver_cons, List.map_cons,
        decodeLossy_utf8, String.ofList_toList]
      exact congrArg _ (ih (n + 1))

/-- Entries without keys are handed over as files keep them. -/
theorem handOver_keyless (topic : String) (p n : Nat) (h : ∀ e ∈ es, e.key = none) :
    (MemoryConsumer.handOver topic p n es).map Entry.keyless =
      MemoryConsumer.handOver topic p n es := by
  induction es generalizing n with
  | nil => rfl
  | cons e es ih =>
      obtain ⟨hkey, hrest⟩ := List.forall_mem_cons.mp h
      rw [MemoryConsumer.handOver_cons, List.map_cons, ih _ hrest, Entry.keyless]
      rw [hkey]

end Lines

end SchemaHistory
