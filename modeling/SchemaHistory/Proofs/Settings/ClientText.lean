import SchemaHistory.Proofs.Json.RoundTrip
import SchemaHistory.Proofs.Settings.PassThrough
import SchemaHistory.Settings.ClientJson

/-!
# The text of client settings

Settings come about one by one. What is left under a key is what was set there last, and if nothing
was, the first default. Whatever the keys and the values are, settings are read back from their text
as they were written, so different settings have different texts. And settings that hold the same have
one text, for this lists the keys in their order and not in the order in which they were set.
-/

namespace SchemaHistory.ClientSettings

open Json

/-! ## Settings one by one -/

/-- One thing that is told a client. -/
inductive Step
  | set (key value : String)
  | setDefault (key value : String)

namespace Step

def apply (c : ClientSettings) : Step → ClientSettings
  | set key value => c.set key value
  | setDefault key value => c.setDefault key value

/-- The value that is set under the key. -/
def set? (key : String) : Step → Option String
  | set k value => if k = key then some value else none
  | setDefault _ _ => none

/-- The default that is set under the key. -/
def default? (key : String) : Step → Option String
  | set _ _ => none
  | setDefault k value => if k = key then some value else none

end Step

/-- The settings after some steps. -/
def after (steps : List Step) : ClientSettings := steps.foldl Step.apply empty

/-- What steps leave under a key: what was set last, or else the default that came first. -/
def left (steps : List Step) (key : String) : Option String :=
  (steps.filterMap (Step.set? key)).getLast?.or (steps.filterMap (Step.default? key)).head?

theorem after_concat (steps : List Step) (step : Step) :
    after (steps ++ [step]) = step.apply (after steps) := List.foldl_append

theorem left_set (steps : List Step) (k value key : String) :
    left (steps ++ [.set k value]) key = if k = key then some value else left steps key := by
  rw [left, List.filterMap_append, List.filterMap_append]
  by_cases hk : k = key <;> simp [Step.set?, Step.default?, left, hk]

theorem left_setDefault (steps : List Step) (k value key : String) :
    left (steps ++ [.setDefault k value]) key =
      (left steps key).or (if k = key then some value else none) := by
  rw [left, List.filterMap_append, List.filterMap_append]
  by_cases hk : k = key <;> simp [Step.set?, Step.default?, left, hk]

theorem get?_apply (c : ClientSettings) (step : Step) (steps : List Step)
    (h : ∀ key, c.get? key = left steps key) (key : String) :
    (step.apply c).get? key = left (steps ++ [step]) key := by
  cases step with
  | set k value =>
      rw [left_set, ← h]
      exact KeyMap.get?_insert c.props k key value
  | setDefault k value => rw [left_setDefault, ← h, Step.apply, get?_setDefault]

/-- **What is under a key** is what the steps leave there. -/
theorem get?_after (steps : List Step) (key : String) : (after steps).get? key = left steps key := by
  induction steps using List.reverseRecOn generalizing key with
  | nil => rfl
  | append_singleton steps step ih => rw [after_concat, get?_apply _ _ _ ih]

/-! ## Read back from their text -/

/-- An entry as it is written. -/
def writeEntry (e : String × String) : List Char := writeMember (e.1, .string e.2)

theorem readText_writeString (value : String) :
    Reads NoNumber textReader.run (writeString value) (some value) := by
  intro t _
  have hread : textReader.run (writeString value ++ t) = scanKey (writeString value ++ t) := rfl
  rw [hread, scanKey_writeString]
  rfl

theorem entry_reads (e : String × String) :
    Reads NoNumber (member textReader).run (writeEntry e) (some e) :=
  member_reads (readText_writeString e.2)

/-- The object of the entries, as it is written. -/
def writeEntries (es : List (String × String)) : List Char :=
  '{' :: joined (es.map writeEntry) ++ ['}']

theorem readMap_writeEntries (es : List (String × String)) (t : List Char) :
    readMap textReader (writeEntries es ++ t) = .ok (es, t) := by
  have hstart : ∀ e ∈ es, StartsItem objectBracket (writeEntry e) :=
    fun e _ => startsItem_member (e.1, .string e.2)
  have hbracket := readBracket_joined objectBracket_proper rfl (fun e _ => entry_reads e) hstart t
  have hall : es.mapM (fun e => some e) = some es := by
    simpa using List.mapM_pure (m := Option) (l := es) (f := id)
  rw [hall] at hbracket
  have hread : readMap textReader (writeEntries es ++ t) = readBracket objectBracket
      (member textReader) (joined (es.map writeEntry) ++ ['}'] ++ t) := rfl
  rw [hread, List.append_assoc]
  exact toOption_eq_some hbracket

/-- The one field of settings is read up to the bracket that ends them. -/
theorem readFields_props {s behind next rest : List Char} {es : List (String × String)}
    (hkey : scanKey s = .ok (propsField, behind)) (hcolon : scanColon behind = .ok next)
    (hmap : readMap textReader next = .ok (es, '}' :: rest)) :
    readFields none s = .ok (⟨.ofPairs es⟩, rest) := by
  have hfield : readField none propsField behind = .ok (some (.ofPairs es), '}' :: rest) := by
    rw [readField, if_pos rfl, if_neg (by decide), hcolon]
    dsimp only
    rw [hmap]
    rfl
  rw [readFields]
  split
  · rename_i f hf
    rw [hkey] at hf
    cases hf
  rename_i key behind' hok
  rw [hkey] at hok
  cases hok
  split
  · rename_i f hf
    rw [hfield] at hf
    cases hf
  rename_i found behind' hok
  rw [hfield] at hok
  cases hok
  rfl

theorem write_toJson (c : ClientSettings) : c.toJson.write =
    '{' :: (writeString propsField ++ ':' :: (writeEntries c.props.entries ++ ['}'])) := by
  have hentries : writeMembers (c.props.entries.map fun e => (e.1, .string e.2)) =
      joined (c.props.entries.map writeEntry) := by
    rw [writeMembers_eq, List.map_map]
    rfl
  rw [toJson, write, writeMembers, write, hentries, writeEntries, List.cons_append, List.append_assoc]
  rfl

/-- **Settings are read back as they were written**, whatever keys and values they hold. -/
theorem ofJson_text (c : ClientSettings) : ofJson c.toJson.text.toList = .ok c := by
  have hread : readSettings c.toJson.write = readFields none
      (writeString propsField ++ ':' :: (writeEntries c.props.entries ++ ['}'])) := by
    rw [write_toJson]
    rfl
  have hcolon : scanColon (':' :: (writeEntries c.props.entries ++ ['}'])) =
      .ok (writeEntries c.props.entries ++ ['}']) := rfl
  have hfields := readFields_props (scanKey_writeString propsField _) hcolon
    (readMap_writeEntries c.props.entries ['}'])
  rw [KeyMap.ofPairs_entries] at hfields
  rw [Json.text, String.toList_ofList, ofJson, hread, hfields]
  rfl

/-- Two settings have one text exactly if they hold the same. -/
theorem text_inj {c c' : ClientSettings} :
    c.toJson.text = c'.toJson.text ↔ ∀ key, c.get? key = c'.get? key := by
  refine ⟨fun htext key => ?_, fun h => by rw [eq_of_get? h]⟩
  have hread := ofJson_text c
  rw [htext, ofJson_text c'] at hread
  rw [Except.ok.inj hread]

/--
**Settings survive their text.** Whatever steps they come from, with whatever keys and values, reading
the text of settings gives them back; they hold what the steps leave under each key; and settings that
come from other steps have the same text exactly if these leave the same under every key.
-/
theorem settings_survive_text (steps : List Step) :
    ofJson (after steps).toJson.text.toList = .ok (after steps) ∧
    (∀ key, (after steps).get? key = left steps key) ∧
    ∀ other : List Step, (after steps).toJson.text = (after other).toJson.text ↔
      ∀ key, left steps key = left other key := by
  refine ⟨ofJson_text _, get?_after steps, fun other => ?_⟩
  rw [text_inj]
  simp only [get?_after]

end SchemaHistory.ClientSettings
