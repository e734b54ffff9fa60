import Mathlib.Data.List.Basic
import SchemaHistory.Log.Options
import SchemaHistory.Proofs.KeyMap
import SchemaHistory.Settings.History

/-!
# What goes through to the clients

A setting of a client has one of two sources: a property under the client's prefix, and, only
if there is none, a default. So what a client is told can be read off the properties key by
key, whatever else is among them. Cutting the prefix off different keys leaves them different,
so no property covers another.
-/

namespace SchemaHistory

namespace ClientSettings

theorem eq_of_get? {c c' : ClientSettings} (h : ∀ key, c.get? key = c'.get? key) : c = c' := by
  obtain ⟨props⟩ := c
  obtain ⟨props'⟩ := c'
  exact congrArg mk (KeyMap.eq_of_get? h)

/-! ## Behind a prefix -/

theorem behindPrefix?_eq_some {pre key rest : String} :
    behindPrefix? pre key = some rest ↔ key = pre ++ rest := by
  rw [behindPrefix?, Option.map_eq_some_iff]
  constructor
  · rintro ⟨cs, hcs, rfl⟩
    have hkey := List.isPrefixOf?_eq_some_iff_append_eq.mp hcs
    rw [← String.toList_inj, String.toList_append, String.toList_ofList]
    exact hkey.symm
  · rintro rfl
    refine ⟨rest.toList, ?_, String.ofList_toList⟩
    rw [String.toList_append]
    exact List.isPrefixOf?_eq_some_iff_append_eq.mpr rfl

theorem behindPrefix?_append (pre rest : String) :
    behindPrefix? pre (pre ++ rest) = some rest := behindPrefix?_eq_some.mpr rfl

/-- The entries whose keys have the prefix, without it. -/
def cut (pre : String) (es : List (String × String)) : List (String × String) :=
  es.filterMap fun e => (behindPrefix? pre e.1).map (·, e.2)

/-- What is behind the prefix is found without it. -/
theorem get?_cut (pre key : String) (es : List (String × String)) :
    Assoc.get? (cut pre es) key = Assoc.get? es (pre ++ key) := by
  induction es with
  | nil => rfl
  | cons e es ih =>
      obtain ⟨k, v⟩ := e
      rw [cut, List.filterMap_cons, Assoc.get?]
      cases hrest : behindPrefix? pre k with
      | none =>
          have hne : k ≠ pre ++ key := by
            rintro rfl
            rw [behindPrefix?_append] at hrest
            cases hrest
          rw [if_neg hne]
          exact ih
      | some rest =>
          obtain rfl := behindPrefix?_eq_some.mp hrest
          simp only [Option.map_some, Assoc.get?, String.append_right_inj]
          rw [← ih, cut]

/-- Keys that differ do so behind the prefix. -/
theorem nodup_cut (pre : String) {es : List (String × String)} (h : (es.map Prod.fst).Nodup) :
    ((cut pre es).map Prod.fst).Nodup := by
  have hkeys : (cut pre es).map Prod.fst = (es.map Prod.fst).filterMap (behindPrefix? pre) := by
    rw [cut, List.map_filterMap, List.filterMap_map]
    congr 1
    funext e
    cases h : behindPrefix? pre e.1 <;> simp [h]
  rw [hkeys]
  refine h.filterMap fun k k' rest hk hk' => ?_
  rw [behindPrefix?_eq_some.mp hk, behindPrefix?_eq_some.mp hk']

/-- A setting that a prefix gives is the property under the whole key. -/
theorem get?_ofPrefix (pre key : String) (props : Properties) :
    (ofPrefix pre props).get? key = props.get? (pre ++ key) :=
  (KeyMap.get?_ofPairs (nodup_cut pre props.nodup_keys) key).trans (get?_cut pre key props.entries)

/-! ## Defaults -/

theorem get?_setDefault (c : ClientSettings) (key value k : String) :
    (c.setDefault key value).get? k = (c.get? k).or (if key = k then some value else none) :=
  KeyMap.get?_insertIfNew c.props key k value

/-- Of some defaults the first one under a key counts, and only if the setting is absent. -/
theorem get?_setDefaults (c : ClientSettings) (defaults : List (String × String)) (k : String) :
    (c.setDefaults defaults).get? k = (c.get? k).or (Assoc.get? defaults k) := by
  rw [setDefaults]
  induction defaults generalizing c with
  | nil => exact Option.or_none.symm
  | cons d defaults ih =>
      rw [List.foldl_cons, ih, get?_setDefault, Option.or_assoc, Assoc.get?]
      split
      · rw [Option.some_or]
      · rw [Option.none_or]

/-- **A setting of a client** is the property under its prefix, and the default without one. -/
theorem get?_through (pre key : String) (props : Properties) (defaults : List (String × String)) :
    ((ofPrefix pre props).setDefaults defaults).get? key =
      (props.get? (pre ++ key)).or (Assoc.get? defaults key) := by
  rw [get?_setDefaults, get?_ofPrefix]

end ClientSettings

/-! ## What a consumer is told -/

namespace HistorySettings

variable {props : Properties} {fresh : String} {settings : HistorySettings}

/-- Properties that are accepted are put together as they are. -/
theorem ofProperties_eq (h : ofProperties props fresh = .ok settings) :
    settings = assemble settings.topic settings.servers settings.name settings.pollInterval
      settings.attempts props := by
  rw [ofProperties] at h
  split at h
  · cases h
    rfl
  · cases h

theorem consumer_eq (h : ofProperties props fresh = .ok settings) :
    settings.consumer = (ClientSettings.ofPrefix consumerPrefix props).setDefaults
      (consumerDefaults settings.servers settings.name) := by
  have hmade := congrArg HistorySettings.consumer (ofProperties_eq h)
  rwa [assemble] at hmade

theorem producer_eq (h : ofProperties props fresh = .ok settings) :
    settings.producer = (ClientSettings.ofPrefix producerPrefix props).setDefaults
      (producerDefaults settings.servers settings.name) := by
  have hmade := congrArg HistorySettings.producer (ofProperties_eq h)
  rwa [assemble] at hmade

theorem consumer_get? (h : ofProperties props fresh = .ok settings) (key : String) :
    settings.consumer.get? key = (props.get? (consumerPrefix ++ key)).or
      (Assoc.get? (consumerDefaults settings.servers settings.name) key) := by
  rw [consumer_eq h, ClientSettings.get?_through]

theorem producer_get? (h : ofProperties props fresh = .ok settings) (key : String) :
    settings.producer.get? key = (props.get? (producerPrefix ++ key)).or
      (Assoc.get? (producerDefaults settings.servers settings.name) key) := by
  rw [producer_eq h, ClientSettings.get?_through]

/-- The property that tells where a consumer starts to read. -/
def startProperty : String := consumerPrefix ++ ConsumerOptions.startKey

/-- A consumer that can be made starts where the property says, and without it at the start. -/
theorem startOf_told (h : ofProperties props fresh = .ok settings) {o : ConsumerOptions}
    (ho : ConsumerOptions.ofSettings settings.consumer = .ok o) :
    ConsumerOptions.startOf ((props.get? startProperty).getD "earliest") = .ok o.start := by
  have htold : settings.consumer.get? ConsumerOptions.startKey =
      some ((props.get? startProperty).getD "earliest") := by
    rw [consumer_get? h, ← Option.or_some]
    rfl
  rw [ConsumerOptions.ofSettings, htold, Option.getD_some] at ho
  split at ho
  · cases ho
  split at ho
  · cases ho
  · rename_i hstart
    cases ho
    exact hstart

/-- It starts behind the entries exactly when the property says so. -/
theorem start_eq_latest (h : ofProperties props fresh = .ok settings) {o : ConsumerOptions}
    (ho : ConsumerOptions.ofSettings settings.consumer = .ok o) :
    o.start = .latest ↔ props.get? startProperty = some "latest" := by
  have hstart := startOf_told h ho
  generalize o.start = start at hstart ⊢
  cases htold : props.get? startProperty with
  | none =>
      rw [htold] at hstart
      cases hstart
      simp
  | some value =>
      rw [htold, Option.getD_some, ConsumerOptions.startOf.eq_def] at hstart
      split at hstart
      · cases hstart
        simp
      · cases hstart
        simp
      · cases hstart

/-- **A consumer that the properties tell nothing** starts at the start, and polls for as many entries
as is usual. -/
theorem options_untold (h : ofProperties props fresh = .ok settings)
    (huntold : ∀ key, props.get? (consumerPrefix ++ key) = none) :
    ConsumerOptions.ofSettings settings.consumer =
      .ok ⟨ConsumerOptions.defaultLimit, .earliest⟩ := by
  have hlimit : settings.consumer.get? ConsumerOptions.limitKey = none := by
    rw [consumer_get? h, huntold]
    rfl
  have hstart : settings.consumer.get? ConsumerOptions.startKey = some "earliest" := by
    rw [consumer_get? h, huntold]
    rfl
  rw [ConsumerOptions.ofSettings, ClientSettings.getOr, hlimit, hstart]
  rfl

/-- Whether properties are accepted does not depend on how the clients are named, nor does any
setting of the history itself but their name. -/
theorem ofProperties_fresh (h : ofProperties props fresh = .ok settings) (fresh' : String) :
    ∃ settings', ofProperties props fresh' = .ok settings' ∧ settings'.topic = settings.topic ∧
      settings'.attempts = settings.attempts := by
  rw [ofProperties] at h ⊢
  split at h
  · cases h
    exact ⟨_, rfl, rfl, rfl⟩
  · cases h

end HistorySettings

end SchemaHistory
