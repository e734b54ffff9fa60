import SchemaHistory.Proofs.Settings.Checking
import SchemaHistory.Proofs.Settings.PassThrough

/-!
# What accepted properties tell the clients

Each client has a prefix and some defaults of its own. What it is told under a key is the property
under its prefix and this key, were it blank, or else its default, or else nothing. The name among the
defaults is the one that is given, blank around it and all, unless it is nothing but blank. Properties
under the prefix of one client reach nobody else: the other client and all other settings stay as they
are whatever is put there or taken away, and the properties stay accepted.
-/

namespace SchemaHistory

namespace ClientSettings

/-- What goes through under a prefix depends on the properties under it only. -/
theorem through_congr {pre : String} {props other : Properties}
    (h : ∀ key, other.get? (pre ++ key) = props.get? (pre ++ key))
    (defaults : List (String × String)) :
    (ofPrefix pre other).setDefaults defaults = (ofPrefix pre props).setDefaults defaults :=
  eq_of_get? fun key => by rw [get?_through, get?_through, h]

end ClientSettings

namespace HistorySettings

open ClientSettings

variable {props other : Properties} {fresh pre : String} {settings : HistorySettings}

/-! ## Defaults and names -/

/-- What a consumer is told of a key that the properties do not speak of. -/
def consumerDefault? (servers name : String) : String → Option String
  | "bootstrap.servers" => some servers
  | "client.id" => some name
  | "group.id" => some name
  | "fetch.min.bytes" => some "1"
  | "enable.auto.commit" => some "false"
  | "session.timeout.ms" => some "30000"
  | "auto.offset.reset" => some "earliest"
  | _ => none

/-- What a producer is told of a key that the properties do not speak of. -/
def producerDefault? (servers name : String) : String → Option String
  | "bootstrap.servers" => some servers
  | "client.id" => some name
  | "acks" => some "1"
  | "retries" => some "1"
  | "batch.size" => some "32768"
  | "linger.ms" => some "0"
  | "buffer.memory" => some "1048576"
  | _ => none

theorem get?_consumerDefaults (servers name key : String) :
    Assoc.get? (consumerDefaults servers name) key = consumerDefault? servers name key := by
  rw [consumerDefault?.eq_def]
  split <;> simp_all [consumerDefaults, Assoc.get?, eq_comm]

theorem get?_producerDefaults (servers name key : String) :
    Assoc.get? (producerDefaults servers name) key = producerDefault? servers name key := by
  rw [producerDefault?.eq_def]
  split <;> simp_all [producerDefaults, Assoc.get?, eq_comm]

/-- The text has nothing in it but blank. -/
def IsBlank (text : String) : Prop := ∀ c ∈ text.toList, Text.isBlank c = true

/-- The name the clients go by: the given one as it is, or a fresh one if that is blank or if none is
given. -/
inductive Named (given : Option String) (fresh : String) : String → Prop
  | given {name : String} (h : given = some name) (spoken : ¬ IsBlank name) : Named given fresh name
  | fresh (h : ∀ name, given = some name → IsBlank name) : Named given fresh fresh

theorem named_effectiveName (given : Option String) (fresh : String) :
    Named given fresh (effectiveName given fresh) := by
  rw [effectiveName.eq_def]
  cases given with
  | none => exact .fresh nofun
  | some name =>
      dsimp only
      split
      · rename_i hblank
        rw [List.isEmpty_iff, Text.trimChars_eq_nil] at hblank
        exact .fresh fun name' h => Option.some.inj h ▸ hblank
      · rename_i hspoken
        rw [List.isEmpty_iff, Text.trimChars_eq_nil] at hspoken
        exact .given rfl hspoken

theorem name_of_ofProperties (h : ofProperties props fresh = .ok settings) :
    settings.name = effectiveName (props.get? nameKey) fresh := by
  rw [ofProperties] at h
  split at h <;> cases h
  rfl

/-! ## Properties of one client -/

/-- The properties are the same but for what is under the prefix. -/
def ApartUnder (pre : String) (props other : Properties) : Prop :=
  ∀ key, (∀ k, key ≠ pre ++ k) → other.get? key = props.get? key

theorem ApartUnder.get?_eq (h : ApartUnder pre props other) {key : String}
    (hkey : behindPrefix? pre key = none) : other.get? key = props.get? key := by
  refine h key ?_
  rintro k rfl
  rw [behindPrefix?_append] at hkey
  cases hkey

/-- No property is under both prefixes. -/
theorem prefixes_apart (k k' : String) : consumerPrefix ++ k ≠ producerPrefix ++ k' := by
  intro h
  have hchars := congrArg String.toList h
  rw [String.toList_append, String.toList_append] at hchars
  exact absurd (List.append_inj_left hchars (by decide)) (by decide)

/-- The properties of a client that are changed leave the checked settings and the name. -/
theorem ApartUnder.accepted (h : ApartUnder pre props other)
    (hpre : pre = consumerPrefix ∨ pre = producerPrefix)
    (hp : ofProperties props fresh = .ok settings) :
    ofProperties other fresh = .ok (assemble settings.topic settings.servers settings.name
      settings.pollInterval settings.attempts other) := by
  have hsame : ∀ key ∈ nameKey :: checkedKeys, other.get? key = props.get? key := by
    have hnone : ∀ key ∈ nameKey :: checkedKeys, behindPrefix? pre key = none := by
      rcases hpre with rfl | rfl <;> decide
    exact fun key hkey => h.get?_eq (hnone key hkey)
  obtain ⟨htopic, hservers, hinterval, hattempts⟩ := checked_of_ofProperties hp
  rw [← required_congr (hsame topicKey (by simp [checkedKeys]))] at htopic
  rw [← required_congr (hsame serversKey (by simp [checkedKeys]))] at hservers
  rw [← count_congr (hsame pollIntervalKey (by simp [checkedKeys]))] at hinterval
  rw [← count_congr (hsame attemptsKey (by simp [checkedKeys]))] at hattempts
  rw [ofProperties_of_checked htopic hservers hinterval hattempts, hsame nameKey (by simp),
    ← name_of_ofProperties hp]

theorem ApartUnder.consumer (h : ApartUnder consumerPrefix props other)
    (hp : ofProperties props fresh = .ok settings) :
    ∃ consumer, ofProperties other fresh = .ok { settings with consumer } := by
  have hproducer : (ofPrefix producerPrefix other).setDefaults
      (producerDefaults settings.servers settings.name) = settings.producer := by
    rw [through_congr fun key => h _ fun k hk => prefixes_apart k key hk.symm, producer_eq hp]
  rw [h.accepted (.inl rfl) hp, assemble, hproducer]
  exact ⟨_, rfl⟩

theorem ApartUnder.producer (h : ApartUnder producerPrefix props other)
    (hp : ofProperties props fresh = .ok settings) :
    ∃ producer, ofProperties other fresh = .ok { settings with producer } := by
  have hconsumer : (ofPrefix consumerPrefix other).setDefaults
      (consumerDefaults settings.servers settings.name) = settings.consumer := by
    rw [through_congr fun key => h _ fun k => prefixes_apart key k, consumer_eq hp]
  rw [h.accepted (.inr rfl) hp, assemble, hconsumer]
  exact ⟨_, rfl⟩

/--
**What the clients are told.** Of accepted properties the consumer is told, under each key, the
property under `database.history.consumer.` and this key, and without one its default; where there is
none either, nothing. So is the producer, with a prefix and defaults of its own. The servers among the
defaults are those that were checked, and the name is the given one as it is unless it is blank. Whatever is
changed, put or taken away under the prefix of a client, the properties are still accepted and all
settings but those of this client are the same.
-/
theorem clients_told (props : Properties) (fresh : String) (settings : HistorySettings)
    (h : ofProperties props fresh = .ok settings) :
    (∀ key, settings.consumer.get? key = (props.get? ("database.history.consumer." ++ key)).or
      (consumerDefault? settings.servers settings.name key)) ∧
    (∀ key, settings.producer.get? key = (props.get? ("database.history.producer." ++ key)).or
      (producerDefault? settings.servers settings.name key)) ∧
    Says props serversKey settings.servers ∧ Named (props.get? nameKey) fresh settings.name ∧
    (∀ other, ApartUnder "database.history.consumer." props other →
      ∃ consumer, ofProperties other fresh = .ok { settings with consumer }) ∧
    ∀ other, ApartUnder "database.history.producer." props other →
      ∃ producer, ofProperties other fresh = .ok { settings with producer } := by
  refine ⟨fun key => ?_, fun key => ?_, required_eq_ok.mp (checked_of_ofProperties h).2.1, ?_,
    fun other hother => hother.consumer h, fun other hother => hother.producer h⟩
  · rw [consumer_get? h, get?_consumerDefaults]
    rfl
  · rw [producer_get? h, get?_producerDefaults]
    rfl
  · rw [name_of_ofProperties h]
    exact named_effectiveName _ fresh

/-- A blank setting, one under the bare prefix, and one whose key has a prefix in it again. -/
def overridingProperties : Properties :=
  .ofPairs [(topicKey, "t"), (serversKey, " b "), (nameKey, " n "), (consumerPrefix ++ "group.id", ""),
    (consumerPrefix, "x"), (producerPrefix ++ consumerPrefix, "y"), (producerPrefix ++ "acks", "all")]

/-- Each reaches the client whose prefix comes first, and the defaults fill in the rest. -/
theorem clients_told_overriding : ∃ settings,
    ofProperties overridingProperties "f" = .ok settings ∧
    settings.consumer.get? "group.id" = some "" ∧ settings.consumer.get? "" = some "x" ∧
    settings.consumer.get? "client.id" = some " n " ∧ settings.consumer.get? "acks" = none ∧
    settings.producer.get? consumerPrefix = some "y" ∧ settings.producer.get? "acks" = some "all" ∧
    settings.producer.get? "bootstrap.servers" = some "b" := by
  obtain ⟨settings, h, hservers, hname⟩ : ∃ settings, ofProperties overridingProperties "f" =
      .ok settings ∧ settings.servers = "b" ∧ settings.name = " n " := ⟨_, rfl, rfl, rfl⟩
  obtain ⟨hconsumer, hproducer, -⟩ := clients_told overridingProperties "f" settings h
  rw [hservers, hname] at hconsumer hproducer
  refine ⟨settings, h, ?_⟩
  simp only [hconsumer, hproducer]
  decide

end HistorySettings

end SchemaHistory
