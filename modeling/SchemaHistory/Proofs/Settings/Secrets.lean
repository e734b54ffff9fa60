import SchemaHistory.Proofs.Settings.Checking
import SchemaHistory.Proofs.Settings.PassThrough

/-!
# Secrets among the settings

Properties whose values must not be shown are those of the clients whose keys speak of passwords
or secrets. Two maps of properties that differ in nothing else are checked alike and give the same
settings, but for the values of these keys. Neither what is shown of the settings nor what a
consumer goes by depends on them: the one stands for them with a mask, and the other looks at two
other keys.
-/

namespace SchemaHistory

namespace ClientSettings

variable {c c' : ClientSettings}

/-- Two settings that differ in the values of secrets only. -/
structure Alike (c c' : ClientSettings) : Prop where
  keys : ∀ key, (c.get? key).isSome = (c'.get? key).isSome
  plain : ∀ key, isSecret key = false → c.get? key = c'.get? key

/-- How a key and its value are shown. -/
def shown (c : ClientSettings) (key : String) : String :=
  key ++ "=" ++ (if isSecret key then mask else (c.get? key).getD "")

theorem maskedEntry_eq {e : String × String} (he : e ∈ c.props.entries) :
    maskedEntry e = c.shown e.1 := by
  rw [maskedEntry, shown, get?, KeyMap.get?, Assoc.get?_of_mem c.props.nodup_keys he,
    Option.getD_some]

/-- All that is shown is shown key by key. -/
theorem masked_eq (c : ClientSettings) :
    c.masked = "\x7b" ++ ", ".intercalate ((c.props.entries.map Prod.fst).map c.shown) ++ "\x7d" := by
  rw [masked, List.map_map, List.map_congr_left fun e he => maskedEntry_eq he]
  rfl

theorem Alike.shown (h : c.Alike c') : c.shown = c'.shown := by
  funext key
  rw [ClientSettings.shown, ClientSettings.shown]
  cases hsecret : isSecret key with
  | true => rfl
  | false => rw [h.plain key hsecret]

/-- **Secrets are not shown**: not their values, nor anything that depends on these. -/
theorem Alike.masked (h : c.Alike c') : c.masked = c'.masked := by
  rw [masked_eq, masked_eq, KeyMap.keys_congr h.keys, h.shown]

theorem Alike.getOr {α : Type} (h : c.Alike c') (read : List Char → Option α) {key : String}
    (hkey : isSecret key = false) (default : α) :
    c.getOr read key default = c'.getOr read key default := by
  rw [ClientSettings.getOr, ClientSettings.getOr, h.plain key hkey]

/-- A consumer goes by settings that are no secrets. -/
theorem Alike.options (h : c.Alike c') :
    ConsumerOptions.ofSettings c = ConsumerOptions.ofSettings c' := by
  have hlimit : isSecret ConsumerOptions.limitKey = false := by decide
  have hstart : isSecret ConsumerOptions.startKey = false := by decide
  rw [ConsumerOptions.ofSettings, ConsumerOptions.ofSettings, h.getOr _ hlimit, h.plain _ hstart]

end ClientSettings

namespace HistorySettings

open ClientSettings

variable {p q : Properties} {fresh fresh' : String} {settings settings' : HistorySettings}

/-- Two maps of properties with the same keys that differ in the values of the clients' secrets only. -/
structure SecretsApart (p q : Properties) : Prop where
  keys : ∀ key, (p.get? key).isSome = (q.get? key).isSome
  rest : ∀ key, p.get? key ≠ q.get? key →
    ∃ k, isSecret k = true ∧ (key = consumerPrefix ++ k ∨ key = producerPrefix ++ k)

/-- Settings of a history that differ in the secrets of its clients only. -/
structure Alike (settings settings' : HistorySettings) : Prop where
  topic : settings.topic = settings'.topic
  servers : settings.servers = settings'.servers
  name : settings.name = settings'.name
  pollInterval : settings.pollInterval = settings'.pollInterval
  attempts : settings.attempts = settings'.attempts
  consumer : settings.consumer.Alike settings'.consumer
  producer : settings.producer.Alike settings'.producer

/-- A property of neither client is the same. -/
theorem SecretsApart.get?_eq (h : SecretsApart p q) {key : String}
    (hconsumer : behindPrefix? consumerPrefix key = none)
    (hproducer : behindPrefix? producerPrefix key = none) : p.get? key = q.get? key := by
  by_contra hne
  obtain ⟨k, -, rfl | rfl⟩ := h.rest key hne
  · rw [behindPrefix?_append] at hconsumer
    cases hconsumer
  · rw [behindPrefix?_append] at hproducer
    cases hproducer

/-- The prefixes of the clients are equally long, so each takes its own properties. -/
theorem eq_of_behind {pre other k k' : String} (hlength : pre.toList.length = other.toList.length)
    (h : pre ++ k = other ++ k') : k = k' := by
  have hchars := congrArg String.toList h
  rw [String.toList_append, String.toList_append] at hchars
  exact String.toList_inj.mp (List.append_inj_right hchars hlength)

theorem SecretsApart.isSecret_of_ne (h : SecretsApart p q) {pre key : String}
    (hpre : pre = consumerPrefix ∨ pre = producerPrefix)
    (hne : p.get? (pre ++ key) ≠ q.get? (pre ++ key)) : isSecret key = true := by
  have hlength (other : String) (hother : other = consumerPrefix ∨ other = producerPrefix) :
      other.toList.length = consumerPrefix.toList.length := by
    rcases hother with rfl | rfl <;> decide
  obtain ⟨k, hsecret, hk⟩ := h.rest _ hne
  rcases hk with hk | hk
  · rwa [eq_of_behind (hlength pre hpre) hk]
  · rwa [eq_of_behind ((hlength pre hpre).trans (hlength _ (.inr rfl)).symm) hk]

/-- What goes through to a client differs in its secrets only. -/
theorem SecretsApart.through (h : SecretsApart p q) {pre : String}
    (hpre : pre = consumerPrefix ∨ pre = producerPrefix) (defaults : List (String × String)) :
    ((ofPrefix pre p).setDefaults defaults).Alike ((ofPrefix pre q).setDefaults defaults) := by
  constructor
  · intro key
    rw [get?_through, get?_through, Option.isSome_or, Option.isSome_or, h.keys]
  · intro key hsecret
    have hsame : p.get? (pre ++ key) = q.get? (pre ++ key) := by
      by_contra hne
      rw [h.isSecret_of_ne hpre hne] at hsecret
      cases hsecret
    rw [get?_through, get?_through, hsame]

/-- **Properties that differ in secrets only** give settings that do, if the clients are named alike. -/
theorem SecretsApart.accepted (h : SecretsApart p q) (hp : ofProperties p fresh = .ok settings)
    (hq : ofProperties q fresh' = .ok settings') (hname : settings.name = settings'.name) :
    settings.Alike settings' := by
  obtain ⟨htopic, hservers, hinterval, hattempts⟩ := checked_of_ofProperties hp
  obtain ⟨htopic', hservers', hinterval', hattempts'⟩ := checked_of_ofProperties hq
  rw [required_congr (h.get?_eq (by decide) (by decide)), htopic'] at htopic
  rw [required_congr (h.get?_eq (by decide) (by decide)), hservers'] at hservers
  rw [count_congr (h.get?_eq (by decide) (by decide)), hinterval'] at hinterval
  rw [count_congr (h.get?_eq (by decide) (by decide)), hattempts'] at hattempts
  have hserver : settings.servers = settings'.servers := (Except.ok.inj hservers).symm
  refine ⟨(Except.ok.inj htopic).symm, hserver, hname, (Except.ok.inj hinterval).symm,
    (Except.ok.inj hattempts).symm, ?_, ?_⟩
  · rw [consumer_eq hp, consumer_eq hq, hserver, hname]
    exact h.through (.inl rfl) _
  · rw [producer_eq hp, producer_eq hq, hserver, hname]
    exact h.through (.inr rfl) _

end HistorySettings

end SchemaHistory
