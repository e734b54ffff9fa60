import SchemaHistory.Log.File.Broker
import SchemaHistory.Log.Memory
import SchemaHistory.Proofs.Party
import SchemaHistory.Proofs.Settings.Secrets

/-!
# Secrets do not come out

Histories are built from properties among which there are secrets, and used in any way. Whatever
they are used for, what they report, what they answer and what they leave on the log is the same as
with other secrets. The settings of the clients are handed to a log in two places only, where a
producer and a consumer is made, and neither log looks at a secret there.
-/

namespace SchemaHistory

/-! ## What is done, and what is seen of it -/

/-- What is done with histories and with what is around them. -/
inductive Deed (τ : Type)
  /-- A history is built. -/
  | build (shutdown : SignalId)
  | start (i : Nat)
  | store (i : Nat) (r : Record)
  /-- A recovery polls so many times at most. -/
  | recover (i limit : Nat)
  | stop (i : Nat)
  | display (i : Nat)
  /-- Others use the log or raise a signal. -/
  | others (act : τ → τ)

/-- What a deed answers. -/
inductive DeedAnswer
  /-- There is no such history. -/
  | nobody
  | done (result : Except HistoryError Unit)
  | stored (result : Except HistoryError StoreOutcome)
  | recovered (result : Except HistoryError Recovery)
  | shown (text : String)

/-- What is seen of a deed. -/
structure Sight (τ : Type) where
  answer : DeedAnswer
  events : List Event
  /-- What is around the histories afterwards. -/
  state : τ

/-- Histories that were built from the same settings, and what is around them. -/
structure Scene (τ : Type) where
  state : τ
  /-- The histories, in the order in which they were built. -/
  histories : List History

namespace Scene

variable {τ : Type}

/-- What a deed answers and reports, and what is left after it. A recovery that does not come to its
end answers nothing. -/
def perform (host : Host τ) (settings : HistorySettings) (s : Scene τ) :
    Deed τ → Option (DeedAnswer × List Event × Scene τ)
  | .build shutdown =>
    some (.done (.ok ()), History.makeEvents settings,
      { s with histories := s.histories ++ [.make settings shutdown] })
  | .start i =>
    match s.histories[i]? with
    | none => some (.nobody, [], s)
    | some h =>
      let (result, h, state) := h.start host s.state
      some (.done result, [], ⟨state, s.histories.set i h⟩)
  | .store i r =>
    match s.histories[i]? with
    | none => some (.nobody, [], s)
    | some h =>
      let (result, events, state) := h.store host r s.state
      some (.stored result, events, { s with state })
  | .recover i limit =>
    match s.histories[i]? with
    | none => some (.nobody, [], s)
    | some h =>
      (h.recover host limit s.state).map fun (result, events, state) =>
        (.recovered result, events, { s with state })
  | .stop i =>
    match s.histories[i]? with
    | none => some (.nobody, [], s)
    | some h =>
      let (result, h, state) := h.stop host s.state
      some (.done result, [], ⟨state, s.histories.set i h⟩)
  | .display i =>
    match s.histories[i]? with
    | none => some (.nobody, [], s)
    | some h => some (.shown h.describe, [], s)
  | .others act => some (.done (.ok ()), [], { s with state := act s.state })

/-- What is seen of some deeds, one after another. -/
def sights (host : Host τ) (settings : HistorySettings) :
    Scene τ → List (Deed τ) → List (Sight τ)
  | _, [] => []
  | s, d :: ds =>
    match s.perform host settings d with
    | none => []
    | some (answer, events, s) => ⟨answer, events, s.state⟩ :: sights host settings s ds

end Scene

/-! ## Logs that do not look at secrets -/

variable {τ : Type} {host : Host τ}

/-- A producer and a consumer that are made are the same, whatever the secrets among their settings. -/
structure Host.Discreet (host : Host τ) : Prop where
  producer : ∀ {c c' : ClientSettings}, c.Alike c' →
    host.createProducer c = host.createProducer c'
  consumer : ∀ {c c' : ClientSettings}, c.Alike c' →
    host.createConsumer c = host.createConsumer c'

theorem MemoryLog.discreet : MemoryLog.clients.host.Discreet := by
  refine ⟨fun _ => rfl, fun h => ?_⟩
  show World.onLog (MemoryLog.createConsumer _) = World.onLog (MemoryLog.createConsumer _)
  congr 1
  funext s
  rw [MemoryLog.createConsumer, MemoryLog.createConsumer, h.options]

theorem FileLog.discreet : FileLog.clients.host.Discreet := by
  refine ⟨fun _ => rfl, fun h => ?_⟩
  show World.onLog (FileLog.createConsumer _) = World.onLog (FileLog.createConsumer _)
  congr 1
  funext s
  rw [FileLog.createConsumer, FileLog.createConsumer, h.options]

/-- Others who act while a call waits see no more than the log. -/
theorem Host.Discreet.busy (h : host.Discreet) : host.busy.Discreet :=
  ⟨fun hc => congrArg Busy.onState (h.producer hc), fun hc => congrArg Busy.onState (h.consumer hc)⟩

/-! ## Histories with other secrets -/

namespace History

variable {settings : HistorySettings} {h : History}

/-- The history, had it been built from other settings. -/
def withSettings (settings : HistorySettings) (h : History) : History := { h with settings }

theorem describe_withSettings (ha : h.settings.Alike settings) :
    (h.withSettings settings).describe = h.describe := by
  rw [describe, describe, ha.topic, ha.servers]
  rfl

/-- A start hands the settings of the producer over, and nothing else looks at them. -/
theorem start_withSettings (hd : host.Discreet) (ha : h.settings.Alike settings) (s : τ) :
    (h.withSettings settings).start host s =
      ((h.start host s).1, (h.start host s).2.1.withSettings settings, (h.start host s).2.2) := by
  cases hp : h.producer with
  | some p => rw [start_again hp, start_again (h := h.withSettings settings) hp]
  | none =>
      have hcreate : host.createProducer settings.producer = host.createProducer h.settings.producer :=
        (hd.producer ha.producer).symm
      rw [start, start, hp, show (h.withSettings settings).producer = none from hp]
      dsimp only [withSettings]
      rw [hcreate]
      rcases host.createProducer h.settings.producer s with ⟨_ | _, _⟩ <;> rfl

theorem stop_withSettings (s : τ) :
    (h.withSettings settings).stop host s =
      ((h.stop host s).1, (h.stop host s).2.1.withSettings settings, (h.stop host s).2.2) := by
  cases hp : h.producer with
  | none => rw [stop_again hp, stop_again (h := h.withSettings settings) hp]
  | some p => rw [stop, stop, hp, show (h.withSettings settings).producer = some p from hp]; rfl

/-- A store looks at the topic only. -/
theorem store_withSettings (ha : h.settings.Alike settings) (r : Record) (s : τ) :
    (h.withSettings settings).store host r s = h.store host r s := by
  have hrequest : (h.withSettings settings).request r = h.request r := by
    rw [request, request, ha.topic]
    rfl
  rw [store, store, hrequest]
  rfl

/-- A recovery hands the settings of the consumer over, and itself looks at the topic and at how long
and how often it polls. -/
theorem recover_withSettings (hd : host.Discreet) (ha : h.settings.Alike settings) (limit : Nat)
    (s : τ) : (h.withSettings settings).recover host limit s = h.recover host limit s := by
  have hcreate : host.createConsumer settings.consumer = host.createConsumer h.settings.consumer :=
    (hd.consumer ha.consumer).symm
  have hsubscribe : (h.withSettings settings).subscribeEvent = h.subscribeEvent := by
    rw [subscribeEvent, subscribeEvent, ha.topic]
    rfl
  have hrecovered (summary : Summary) :
      (h.withSettings settings).recoveredEvent summary = h.recoveredEvent summary := by
    rw [recoveredEvent, recoveredEvent, ha.topic]
    rfl
  rw [recover, recover, hsubscribe, ha.topic, ha.pollInterval, ha.attempts]
  simp only [hrecovered]
  dsimp only [withSettings]
  rw [hcreate]

/-- What is reported when a history is built shows neither secret. -/
theorem makeEvents_alike {settings settings' : HistorySettings} (ha : settings.Alike settings') :
    makeEvents settings = makeEvents settings' := by
  rw [makeEvents, makeEvents, ha.consumer.masked, ha.producer.masked]

end History

/-! ## Runs with other secrets -/

namespace Scene

variable {settings settings' : HistorySettings} {s : Scene τ}

/-- The scene, had its histories been built from other settings. -/
def withSettings (settings : HistorySettings) (s : Scene τ) : Scene τ :=
  { s with histories := s.histories.map (History.withSettings settings) }

/-- All histories were built from the settings. -/
def BuiltFrom (settings : HistorySettings) (s : Scene τ) : Prop :=
  ∀ h ∈ s.histories, h.settings = settings

theorem BuiltFrom.set (hs : s.BuiltFrom settings) (state : τ) (i : Nat) {h : History}
    (hh : h.settings = settings) : BuiltFrom settings ⟨state, s.histories.set i h⟩ := by
  intro g hg
  rcases List.mem_or_eq_of_mem_set hg with hg | rfl
  · exact hs g hg
  · exact hh

/-- Histories keep the settings they were built from. -/
theorem BuiltFrom.perform (hs : s.BuiltFrom settings) {d : Deed τ} {answer : DeedAnswer}
    {events : List Event} {s' : Scene τ}
    (h : s.perform host settings d = some (answer, events, s')) : s'.BuiltFrom settings := by
  have hmem {i : Nat} {h : History} (hi : s.histories[i]? = some h) : h.settings = settings :=
    hs h (List.mem_of_getElem? hi)
  cases d with
  | build shutdown =>
      cases h
      intro g hg
      rcases List.mem_append.mp hg with hg | hg
      · exact hs g hg
      · rw [List.mem_singleton.mp hg]
        rfl
  | others act =>
      cases h
      exact hs
  | start i =>
      rw [Scene.perform] at h
      split at h
      · cases h
        exact hs
      · rename_i g hi
        cases h
        exact hs.set _ i ((History.start_settings host g s.state).trans (hmem hi))
  | stop i =>
      rw [Scene.perform] at h
      split at h
      · cases h
        exact hs
      · rename_i g hi
        cases h
        exact hs.set _ i ((History.stop_settings host g s.state).trans (hmem hi))
  | store i r =>
      rw [Scene.perform] at h
      split at h <;> (cases h; exact hs)
  | display i =>
      rw [Scene.perform] at h
      split at h <;> (cases h; exact hs)
  | recover i limit =>
      rw [Scene.perform] at h
      split at h
      · cases h
        exact hs
      · obtain ⟨_, -, hseen⟩ := Option.map_eq_some_iff.mp h
        cases hseen
        exact hs

/-- **What one deed is with other secrets**: the same is seen, and the same is left. -/
theorem perform_withSettings (hd : host.Discreet) (ha : settings.Alike settings')
    (hs : s.BuiltFrom settings) (d : Deed τ) :
    (s.withSettings settings').perform host settings' d =
      (s.perform host settings d).map fun seen =>
        (seen.1, seen.2.1, seen.2.2.withSettings settings') := by
  have hget (i : Nat) : (s.withSettings settings').histories[i]? =
      s.histories[i]?.map (History.withSettings settings') := List.getElem?_map
  have halike {i : Nat} {h : History} (hi : s.histories[i]? = some h) :
      h.settings.Alike settings' := by
    rw [hs h (List.mem_of_getElem? hi)]
    exact ha
  have hset (i : Nat) (h : History) :
      (s.withSettings settings').histories.set i (h.withSettings settings') =
        (s.histories.set i h).map (History.withSettings settings') := List.map_set.symm
  cases d with
  | build shutdown =>
      have hmade : (s.withSettings settings').histories ++ [History.make settings' shutdown] =
          (s.histories ++ [History.make settings shutdown]).map
            (History.withSettings settings') := by
        rw [List.map_append]
        rfl
      rw [Scene.perform, Scene.perform, History.makeEvents_alike ha, hmade]
      rfl
  | others act => rfl
  | start i =>
      rw [Scene.perform, Scene.perform, hget]
      cases hi : s.histories[i]? with
      | none => rfl
      | some h =>
          dsimp only [Option.map_some]
          rw [History.start_withSettings hd (halike hi)]
          dsimp only
          rw [hset]
          rfl
  | stop i =>
      rw [Scene.perform, Scene.perform, hget]
      cases hi : s.histories[i]? with
      | none => rfl
      | some h =>
          dsimp only [Option.map_some]
          rw [History.stop_withSettings]
          dsimp only
          rw [hset]
          rfl
  | store i r =>
      rw [Scene.perform, Scene.perform, hget]
      cases hi : s.histories[i]? with
      | none => rfl
      | some h =>
          dsimp only [Option.map_some]
          rw [History.store_withSettings (halike hi)]
          rfl
  | recover i limit =>
      rw [Scene.perform, Scene.perform, hget]
      cases hi : s.histories[i]? with
      | none => rfl
      | some h =>
          dsimp only [Option.map_some]
          rw [History.recover_withSettings hd (halike hi), Option.map_map]
          rfl
  | display i =>
      rw [Scene.perform, Scene.perform, hget]
      cases hi : s.histories[i]? with
      | none => rfl
      | some h =>
          dsimp only [Option.map_some]
          rw [History.describe_withSettings (halike hi)]

/-- So it is for a whole run. -/
theorem sights_withSettings (hd : host.Discreet) (ha : settings.Alike settings')
    (hs : s.BuiltFrom settings) (deeds : List (Deed τ)) :
    (s.withSettings settings').sights host settings' deeds = s.sights host settings deeds := by
  induction deeds generalizing s with
  | nil => rfl
  | cons d deeds ih =>
      rw [sights, sights, perform_withSettings hd ha hs]
      cases hperform : s.perform host settings d with
      | none => rfl
      | some seen =>
          obtain ⟨answer, events, s'⟩ := seen
          exact congrArg (List.cons _) (ih (hs.perform hperform))

/-- What is seen of the deeds around which there are no histories yet. -/
def ofState (state : τ) : Scene τ := ⟨state, []⟩

theorem sights_alike (hd : host.Discreet) (ha : settings.Alike settings') (state : τ)
    (deeds : List (Deed τ)) :
    (ofState state).sights host settings deeds = (ofState state).sights host settings' deeds :=
  (sights_withSettings (s := ofState state) hd ha (fun _ h => absurd h List.not_mem_nil) deeds).symm

end Scene

/--
**Secrets do not come out.** Two maps of properties with the same keys are accepted, name the
clients alike, and differ in nothing but values of the clients whose keys speak of passwords or
secrets. Then the settings of both clients are shown alike, and whatever is done with a log in memory
or in files and with histories built from the properties, everything that is seen is the same: all
events with their levels, texts and values, all answers and errors, and what is on the log after
each deed, its files included. That others act while a call waits changes nothing of this.
-/
theorem secrets_unseen {p q : Properties} {fresh fresh' : String}
    {settings settings' : HistorySettings} (h : HistorySettings.SecretsApart p q)
    (hp : HistorySettings.ofProperties p fresh = .ok settings)
    (hq : HistorySettings.ofProperties q fresh' = .ok settings')
    (hname : settings.name = settings'.name) :
    settings.consumer.masked = settings'.consumer.masked ∧
    settings.producer.masked = settings'.producer.masked ∧
    (∀ (log : World MemoryLog) deeds,
      (Scene.ofState log).sights MemoryLog.clients.host settings deeds =
        (Scene.ofState log).sights MemoryLog.clients.host settings' deeds) ∧
    (∀ (log : World FileLog) deeds,
      (Scene.ofState log).sights FileLog.clients.host settings deeds =
        (Scene.ofState log).sights FileLog.clients.host settings' deeds) ∧
    (∀ (log : Busy (World MemoryLog)) deeds,
      (Scene.ofState log).sights MemoryLog.clients.host.busy settings deeds =
        (Scene.ofState log).sights MemoryLog.clients.host.busy settings' deeds) ∧
    (∀ (log : Busy (World FileLog)) deeds,
      (Scene.ofState log).sights FileLog.clients.host.busy settings deeds =
        (Scene.ofState log).sights FileLog.clients.host.busy settings' deeds) := by
  have ha := h.accepted hp hq hname
  exact ⟨ha.consumer.masked, ha.producer.masked, Scene.sights_alike MemoryLog.discreet ha,
    Scene.sights_alike FileLog.discreet ha, Scene.sights_alike MemoryLog.discreet.busy ha,
    Scene.sights_alike FileLog.discreet.busy ha⟩

/-- Properties with a secret for each client. -/
def guardedProperties (secret : String) : Properties :=
  ((KeyMap.ofPairs [(HistorySettings.topicKey, "t"), (HistorySettings.serversKey, "b:9092"),
      (HistorySettings.nameKey, "n")]).insert
    (HistorySettings.consumerPrefix ++ "sasl.Password") secret).insert
    (HistorySettings.producerPrefix ++ "client-secret") secret

theorem secretsApart_guarded (secret other : String) :
    HistorySettings.SecretsApart (guardedProperties secret) (guardedProperties other) := by
  constructor
  · intro key
    rw [guardedProperties, guardedProperties, KeyMap.get?_insert, KeyMap.get?_insert,
      KeyMap.get?_insert, KeyMap.get?_insert]
    split
    · rfl
    split
    · rfl
    · rfl
  · intro key hne
    rw [guardedProperties, guardedProperties, KeyMap.get?_insert, KeyMap.get?_insert,
      KeyMap.get?_insert, KeyMap.get?_insert] at hne
    split at hne
    · rename_i hkey
      exact ⟨_, by decide, .inr hkey.symm⟩
    split at hne
    · rename_i hkey
      exact ⟨_, by decide, .inl hkey.symm⟩
    · exact absurd rfl hne

theorem accepted_guarded {secret : String} (h : secret = "abc" ∨ secret = "xyz") :
    ∃ settings, HistorySettings.ofProperties (guardedProperties secret) "" = .ok settings ∧
      settings.name = "n" ∧ settings.consumer.get? "sasl.Password" = some secret := by
  have hread : (HistorySettings.ofProperties (guardedProperties secret) "").toOption.map
      (fun settings => (settings.name, settings.consumer.get? "sasl.Password")) =
        some ("n", some secret) := by
    rcases h with rfl | rfl <;> decide +kernel
  cases haccepted : HistorySettings.ofProperties (guardedProperties secret) "" with
  | error problems =>
      rw [haccepted] at hread
      cases hread
  | ok settings =>
      rw [haccepted] at hread
      obtain ⟨hname, hsecret⟩ := Prod.mk.inj (Option.some.inj hread)
      exact ⟨settings, rfl, hname, hsecret⟩

theorem secrets_unseen_guarded :
    ∃ settings settings',
      HistorySettings.ofProperties (guardedProperties "abc") "" = .ok settings ∧
      HistorySettings.ofProperties (guardedProperties "xyz") "" = .ok settings' ∧
      settings.consumer.get? "sasl.Password" = some "abc" ∧
      settings'.consumer.get? "sasl.Password" = some "xyz" ∧
      settings.consumer.masked = settings'.consumer.masked ∧
      ∀ deeds, (Scene.ofState (World.ofLog MemoryLog.empty)).sights MemoryLog.clients.host settings
          (.build 0 :: .start 0 :: deeds) =
        (Scene.ofState (World.ofLog MemoryLog.empty)).sights MemoryLog.clients.host settings'
          (.build 0 :: .start 0 :: deeds) := by
  obtain ⟨settings, hp, hname, hsecret⟩ := accepted_guarded (.inl rfl)
  obtain ⟨settings', hq, hname', hsecret'⟩ := accepted_guarded (.inr rfl)
  obtain ⟨hconsumer, -, hmemory, -⟩ :=
    secrets_unseen (secretsApart_guarded "abc" "xyz") hp hq (hname.trans hname'.symm)
  exact ⟨settings, settings', hp, hq, hsecret, hsecret', hconsumer, fun deeds => hmemory _ _⟩

end SchemaHistory
