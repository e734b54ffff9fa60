import SchemaHistory.History

/-!
# Histories that share a log

Any number of histories may use one log. Each holds a producer between its start and its
stop, and no two hold the same one: a producer is new when it is taken and let go when it
is given back. That is why a history that was started can always append.
-/

namespace SchemaHistory

/-- Histories and the log they share. -/
structure Party (σ : Type) where
  world : World σ
  /-- The histories, in the order in which they were made. -/
  histories : List History

/-- What may happen besides appending and reading. -/
inductive Act
  | make (settings : HistorySettings) (shutdown : SignalId)
  | start (i : Nat)
  | stop (i : Nat)
  | raise (signal : SignalId)

namespace Party

variable {σ : Type}

/-- A log without histories. -/
def ofLog (log : σ) (signals : Registry Bool) : Party σ := ⟨⟨log, signals⟩, []⟩

/-- What is left after an act. Nobody acts for a history that was never made. -/
def act (c : LogClients σ) (p : Party σ) : Act → Party σ
  | .make settings shutdown => { p with histories := p.histories ++ [.make settings shutdown] }
  | .start i =>
    match p.histories[i]? with
    | none => p
    | some h => ⟨(h.start c.host p.world).2.2, p.histories.set i (h.start c.host p.world).2.1⟩
  | .stop i =>
    match p.histories[i]? with
    | none => p
    | some h => ⟨(h.stop c.host p.world).2.2, p.histories.set i (h.stop c.host p.world).2.1⟩
  | .raise signal => { p with world := p.world.raise signal }

end Party

/-- A record that was handed over waits for its answer behind the flush. -/
theorem History.store_handed {τ : Type} {host : Host τ} {h : History} {p : ProducerId} {r : Record}
    {s s' : τ} {ticket : Ticket} (hp : h.producer = some p)
    (hsend : host.send p (h.request r) s = (.ok ticket, s')) :
    (h.store host r s).1 =
        .ok (outcomeOf (host.await h.shutdown ticket (host.flush p s').2).1) ∧
      (h.store host r s).2.2 = (host.await h.shutdown ticket (host.flush p s').2).2 := by
  rw [History.store, hp]
  dsimp only
  rw [hsend]
  exact ⟨rfl, rfl⟩

theorem History.store_unstarted {τ : Type} {host : Host τ} {h : History} {r : Record} {s : τ}
    (hp : h.producer = none) : h.store host r s = (.error .notStarted, [], s) := by
  rw [History.store, hp]

/-- A history without a producer takes the one that it is given. -/
theorem History.start_taken {τ : Type} {host : Host τ} {h : History} {p : ProducerId} {s s' : τ}
    (hp : h.producer = none) (hcreate : host.createProducer h.settings.producer s = (.ok p, s')) :
    h.start host s = (.ok (), { h with producer := some p }, s') := by
  rw [History.start, hp]
  dsimp only
  rw [hcreate]

theorem History.start_again {τ : Type} {host : Host τ} {h : History} {p : ProducerId} {s : τ}
    (hp : h.producer = some p) : h.start host s = (.ok (), h, s) := by
  rw [History.start, hp]

/-- A history gives its producer back behind a flush. -/
theorem History.stop_given {τ : Type} {host : Host τ} {h : History} {p : ProducerId} {s : τ}
    (hp : h.producer = some p) : (h.stop host s).2 = ({ h with producer := none },
      host.dropProducer p (host.closeProducer p (host.flush p s).2).2) := by
  rw [History.stop, hp]

/-- Where nothing of this fails, the stop does not. -/
theorem History.stop_closed {τ : Type} {host : Host τ} {h : History} {p : ProducerId} {s s₁ s₂ : τ}
    (hp : h.producer = some p) (hflush : host.flush p s = (.ok (), s₁))
    (hclose : host.closeProducer p s₁ = (.ok (), s₂)) :
    h.stop host s = (.ok (), { h with producer := none }, host.dropProducer p s₂) := by
  simp only [History.stop, hp, hflush, hclose]

theorem History.stop_again {τ : Type} {host : Host τ} {h : History} {s : τ}
    (hp : h.producer = none) : h.stop host s = (.ok (), h, s) := by
  rw [History.stop, hp]

theorem History.isStarted_of_producer {h : History} {p : ProducerId} (hp : h.producer = some p) :
    h.isStarted = true := by
  rw [History.isStarted, hp]
  rfl

theorem History.isStarted_of_none {h : History} (hp : h.producer = none) : h.isStarted = false := by
  rw [History.isStarted, hp]
  rfl

/-- Settings stay with a history. -/
theorem History.start_settings {τ : Type} (host : Host τ) (h : History) (s : τ) :
    (h.start host s).2.1.settings = h.settings := by
  unfold History.start
  split
  · rfl
  split <;> rfl

theorem History.stop_settings {τ : Type} (host : Host τ) (h : History) (s : τ) :
    (h.stop host s).2.1.settings = h.settings := by
  unfold History.stop
  split <;> rfl

theorem settings_set {hs : List History} {i : Nat} {old new : History} (hi : hs[i]? = some old)
    (hsettings : new.settings = old.settings) :
    (hs.set i new).map History.settings = hs.map History.settings := by
  obtain ⟨hlt, hget⟩ := List.getElem?_eq_some_iff.mp hi
  rw [List.map_set, hsettings, ← hget, ← List.getElem_map History.settings (h := by simpa using hlt),
    List.set_getElem_self]

namespace Party

variable {σ : Type} {c : LogClients σ} {p : Party σ} {i : Nat} {h : History} {q : ProducerId}

/-- A history that is started already stays as it is. -/
theorem act_start_again (hi : p.histories[i]? = some h) (hp : h.producer = some q) :
    p.act c (.start i) = p := by
  obtain ⟨hlt, hget⟩ := List.getElem?_eq_some_iff.mp hi
  rw [act, hi]
  dsimp only
  rw [History.start_again hp]
  dsimp only
  rw [← hget, List.set_getElem_self hlt]

/-- A history that is not started stays as it is when it is stopped. -/
theorem act_stop_again (hi : p.histories[i]? = some h) (hp : h.producer = none) :
    p.act c (.stop i) = p := by
  obtain ⟨hlt, hget⟩ := List.getElem?_eq_some_iff.mp hi
  rw [act, hi]
  dsimp only
  rw [History.stop_again hp]
  dsimp only
  rw [← hget, List.set_getElem_self hlt]

/-- A start does nothing, unless there is a history that has no producer. -/
theorem act_start_cases (c : LogClients σ) (p : Party σ) (i : Nat) :
    (p.act c (.start i) = p ∧ ∀ h, p.histories[i]? = some h → h.isStarted = true) ∨
      ∃ h, p.histories[i]? = some h ∧ h.producer = none := by
  cases hi : p.histories[i]? with
  | none => exact .inl ⟨by rw [act, hi], fun h hh => by cases hh⟩
  | some h =>
      cases hp : h.producer with
      | none => exact .inr ⟨h, rfl, hp⟩
      | some q =>
          refine .inl ⟨act_start_again hi hp, ?_⟩
          rintro _ ⟨⟩
          exact History.isStarted_of_producer hp

/-- A stop does nothing, unless there is a history that has a producer. -/
theorem act_stop_cases (c : LogClients σ) (p : Party σ) (i : Nat) :
    (p.act c (.stop i) = p ∧ ∀ h, p.histories[i]? = some h → h.isStarted = false) ∨
      ∃ h q, p.histories[i]? = some h ∧ h.producer = some q := by
  cases hi : p.histories[i]? with
  | none => exact .inl ⟨by rw [act, hi], fun h hh => by cases hh⟩
  | some h =>
      cases hp : h.producer with
      | some q => exact .inr ⟨h, q, rfl, hp⟩
      | none =>
          refine .inl ⟨act_stop_again hi hp, ?_⟩
          rintro _ ⟨⟩
          exact History.isStarted_of_none hp

/-- The history takes the producer that the log makes. -/
theorem act_start {w : World σ} (hi : p.histories[i]? = some h) (hp : h.producer = none)
    (hcreate : c.host.createProducer h.settings.producer p.world = (.ok q, w)) :
    p.act c (.start i) = ⟨w, p.histories.set i { h with producer := some q }⟩ := by
  rw [act, hi]
  dsimp only
  rw [History.start_taken hp hcreate]

/-- The history gives its producer back. -/
theorem act_stop (hi : p.histories[i]? = some h) (hp : h.producer = some q) :
    p.act c (.stop i) =
      ⟨(h.stop c.host p.world).2.2, p.histories.set i { h with producer := none }⟩ := by
  rw [act, hi]
  dsimp only
  rw [History.stop_given hp]

end Party

/-! ## Histories on one topic -/

section OnTopic

variable {hs : List History} {topic : String}

theorem onTopic_make (hall : ∀ g ∈ hs, g.settings.topic = topic) {settings : HistorySettings}
    (shutdown : SignalId) (ht : settings.topic = topic) :
    ∀ g ∈ hs ++ [.make settings shutdown], g.settings.topic = topic := by
  intro g hg
  rcases List.mem_append.mp hg with hg | hg
  · exact hall g hg
  · rw [List.mem_singleton.mp hg]
    exact ht

theorem onTopic_set (hall : ∀ g ∈ hs, g.settings.topic = topic) {i : Nat} {old new : History}
    (hi : hs[i]? = some old) (hsettings : new.settings = old.settings) :
    ∀ g ∈ hs.set i new, g.settings.topic = topic := by
  intro g hg
  rcases List.mem_or_eq_of_mem_set hg with hg | rfl
  · exact hall g hg
  · rw [hsettings]
    exact hall old (List.mem_of_getElem? hi)

end OnTopic

/-! ## Who holds which producer -/

/-- The producer that a history holds. -/
def holder (hs : List History) (i : Nat) : Option ProducerId := hs[i]?.bind History.producer

/-- No producer is held twice, and every one that is held has the property `P`. -/
structure Held (hs : List History) (P : ProducerId → Prop) : Prop where
  /-- No producer is held twice. -/
  single : ∀ {i j p}, holder hs i = some p → holder hs j = some p → i = j
  /-- What is held has the property. -/
  holds : ∀ {i p}, holder hs i = some p → P p

theorem holder_eq {hs : List History} {i : Nat} {h : History} (hi : hs[i]? = some h) :
    holder hs i = h.producer := by
  rw [holder, hi]
  rfl

theorem held_nil (P : ProducerId → Prop) : Held [] P := by
  refine ⟨fun {i j p} h => ?_, fun {i p} h => ?_⟩
  · cases h
  · cases h

theorem holder_append_make {hs : List History} {settings : HistorySettings} {shutdown : SignalId}
    {i : Nat} {p : ProducerId} (h : holder (hs ++ [.make settings shutdown]) i = some p) :
    holder hs i = some p := by
  by_cases hi : i < hs.length
  · rwa [holder, List.getElem?_append_left hi] at h
  · rw [holder, List.getElem?_append_right (by omega)] at h
    -- a history that was just made holds nothing
    cases hk : i - hs.length with
    | zero =>
        rw [hk] at h
        cases h
    | succ k =>
        rw [hk] at h
        cases h

/-- Where nobody holds a producer, making a history changes nothing about it. -/
theorem holder_none_make {hs : List History} (h : ∀ i, holder hs i = none)
    (settings : HistorySettings) (shutdown : SignalId) (i : Nat) :
    holder (hs ++ [.make settings shutdown]) i = none := by
  cases hi : holder (hs ++ [.make settings shutdown]) i with
  | none => rfl
  | some p =>
      have := holder_append_make hi
      rw [h i] at this
      cases this

theorem held_of_none {hs : List History} (h : ∀ i, holder hs i = none) (P : ProducerId → Prop) :
    Held hs P := by
  refine ⟨fun {i j p} hi => ?_, fun {i p} hi => ?_⟩
  · rw [h i] at hi
    cases hi
  · rw [h i] at hi
    cases hi

theorem holder_set {hs : List History} {h : History} {i j : Nat} (hi : i < hs.length) :
    holder (hs.set i h) j = if i = j then h.producer else holder hs j := by
  rw [holder, List.getElem?_set]
  by_cases hij : i = j
  · rw [if_pos hij, if_pos hij, if_pos hi]
    rfl
  · rw [if_neg hij, if_neg hij]
    rfl

theorem started_pos {hs : List History} {i : Nat} {k : ProducerId} (h : holder hs i = some k) :
    0 < hs.countP History.isStarted := by
  obtain ⟨g, hg, hk⟩ := Option.bind_eq_some_iff.mp h
  exact List.countP_pos_iff.mpr ⟨g, List.mem_of_getElem? hg, History.isStarted_of_producer hk⟩

/-- If no two histories are started, there is one that can hold a producer. -/
theorem holder_unique {hs : List History} (hone : hs.countP History.isStarted ≤ 1) {i j : Nat}
    {k l : ProducerId} (hi : holder hs i = some k) (hj : holder hs j = some l) : i = j := by
  induction hs generalizing i j with
  | nil => cases hi
  | cons h hs ih =>
      rw [List.countP_cons] at hone
      -- the first history counts besides one that is behind it
      have hfirst : ∀ {a b n}, h.producer = some a → holder hs n = some b → False := by
        intro a b n ha hb
        have hrest := started_pos hb
        rw [History.isStarted_of_producer ha, if_pos rfl] at hone
        omega
      cases i with
      | zero =>
          cases j with
          | zero => rfl
          | succ j => exact (hfirst hi hj).elim
      | succ i =>
          cases j with
          | zero => exact (hfirst hj hi).elim
          | succ j => exact congrArg (· + 1) (ih (by omega) hi hj)

namespace Held

variable {hs : List History} {P Q : ProducerId → Prop}

theorem weaken (h : Held hs P) (hPQ : ∀ p, P p → Q p) : Held hs Q :=
  ⟨h.single, fun hp => hPQ _ (h.holds hp)⟩

theorem make (h : Held hs P) (settings : HistorySettings) (shutdown : SignalId) :
    Held (hs ++ [.make settings shutdown]) P :=
  ⟨fun hi hj => h.single (holder_append_make hi) (holder_append_make hj),
    fun hp => h.holds (holder_append_make hp)⟩

/-- A history takes a producer that nobody holds. -/
theorem take (h : Held hs P) {i : Nat} {new : History} {p : ProducerId} (hi : i < hs.length)
    (hp : new.producer = some p) (hfresh : ¬ P p) (hnew : Q p) (hPQ : ∀ q, P q → Q q) :
    Held (hs.set i new) Q := by
  refine ⟨fun {a b q} ha hb => ?_, fun {a q} ha => ?_⟩
  · rw [holder_set hi] at ha hb
    split at ha
    · rename_i hia
      split at hb
      · rename_i hib
        rw [← hia, ← hib]
      · rw [hp] at ha
        cases ha
        exact absurd (h.holds hb) hfresh
    · split at hb
      · rw [hp] at hb
        cases hb
        exact absurd (h.holds ha) hfresh
      · exact h.single ha hb
  · rw [holder_set hi] at ha
    split at ha
    · rw [hp] at ha
      cases ha
      exact hnew
    · exact hPQ q (h.holds ha)

/-- A history gives its producer back, and only that producer changes. -/
theorem release (h : Held hs P) {i : Nat} {new : History} {p : ProducerId} (hi : i < hs.length)
    (hold : holder hs i = some p) (hnone : new.producer = none) (hPQ : ∀ q, q ≠ p → P q → Q q) :
    Held (hs.set i new) Q := by
  -- whoever holds something now is another history, and held it before
  have hother : ∀ {a q}, holder (hs.set i new) a = some q → a ≠ i ∧ holder hs a = some q := by
    intro a q ha
    rw [holder_set hi] at ha
    split at ha
    · rw [hnone] at ha
      cases ha
    · rename_i hne
      exact ⟨fun he => hne he.symm, ha⟩
  refine ⟨fun ha hb => h.single (hother ha).2 (hother hb).2, fun {a q} ha => ?_⟩
  obtain ⟨hne, hq⟩ := hother ha
  refine hPQ q ?_ (h.holds hq)
  rintro rfl
  exact hne (h.single hq hold)

end Held

end SchemaHistory
