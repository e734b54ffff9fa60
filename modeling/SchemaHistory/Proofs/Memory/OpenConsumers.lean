import SchemaHistory.Log.Scripted
import SchemaHistory.Proofs.ConsumerCalls
import SchemaHistory.Proofs.Memory.Calls

/-!
# The open consumers of a log in memory

A log in memory counts its consumers up when one is made and down when one is closed. A consumer
may be closed more than once, by hand and again when it is let go, and only the first time may
count. That holds since a consumer knows whether it was closed: those that were made and not
closed are at any time the ones that say they are open, and the count is their number.
-/

namespace SchemaHistory

/-- Neither a consumer is made by the call nor one is closed. -/
def MemoryCall.keepsOpen : MemoryCall → Bool
  | createConsumer _ | closeConsumer _ => false
  | _ => true

namespace MemoryLog

/-- The consumer is there and was not closed. -/
def IsOpen (s : MemoryLog) (k : ConsumerId) : Prop :=
  ∃ c, s.consumers.get? k = some c ∧ c.closed = false

/-- The consumers in `ks` are the open ones, and they are counted. -/
structure Counts (s : MemoryLog) (ks : List ConsumerId) : Prop where
  distinct : ks.Nodup
  isOpen : ∀ k, k ∈ ks ↔ s.IsOpen k
  count : s.openConsumers = ks.length

theorem counts_empty : empty.Counts [] :=
  ⟨.nil, fun k => ⟨nofun, fun ⟨_, hc, _⟩ => by cases hc⟩, rfl⟩

variable {s s' : MemoryLog} {ks : List ConsumerId} {k : ConsumerId}

theorem Counts.same (h : s.Counts ks) (hopen : ∀ k, s'.IsOpen k ↔ s.IsOpen k)
    (hcount : s'.openConsumers = s.openConsumers) : s'.Counts ks :=
  ⟨h.distinct, fun k => (h.isOpen k).trans (hopen k).symm, hcount.trans h.count⟩

/-! ## Making a consumer -/

theorem not_isOpen_size (s : MemoryLog) : ¬ s.IsOpen s.consumers.size := by
  rintro ⟨c, hc, -⟩
  rw [Registry.get?_size] at hc
  cases hc

theorem Counts.made (h : s.Counts ks) {settings : ClientSettings}
    (hcreate : s.createConsumer settings = (.ok k, s')) : k ∉ ks ∧ s'.Counts (ks ++ [k]) := by
  rw [createConsumer] at hcreate
  split at hcreate
  · cases hcreate
  · rename_i options hoptions
    cases hcreate
    have hnew : s.consumers.size ∉ ks := fun hk => s.not_isOpen_size ((h.isOpen _).mp hk)
    refine ⟨hnew, ?_, fun j => ?_, ?_⟩
    · exact List.nodup_append.mpr ⟨h.distinct, List.nodup_singleton _,
        fun j hj i hi => List.mem_singleton.mp hi ▸ fun hji => hnew (hji ▸ hj)⟩
    · rw [List.mem_append, List.mem_singleton, h.isOpen, IsOpen, IsOpen, Registry.get?_add]
      by_cases hj : j = s.consumers.size
      · subst hj
        rw [if_pos rfl]
        exact ⟨fun _ => ⟨_, rfl, rfl⟩, fun _ => .inr rfl⟩
      · rw [if_neg hj]
        exact ⟨fun hopen => hopen.resolve_right hj, .inl⟩
    · rw [List.length_append, ← h.count]
      rfl

theorem createConsumer_refused {settings : ClientSettings} {e : BrokerError}
    (hcreate : s.createConsumer settings = (.error e, s')) : s' = s := by
  rw [createConsumer] at hcreate
  split at hcreate
  · cases hcreate
    rfl
  · cases hcreate

/-! ## Closing one -/

/-- Closing counts only for a consumer that is open. -/
theorem Counts.closed (h : s.Counts ks) (k : ConsumerId) :
    (s.closeConsumer k).2.Counts (ks.erase k) := by
  by_cases hopen : s.IsOpen k
  · obtain ⟨c, hc, hnot⟩ := hopen
    have hmem : k ∈ ks := (h.isOpen k).mpr ⟨c, hc, hnot⟩
    rw [closeConsumer, hc]
    dsimp only
    rw [hnot, if_neg Bool.false_ne_true]
    refine ⟨h.distinct.erase k, fun j => ?_, ?_⟩
    · rw [h.distinct.mem_erase_iff, h.isOpen, IsOpen, IsOpen]
      dsimp only
      by_cases hj : k = j
      · subst hj
        rw [Registry.get?_set_self hc]
        constructor
        · exact fun hne => absurd rfl hne.1
        · rintro ⟨c', hsome, hfalse⟩
          cases hsome
          cases hfalse
      · rw [Registry.get?_set_other hj]
        exact ⟨And.right, fun hj' => ⟨Ne.symm hj, hj'⟩⟩
    · rw [List.length_erase_of_mem hmem, ← h.count]
  · -- nothing happens to a consumer that is closed, or not there
    have hsame : (s.closeConsumer k).2 = s := by
      rw [closeConsumer]
      split
      · rfl
      · rename_i c hc
        split
        · rfl
        · rename_i hnot
          exact absurd ⟨c, hc, Bool.eq_false_iff.mpr hnot⟩ hopen
    rw [hsame, List.erase_of_not_mem fun hk => hopen ((h.isOpen k).mp hk)]
    exact h

/-! ## All other calls -/

/-- A consumer that goes on reading is as open as it was. -/
theorem isOpen_set {c c' : MemoryConsumer} (hc : s.consumers.get? k = some c)
    (hs' : s'.consumers = s.consumers.set k c') (hclosed : c'.closed = c.closed)
    (j : ConsumerId) : s'.IsOpen j ↔ s.IsOpen j := by
  rw [IsOpen, IsOpen, hs']
  by_cases hj : k = j
  · subst hj
    rw [Registry.get?_set_self hc, hc]
    constructor
    · rintro ⟨d, hsome, hopen⟩
      cases hsome
      exact ⟨c, rfl, hclosed ▸ hopen⟩
    · rintro ⟨d, hsome, hopen⟩
      cases hsome
      exact ⟨c', rfl, hclosed.trans hopen⟩
  · rw [Registry.get?_set_other hj]

theorem Counts.subscribe (h : s.Counts ks) (k : ConsumerId) (topics : List String) :
    (s.subscribe k topics).2.Counts ks := by
  rw [MemoryLog.subscribe]
  split
  · exact h
  · rename_i c hc
    split
    · exact h
    · exact h.same (isOpen_set hc rfl rfl) rfl

theorem Counts.poll (h : s.Counts ks) (k : ConsumerId) : (s.poll k).2.Counts ks := by
  rw [MemoryLog.poll]
  split
  · exact h
  · rename_i c hc
    split
    · exact h
    · split
      · exact h
      · exact h.same (isOpen_set hc rfl rfl) rfl

/-- A call that is not of a consumer leaves their number as it is. -/
theorem openConsumers_call {c : MemoryCall} (h : c.ofConsumer = false) :
    (s.call c).openConsumers = s.openConsumers := by
  cases c with
  | send p request =>
      rw [call]
      rcases send_eq s p request with ⟨-, hsend⟩ | ⟨-, reason, -, hsend⟩ | ⟨-, -, hsend⟩
      · rw [hsend]
      · rw [hsend]
        rfl
      · rw [hsend]
        split
        · rfl
        · split <;> rfl
  | flush p => rw [call_flush]
  | createConsumer _ | subscribe _ _ | poll _ | closeConsumer _ => cases h
  | _ => rfl

theorem Counts.call (h : s.Counts ks) {c : MemoryCall} (hc : c.keepsOpen = true) :
    (s.call c).Counts ks := by
  cases hof : c.ofConsumer with
  | false =>
      refine h.same (fun k => ?_) (openConsumers_call hof)
      rw [IsOpen, IsOpen, consumers_call hof]
  | true =>
      cases c with
      | subscribe k topics => exact h.subscribe k topics
      | poll k => exact h.poll k
      | createConsumer _ | closeConsumer _ => cases hc
      | _ => cases hof

end MemoryLog

/-! ## Recoveries -/

/-- A recovery that ends has made no consumer, or has closed the one it made and let it go, behind
nothing but subscribing and polling. -/
theorem History.recover_scoped {τ : Type} {host : Host τ} {h : History} {limit : Nat} {s s' : τ}
    {result : Except HistoryError Recovery} {events : List Event}
    (hrec : h.recover host limit s = some (result, events, s')) :
    (∃ e, host.createConsumer h.settings.consumer s = (.error e, s')) ∨
      ∃ k s₁ s₂, host.createConsumer h.settings.consumer s = (.ok k, s₁) ∧
        (∀ P : τ → Prop, P s₁ → (∀ s, P s → P (host.subscribe k [h.settings.topic] s).2) →
          (∀ s, P s → P (host.poll k h.settings.pollInterval s).2) → P s₂) ∧
        s' = (closeScoped host k s₂).2 := by
  cases hcreate : host.createConsumer h.settings.consumer s with
  | mk created s₁ =>
      cases created with
      | error e =>
          rw [recover_refused hcreate] at hrec
          cases hrec
          exact .inl ⟨e, rfl⟩
      | ok k =>
          cases hsubscribe : host.subscribe k [h.settings.topic] s₁ with
          | mk told s₂ =>
              have htold (P : τ → Prop) (h₁ : P s₁)
                  (hkeep : ∀ s, P s → P (host.subscribe k [h.settings.topic] s).2) : P s₂ := by
                have := hkeep s₁ h₁
                rwa [hsubscribe] at this
              cases told with
              | error e =>
                  rw [recover_unsubscribed hcreate hsubscribe] at hrec
                  cases hrec
                  exact .inr ⟨k, s₁, s₂, rfl, fun P h₁ hkeep _ => htold P h₁ hkeep, rfl⟩
              | ok _ =>
                  cases hdrain : Replay.drain (host.poll k h.settings.pollInterval) limit
                      (.begin h.settings.attempts) s₂ with
                  | none =>
                      simp only [recover, hcreate, hsubscribe, hdrain] at hrec
                      cases hrec
                  | some x =>
                      obtain ⟨r, s₃⟩ := x
                      rw [recover_replayed hcreate hsubscribe hdrain] at hrec
                      cases hrec
                      exact .inr ⟨k, s₁, s₃, rfl, fun P h₁ hkeep hpoll =>
                        Replay.drain_preserves hpoll (htold P h₁ hkeep) hdrain, rfl⟩

theorem World.log_of_onLog {σ α : Type} {f : σ → α × σ} {w w' : World σ} {a : α}
    (h : World.onLog f w = (a, w')) : f w.log = (a, w'.log) := by
  obtain ⟨ha, hw⟩ := Prod.mk.inj h
  rw [← ha, ← hw]

namespace MemoryLog

variable {s : MemoryLog} {ks : List ConsumerId}

/-- **A recovery leaves the open consumers as they were**: its own is closed behind it. -/
theorem Counts.recover (h : s.Counts ks) {history : History} {limit : Nat} {signals : Registry Bool}
    {result : Except HistoryError Recovery} {events : List Event} {w : World MemoryLog}
    (hrec : history.recover clients.host limit ⟨s, signals⟩ = some (result, events, w)) :
    w.log.Counts ks := by
  rcases History.recover_scoped hrec with ⟨e, hrefused⟩ | ⟨k, w₁, w₂, hcreate, hreach, rfl⟩
  · exact createConsumer_refused (World.log_of_onLog hrefused) ▸ h
  · obtain ⟨hnew, hcounts⟩ := h.made (World.log_of_onLog hcreate)
    have hopen : w₂.log.Counts (ks ++ [k]) :=
      hreach (fun w => w.log.Counts (ks ++ [k])) hcounts (fun w hw => hw.subscribe k _)
        (fun w hw => hw.poll k)
    -- closing the consumer takes it from the list, and letting it go finds it gone
    have hgone := (hopen.closed k).closed k
    rwa [List.erase_append_right _ hnew, List.erase_cons_head, List.append_nil,
      List.erase_of_not_mem hnew] at hgone

/-- A log that was brought here by calls, and the consumers that were made since and neither closed
nor let go. -/
inductive Reached : MemoryLog → List ConsumerId → Prop
  | start : Reached empty []
  | made {s s' : MemoryLog} {ks : List ConsumerId} {settings : ClientSettings} {k : ConsumerId}
      (h : Reached s ks) (hcreate : s.createConsumer settings = (.ok k, s')) :
      Reached s' (ks ++ [k])
  | refused {s s' : MemoryLog} {ks : List ConsumerId} {settings : ClientSettings} {e : BrokerError}
      (h : Reached s ks) (hcreate : s.createConsumer settings = (.error e, s')) : Reached s' ks
  /-- A consumer is closed by hand, maybe again. -/
  | closed {s : MemoryLog} {ks : List ConsumerId} (h : Reached s ks) (k : ConsumerId) :
      Reached (s.closeConsumer k).2 (ks.erase k)
  /-- A consumer is let go, closed or not. -/
  | dropped {s : MemoryLog} {ks : List ConsumerId} (h : Reached s ks) (k : ConsumerId) :
      Reached (clients.dropConsumer k s) (ks.erase k)
  | recovered {s : MemoryLog} {ks : List ConsumerId} {history : History} {limit : Nat}
      {signals : Registry Bool} {result : Except HistoryError Recovery} {events : List Event}
      {w : World MemoryLog} (h : Reached s ks)
      (hrec : history.recover clients.host limit ⟨s, signals⟩ = some (result, events, w)) :
      Reached w.log ks
  /-- Anything else that is asked of the log. -/
  | called {s : MemoryLog} {ks : List ConsumerId} (h : Reached s ks) {c : MemoryCall}
      (hc : c.keepsOpen = true) : Reached (s.call c) ks

/-- The open consumers are counted at any time. -/
theorem Reached.counts (h : Reached s ks) : s.Counts ks := by
  induction h with
  | start => exact counts_empty
  | made _ hcreate ih => exact (ih.made hcreate).2
  | refused _ hcreate ih => exact createConsumer_refused hcreate ▸ ih
  | closed _ k ih => exact ih.closed k
  | dropped _ k ih => exact ih.closed k
  | recovered _ hrec ih => exact ih.recover hrec
  | called _ hc ih => exact ih.call hc

end MemoryLog

/--
**The life of a recovery's consumer.** Whatever a log answers, as long as its polls go quiet: a
recovery makes one consumer and asks for nothing else when that fails; else it subscribes the
consumer once, to its topic, and polls it only if that succeeds. It fails only if one of these two
does. Behind all of this the consumer is closed once and let go. A closing that succeeds is not
reported; one that fails adds one event, which tells why, and changes nothing else. A log in memory
counts, after any calls and recoveries, the consumers that were made and neither closed nor let go.
-/
theorem recovery_lifecycle :
    (∀ {τ : Type} (host : Host τ) (h : History) (limit : Nat) (s : τ),
      History.GoesQuiet host h limit s →
      ∃ asked made result events s', History.Goes host h limit s asked made result events s') ∧
    ∀ s ks, MemoryLog.Reached s ks → s.openConsumers = ks.length ∧ ks.Nodup :=
  ⟨History.goes, fun _ _ h => ⟨h.counts.count, h.counts.distinct⟩⟩

/-- A history that bears one empty poll. -/
def briefHistory : History := .make ⟨"t", "b:9092", "h", 1, 1, .empty, .empty⟩ 0

/-- A log whose consumers cannot be closed. -/
def stuckLog : World ScriptedLog :=
  .ofLog (.ofScript { Script.empty with closeConsumer := [some .closed] })

theorem goesQuiet_stuckLog :
    History.GoesQuiet ScriptedLog.clients.host briefHistory 1 stuckLog := by
  rintro k s₁ s₂ ⟨⟩ ⟨⟩
  exact ⟨1, Nat.le_refl 1, by decide, by decide⟩

/-- Of two consumers the first is closed and then let go, and a recovery makes a third. -/
theorem reached_second : ∃ s, MemoryLog.Reached s [1] := by
  have hfirst : MemoryLog.Reached _ [0] := .made .start
    (show MemoryLog.createConsumer .empty .empty = (.ok 0, _) from rfl)
  have hsecond : MemoryLog.Reached _ [0, 1] := .made hfirst
    (show MemoryLog.createConsumer .empty _ = (.ok 1, _) from rfl)
  exact ⟨_, ((hsecond.closed 0).dropped 0).recovered
    (show briefHistory.recover MemoryLog.clients.host 1 ⟨_, .empty⟩ = some _ from rfl)⟩

/-- The log as it would be if its consumers could be closed. -/
def freedHost : Host (World ScriptedLog) :=
  ScriptedLog.clients.host.withClose fun _ w => (.ok (), w)

/-- The recovery from the log whose consumers cannot be closed reports what it would report if they
could, and then one event that tells why; its result is the same. -/
theorem recovery_lifecycle_stuckLog :
    History.GoesQuiet ScriptedLog.clients.host briefHistory 1 stuckLog ∧
    (∃ asked made result events s', History.Goes ScriptedLog.clients.host briefHistory 1 stuckLog
        asked made result events s' ∧
      (∃ w, briefHistory.recover freedHost 1 stuckLog = some (result, events, w)) ∧
      ∃ w, briefHistory.recover ScriptedLog.clients.host 1 stuckLog = some (result, events ++
        [⟨.warn, "failed to close history consumer", [("error", "client is closed")]⟩], w)) ∧
    ∃ s, MemoryLog.Reached s [1] ∧ s.openConsumers = 1 := by
  obtain ⟨s, hreached⟩ := reached_second
  refine ⟨goesQuiet_stuckLog, ?_, s, hreached, (recovery_lifecycle.2 s [1] hreached).1⟩
  obtain ⟨asked, made, result, events, s', hgoes⟩ :=
    recovery_lifecycle.1 _ _ _ _ goesQuiet_stuckLog
  obtain ⟨_, closing, w, hgone, hfreed, -⟩ := hgoes.recovers fun _ w => (.ok (), w)
  obtain ⟨_, closing', w', -, hstuck, -⟩ := hgoes.recovers ScriptedLog.clients.host.closeConsumer
  -- a consumer that closes adds nothing
  obtain rfl : closing = [] := by
    cases hgone with
    | nothing | closed => rfl
    | failed hclose => cases hclose
  rw [List.append_nil] at hfreed
  -- and the two recoveries differ in the last event
  have hevents : (briefHistory.recover ScriptedLog.clients.host 1 stuckLog).map (·.2.1) =
      (briefHistory.recover freedHost 1 stuckLog).map (·.2.1 ++
        [⟨.warn, "failed to close history consumer", [("error", "client is closed")]⟩]) := rfl
  have hstuck : briefHistory.recover ScriptedLog.clients.host 1 stuckLog = _ := hstuck
  have hfreed : briefHistory.recover freedHost 1 stuckLog = _ := hfreed
  rw [hstuck, hfreed] at hevents
  have hlast : events ++ closing' = events ++ _ := Option.some.inj hevents
  rw [hlast] at hstuck
  exact ⟨asked, made, result, events, s', hgoes, ⟨w, hfreed⟩, w', hstuck⟩

end SchemaHistory
