import SchemaHistory.Proofs.Replay

/-!
# When a replay stops

A replay keeps a countdown of the empty polls it still bears. Seen from outside it stops after
the first polls of which the last ones, as many as it has attempts, brought nothing. What ties
the two is the number of polls in a row that brought nothing up to now: while the replay goes
on, the countdown is the attempts less that number, whatever came before. A log is nothing here
but the stream of what its polls bring, so this holds of every log, and of a log that never
goes quiet it says that its replay has no end.
-/

namespace SchemaHistory

/-! ## The countdown -/

namespace Budget

/-- A budget after so many empty polls in a row. -/
def after (attempts quiet : Nat) : Budget :=
  ⟨attempts, if attempts ≤ quiet then .done else .active (attempts - quiet)⟩

theorem after_zero (attempts : Nat) : after attempts 0 = ofAttempts attempts := by
  rw [after, ofAttempts, full]
  cases attempts <;> rfl

theorem isDone_after {attempts quiet : Nat} :
    (after attempts quiet).isDone = true ↔ attempts ≤ quiet := by
  rw [isDone, after]
  by_cases h : attempts ≤ quiet
  · simp [h]
  · simp [h]

/-- One poll: an empty one is one more in the row, any other one restores the whole budget. -/
theorem observe_after {attempts quiet : Nat} (h : quiet < attempts) (polled : Nat) :
    (after attempts quiet).observe polled =
      if polled = 0 then after attempts (quiet + 1) else ofAttempts attempts := by
  have hstate : (after attempts quiet).state = .active (attempts - quiet) := if_neg (by omega)
  rw [observe, hstate]
  dsimp only
  by_cases hpolled : polled = 0
  · rw [if_pos hpolled, if_neg (by omega), after, after]
    by_cases hlast : attempts ≤ quiet + 1
    · rw [if_pos (by omega), if_pos hlast]
    · rw [if_neg (by omega), if_neg hlast, Nat.sub_sub]
  · rw [if_neg hpolled, if_pos (by omega)]
    rfl

end Budget

namespace Replay

/-! ## What polls bring, one after another -/

section Stream

variable (f : Nat → PollResult) {attempts : Nat}

/-- How many of the first `n` polls, counted from the last one back, brought nothing in a row. -/
def quietRun : Nat → Nat
  | 0 => 0
  | n + 1 => if entriesOf (f n) = [] then quietRun n + 1 else 0

/-- The last `attempts` of the first `n` polls brought nothing. -/
def QuietAfter (attempts n : Nat) : Prop :=
  attempts ≤ n ∧ ∀ i < n, n - attempts ≤ i → entriesOf (f i) = []

instance (attempts n : Nat) : Decidable (QuietAfter f attempts n) :=
  inferInstanceAs (Decidable (_ ∧ _))

/-- The window of the last polls and the run of empty ones say the same. -/
theorem quietAfter_iff (n : Nat) : QuietAfter f attempts n ↔ attempts ≤ quietRun f n := by
  induction n generalizing attempts with
  | zero => exact ⟨fun h => h.1, fun h => ⟨h, fun i hi => absurd hi (Nat.not_lt_zero i)⟩⟩
  | succ n ih =>
      rw [quietRun]
      cases attempts with
      | zero => exact ⟨fun _ => Nat.zero_le _, fun _ => ⟨Nat.zero_le _, fun i hi hi' => by omega⟩⟩
      | succ a =>
          by_cases hlast : entriesOf (f n) = []
          · -- the window that ends here is the one before with the last poll added
            rw [if_pos hlast, Nat.succ_le_succ_iff, ← ih]
            constructor
            · rintro ⟨hle, hquiet⟩
              exact ⟨by omega, fun i hi hi' => hquiet i (by omega) (by omega)⟩
            · rintro ⟨hle, hquiet⟩
              refine ⟨by omega, fun i hi hi' => ?_⟩
              rcases Nat.lt_succ_iff_lt_or_eq.mp hi with hbefore | rfl
              · exact hquiet i hbefore (by omega)
              · exact hlast
          · rw [if_neg hlast]
            constructor
            · rintro ⟨-, hquiet⟩
              exact absurd (hquiet n (by omega) (by omega)) hlast
            · intro h
              exact absurd h (by omega)

/-- The replay stops after `n` polls: only now have the last polls brought nothing. -/
structure StopsAfter (attempts n : Nat) : Prop where
  quiet : QuietAfter f attempts n
  first : ∀ k < n, ¬ QuietAfter f attempts k

/-- What the first `n` polls brought. -/
def brought (n : Nat) : List Entry := (List.range n).flatMap fun i => entriesOf (f i)

/-- A replay that has looked at the first `n` polls. -/
def seen (attempts : Nat) : Nat → Replay
  | 0 => begin attempts
  | n + 1 => (seen attempts n).observe (f n)

theorem seen_took (attempts n : Nat) :
    Took (begin attempts) (seen f attempts n) n (brought f n) := by
  induction n with
  | zero => exact Took.refl _
  | succ n ih =>
      rw [brought, List.range_succ, List.flatMap_append, List.flatMap_singleton]
      exact ih.trans (observe_took _ (f n)).1

/-- **The countdown of a replay that goes on** is its attempts less the empty polls in a row. -/
theorem budget_seen {n : Nat} (h : ∀ k < n, ¬ QuietAfter f attempts k) :
    (seen f attempts n).budget = .after attempts (quietRun f n) := by
  induction n with
  | zero => exact (Budget.after_zero attempts).symm
  | succ n ih =>
      have hactive : quietRun f n < attempts :=
        Nat.lt_of_not_le fun hle => h n (Nat.lt_succ_self n) ((quietAfter_iff f n).mpr hle)
      rw [seen, (observe_took _ (f n)).2, ih fun k hk => h k (Nat.lt_succ_of_lt hk),
        Budget.observe_after hactive, quietRun]
      simp only [List.length_eq_zero_iff]
      split
      · rfl
      · exact (Budget.after_zero attempts).symm

theorem isDone_seen {n : Nat} (h : ∀ k < n, ¬ QuietAfter f attempts k) :
    (seen f attempts n).budget.isDone = true ↔ QuietAfter f attempts n := by
  rw [budget_seen f h, Budget.isDone_after, quietAfter_iff]

/-- A poll that brings anything, record or not, restores the whole budget. -/
theorem budget_seen_restored {n : Nat} (h : ∀ k ≤ n, ¬ QuietAfter f attempts k)
    (hsome : entriesOf (f n) ≠ []) : (seen f attempts (n + 1)).budget = .ofAttempts attempts := by
  rw [budget_seen f fun k hk => h k (Nat.le_of_lt_succ hk), quietRun, if_neg hsome,
    Budget.after_zero]

end Stream

/-! ## The polls of a log -/

section Polls

variable (poll : τ → PollResult × τ) (s : τ) {attempts : Nat}

/-- The log after `n` polls. -/
def polled : Nat → τ
  | 0 => s
  | n + 1 => (poll (polled n)).2

/-- What the polls of a log bring. -/
def results (n : Nat) : PollResult := (poll (polled poll s n)).1

/-- Any stream is what the polls of some log bring. -/
theorem results_stream (f : Nat → PollResult) : results (fun i => (f i, i + 1)) 0 = f := by
  have hpolled : ∀ n, polled (fun i => (f i, i + 1)) 0 n = n := by
    intro n
    induction n with
    | zero => rfl
    | succ n ih => rw [polled, ih]
  funext n
  rw [results, hpolled]

/-- A replay that has not stopped before has looked at each of its first polls. -/
theorem drain_seen {n : Nat} (h : ∀ k < n, ¬ QuietAfter (results poll s) attempts k)
    (limit : Nat) :
    drain poll (n + limit) (begin attempts) s =
      drain poll limit (seen (results poll s) attempts n) (polled poll s n) := by
  induction n generalizing limit with
  | zero =>
      rw [Nat.zero_add]
      rfl
  | succ n ih =>
      have hbefore : ∀ k < n, ¬ QuietAfter (results poll s) attempts k :=
        fun k hk => h k (Nat.lt_succ_of_lt hk)
      have hactive : (seen (results poll s) attempts n).budget.isDone = false :=
        Bool.eq_false_iff.mpr fun hdone =>
          h n (Nat.lt_succ_self n) ((isDone_seen _ hbefore).mp hdone)
      rw [Nat.add_right_comm, Nat.add_assoc, ih hbefore, drain_step hactive]
      rfl

/-- There is no end before the polls have gone quiet. -/
theorem drain_unquiet {limit : Nat}
    (h : ∀ k ≤ limit, ¬ QuietAfter (results poll s) attempts k) :
    drain poll limit (begin attempts) s = none := by
  have hbefore : ∀ k < limit, ¬ QuietAfter (results poll s) attempts k :=
    fun k hk => h k (Nat.le_of_lt hk)
  have hactive : ¬ (seen (results poll s) attempts limit).budget.isDone = true :=
    fun hdone => h limit (Nat.le_refl limit) ((isDone_seen _ hbefore).mp hdone)
  have hseen := drain_seen poll s hbefore 0
  rw [Nat.add_zero] at hseen
  rw [hseen, drain, if_neg hactive]

/-- A replay stops as soon as the polls have gone quiet. -/
theorem drain_quietAfter {n : Nat} (h : StopsAfter (results poll s) attempts n) (limit : Nat) :
    drain poll limit (begin attempts) s =
      if n ≤ limit then some (seen (results poll s) attempts n, polled poll s n) else none := by
  by_cases hlimit : n ≤ limit
  · obtain ⟨more, rfl⟩ := Nat.exists_eq_add_of_le hlimit
    rw [if_pos hlimit, drain_seen poll s h.first, drain_done ((isDone_seen _ h.first).mpr h.quiet)]
  · rw [if_neg hlimit]
    exact drain_unquiet poll s fun k hk => h.first k (by omega)

/--
**A replay ends when the log has gone quiet.** It polls until the last polls, as many as it has
attempts, have brought nothing, and no further; if that never comes, it never ends. It then has
the records among all entries that the polls brought, in their order, and has counted the polls,
the entries, the records and the entries that are none. Until then every poll that brings
anything gives it its whole patience back, also if none of it is a record.
-/
theorem replay_until_quiet (attempts : Nat) :
    (∀ n, StopsAfter (results poll s) attempts n →
      ∃ r : Replay,
        r.records = recordsOf (brought (results poll s) n) ∧
        r.summary = ⟨n, (brought (results poll s) n).length,
          (recordsOf (brought (results poll s) n)).length,
          (brought (results poll s) n).length
            - (recordsOf (brought (results poll s) n)).length⟩ ∧
        ∀ limit, drain poll limit (begin attempts) s =
          if n ≤ limit then some (r, polled poll s n) else none) ∧
    ((∀ n, ¬ StopsAfter (results poll s) attempts n) →
      ∀ limit, drain poll limit (begin attempts) s = none) ∧
    (∀ n, (∀ k ≤ n, ¬ QuietAfter (results poll s) attempts k) →
      entriesOf (results poll s n) ≠ [] →
      ∃ r : Replay, r.budget = .ofAttempts attempts ∧
        ∀ limit, drain poll (n + 1 + limit) (begin attempts) s =
          drain poll limit r (polled poll s (n + 1))) := by
  refine ⟨fun n hstops => ?_, fun hnever limit => ?_, fun n hgoes hsome => ?_⟩
  · obtain ⟨hrecords, hsummary⟩ := seen_took (results poll s) attempts n
    refine ⟨seen (results poll s) attempts n, hrecords, ?_, drain_quietAfter poll s hstops⟩
    rw [hsummary]
    simp only [begin, Summary.plus, Nat.zero_add]
  · refine drain_unquiet poll s fun k _ hquiet => ?_
    -- were it quiet after some number of polls, it would be after a least one
    induction k using Nat.strongRecOn with
    | ind k ih => exact hnever k ⟨hquiet, fun j hj hj' => ih j hj (by omega) hj'⟩
  · exact ⟨seen (results poll s) attempts (n + 1), budget_seen_restored _ hgoes hsome,
      drain_seen poll s fun k hk => hgoes k (Nat.le_of_lt_succ hk)⟩

end Polls

/-- A record, a poll that fails, an entry that is no record, and then nothing any more. -/
def faltering : Nat → PollResult
  | 0 => .ok [⟨"t", 0, 0, none, "\x7b\x7d"⟩]
  | 1 => .error .closed
  | 2 => .ok [⟨"t", 0, 1, none, "[]"⟩]
  | _ => .ok []

/-- The entry that is no record gives a patience of two polls back, so there are five polls. -/
theorem replay_of_faltering :
    ∃ r : Replay, r.summary = ⟨5, 2, 1, 1⟩ ∧
      ∀ limit, drain (fun i => (faltering i, i + 1)) limit (begin 2) 0 =
        if 5 ≤ limit then some (r, polled (fun i => (faltering i, i + 1)) 0 5) else none := by
  have hstops : StopsAfter (results (fun i => (faltering i, i + 1)) 0) 2 5 := by
    rw [results_stream]
    exact ⟨by decide, by decide⟩
  obtain ⟨r, -, hsummary, hdrain⟩ := (replay_until_quiet _ 0 2).1 5 hstops
  refine ⟨r, ?_, hdrain⟩
  rw [hsummary, results_stream]
  decide +kernel

end Replay

end SchemaHistory
