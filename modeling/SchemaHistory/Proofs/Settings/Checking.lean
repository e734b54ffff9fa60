import SchemaHistory.Proofs.Text.Value
import SchemaHistory.Settings.History

/-!
# Properties that are checked

Two properties of a history must say something and two others must count something, if they are
there. What they say and count is what stands between the blank around it. Each is checked by itself:
a problem with one of them changes nothing about the others, so all that is wrong is found, each once
and in the order of the checks, and what is not checked has no part in it.
-/

namespace SchemaHistory

open Text

/-- The property that has the problem. -/
def PropertyProblem.key : PropertyProblem → String
  | missing key => key
  | notACount key _ => key

namespace HistorySettings

variable {props other : Properties} {key fresh : String} {settings : HistorySettings}

/-! ## What the properties must be -/

/-- The property is there and is not blank; `text` stands between the blank around it. -/
def Says (props : Properties) (key text : String) : Prop :=
  text ≠ "" ∧ ∃ raw, props.get? key = some raw ∧ Trimmed raw.toList text.toList

/-- The text is a count between the blank around it, and not too large a one. -/
def IsCount (raw : String) (n : Nat) : Prop :=
  ∃ inner, Trimmed raw.toList inner ∧ IsNatural inner n ∧ n ≤ 2147483647

/-- The property counts so many; where it is absent, as many as the default. -/
inductive Counts (props : Properties) (key : String) (default : Nat) : Nat → Prop
  | absent (h : props.get? key = none) : Counts props key default default
  | given {raw : String} {n : Nat} (h : props.get? key = some raw) (count : IsCount raw n) :
    Counts props key default n

/-- What is wrong with some properties. -/
inductive Wrong (props : Properties) : PropertyProblem → Prop
  | missing {key : String} (mustSay : key = topicKey ∨ key = serversKey)
    (silent : ¬ ∃ text, Says props key text) : Wrong props (.missing key)
  | notACount {key raw : String} (mustCount : key = pollIntervalKey ∨ key = attemptsKey)
    (given : props.get? key = some raw) (uncounted : ¬ ∃ n, IsCount raw n) :
    Wrong props (.notACount key raw)

/-- The properties that are checked, in the order of the checks. -/
def checkedKeys : List String := [topicKey, serversKey, pollIntervalKey, attemptsKey]

/-! ## One check -/

theorem required_congr (h : props.get? key = other.get? key) :
    required props key = required other key := by
  rw [required, required, h]

theorem count_congr (h : props.get? key = other.get? key) (default : Nat) :
    count props key default = count other key default := by
  rw [count, count, h]

theorem required_eq_ok {text : String} :
    required props key = .ok text ↔ Says props key text := by
  rw [required, Says]
  cases props.get? key with
  | none => simp
  | some raw =>
      simp only [Option.some.injEq, exists_eq_left', trimmed_iff, Option.map_some]
      cases htrim : trimChars raw.toList with
      | nil =>
          refine ⟨fun h => (by cases h), fun h => ?_⟩
          exact absurd (String.toList_eq_nil_iff.mp h.2.symm) h.1
      | cons c cs =>
          rw [Except.ok.injEq, ← String.toList_inj, String.toList_ofList]
          refine ⟨fun h => ⟨?_, h⟩, fun h => h.2⟩
          rintro rfl
          cases h

theorem key_of_required {p : PropertyProblem} (h : required props key = .error p) :
    p = .missing key := by
  rw [required] at h
  split at h <;> cases h <;> rfl

theorem required_eq_error {p : PropertyProblem} : required props key = .error p ↔
    p = .missing key ∧ ¬ ∃ text, Says props key text := by
  simp only [← required_eq_ok]
  cases hcheck : required props key with
  | ok text => simp
  | error q => simp [key_of_required hcheck, eq_comm]

theorem isCount_iff {raw : String} {n : Nat} :
    IsCount raw n ↔ natural? maxCount (trimChars raw.toList) = some n := by
  rw [natural?_eq_some, IsCount]
  simp only [trimmed_iff, exists_eq_left']
  rfl

theorem count_eq_ok {default n : Nat} :
    count props key default = .ok n ↔ Counts props key default n := by
  rw [count]
  cases hget : props.get? key with
  | none =>
      refine ⟨fun h => ?_, fun h => ?_⟩
      · cases h
        exact .absent hget
      · cases h with
        | absent => rfl
        | given h => rw [hget] at h; cases h
  | some raw =>
      dsimp only
      refine ⟨fun h => ?_, fun h => ?_⟩
      · split at h
        · rename_i hread
          cases h
          exact .given hget (isCount_iff.mpr hread)
        · cases h
      · cases h with
        | absent h => rw [hget] at h; cases h
        | given h hcount =>
            rw [hget] at h
            cases h
            rw [isCount_iff.mp hcount]

theorem count_eq_error {default : Nat} {p : PropertyProblem} : count props key default = .error p ↔
    ∃ raw, props.get? key = some raw ∧ p = .notACount key raw ∧ ¬ ∃ n, IsCount raw n := by
  rw [count]
  cases props.get? key with
  | none => simp
  | some raw =>
      simp only [isCount_iff, Option.some.injEq, exists_eq_left']
      cases natural? maxCount (trimChars raw.toList) with
      | none => simp [eq_comm]
      | some n => simp

/-! ## All checks -/

theorem mem_problemOf {α : Type} {checked : Except PropertyProblem α} {p : PropertyProblem} :
    p ∈ problemOf checked ↔ checked = .error p := by
  cases checked with
  | ok a => simp [problemOf]
  | error q => simp [problemOf, eq_comm]

theorem problemOf_eq_nil {α : Type} {checked : Except PropertyProblem α} :
    problemOf checked = [] ↔ ∃ a, checked = .ok a := by
  cases checked with
  | ok a => simp [problemOf]
  | error q => simp [problemOf]

/-- A check that only finds problems with one property finds one at most. -/
theorem problemOf_key {α : Type} {checked : Except PropertyProblem α}
    (h : ∀ p, checked = .error p → p.key = key) :
    ((problemOf checked).map PropertyProblem.key).Sublist [key] := by
  cases checked with
  | ok a => exact List.nil_sublist _
  | error p => rw [problemOf, List.map_singleton, h p rfl]

/-- All that the checks find. -/
def problems (props : Properties) : List PropertyProblem :=
  problemOf (required props topicKey) ++ problemOf (required props serversKey) ++
    problemOf (count props pollIntervalKey defaultPollInterval) ++
    problemOf (count props attemptsKey defaultAttempts)

/-- **The checks find what is wrong**, and nothing else. -/
theorem mem_problems {p : PropertyProblem} : p ∈ problems props ↔ Wrong props p := by
  simp only [problems, List.mem_append, mem_problemOf, required_eq_error, count_eq_error]
  constructor
  · rintro (((⟨rfl, h⟩ | ⟨rfl, h⟩) | ⟨raw, hraw, rfl, h⟩) | ⟨raw, hraw, rfl, h⟩)
    · exact .missing (.inl rfl) h
    · exact .missing (.inr rfl) h
    · exact .notACount (.inl rfl) hraw h
    · exact .notACount (.inr rfl) hraw h
  · rintro (⟨rfl | rfl, h⟩ | ⟨rfl | rfl, hraw, h⟩)
    · exact .inl (.inl (.inl ⟨rfl, h⟩))
    · exact .inl (.inl (.inr ⟨rfl, h⟩))
    · exact .inl (.inr ⟨_, hraw, rfl, h⟩)
    · exact .inr ⟨_, hraw, rfl, h⟩

/-- They find it in their order, and of each property once. -/
theorem problems_keys (props : Properties) :
    ((problems props).map PropertyProblem.key).Sublist checkedKeys := by
  have hrequired : ∀ key, ((problemOf (required props key)).map PropertyProblem.key).Sublist [key] :=
    fun key => problemOf_key fun p hp => by rw [(required_eq_error.mp hp).1]; rfl
  have hcount : ∀ key default,
      ((problemOf (count props key default)).map PropertyProblem.key).Sublist [key] :=
    fun key default => problemOf_key fun p hp => by
      obtain ⟨raw, -, rfl, -⟩ := count_eq_error.mp hp
      rfl
  simp only [problems, List.map_append]
  exact (((hrequired _).append (hrequired _)).append (hcount _ _)).append (hcount _ _)

theorem problems_congr (h : ∀ key ∈ checkedKeys, other.get? key = props.get? key) :
    problems other = problems props := by
  simp only [problems, required_congr (h topicKey (by simp [checkedKeys])),
    required_congr (h serversKey (by simp [checkedKeys])),
    count_congr (h pollIntervalKey (by simp [checkedKeys])),
    count_congr (h attemptsKey (by simp [checkedKeys]))]

/-- Accepted properties passed the four checks. -/
theorem checked_of_ofProperties (h : ofProperties props fresh = .ok settings) :
    required props topicKey = .ok settings.topic ∧ required props serversKey = .ok settings.servers ∧
      count props pollIntervalKey defaultPollInterval = .ok settings.pollInterval ∧
      count props attemptsKey defaultAttempts = .ok settings.attempts := by
  rw [ofProperties] at h
  split at h
  · rename_i htopic hservers hinterval hattempts
    cases h
    exact ⟨htopic, hservers, hinterval, hattempts⟩
  · cases h

/-- Properties that pass the four checks are accepted. -/
theorem ofProperties_of_checked {topic servers : String} {interval attempts : Nat}
    (htopic : required props topicKey = .ok topic)
    (hservers : required props serversKey = .ok servers)
    (hinterval : count props pollIntervalKey defaultPollInterval = .ok interval)
    (hattempts : count props attemptsKey defaultAttempts = .ok attempts) (fresh : String) :
    ofProperties props fresh = .ok (assemble topic servers
      (effectiveName (props.get? nameKey) fresh) interval attempts props) := by
  rw [ofProperties, htopic, hservers, hinterval, hattempts]

/-- Properties are accepted if the checks find nothing. -/
theorem ofProperties_of_problems (h : problems props = []) (fresh : String) :
    ∃ settings, ofProperties props fresh = .ok settings := by
  simp only [problems, List.append_eq_nil_iff, problemOf_eq_nil] at h
  obtain ⟨⟨⟨⟨topic, htopic⟩, ⟨servers, hservers⟩⟩, ⟨interval, hinterval⟩⟩, ⟨attempts, hattempts⟩⟩ := h
  exact ⟨_, ofProperties_of_checked htopic hservers hinterval hattempts fresh⟩

theorem eq_problems {ps : List PropertyProblem} (h : ofProperties props fresh = .error ps) :
    ps = problems props := by
  rw [ofProperties] at h
  split at h <;> cases h
  rfl

theorem problems_eq_nil (h : ofProperties props fresh = .ok settings) : problems props = [] := by
  obtain ⟨htopic, hservers, hinterval, hattempts⟩ := checked_of_ofProperties h
  rw [problems, htopic, hservers, hinterval, hattempts]
  rfl

/-- Otherwise they are refused with all that the checks find. -/
theorem ofProperties_eq_error {ps : List PropertyProblem} :
    ofProperties props fresh = .error ps ↔ problems props ≠ [] ∧ ps = problems props := by
  refine ⟨fun h => ⟨fun hnone => ?_, eq_problems h⟩, ?_⟩
  · obtain ⟨settings, hsettings⟩ := ofProperties_of_problems hnone fresh
    rw [hsettings] at h
    cases h
  · rintro ⟨hsome, rfl⟩
    cases h : ofProperties props fresh with
    | ok settings => exact absurd (problems_eq_nil h) hsome
    | error ps => rw [eq_problems h]

/-- What is found is reported, and nothing else is. -/
theorem check_eq (props : Properties) (fresh : String) : check props fresh =
    (ofProperties props fresh, (problems props).map PropertyProblem.event) := by
  rw [check]
  cases h : ofProperties props fresh with
  | ok settings =>
      rw [problems_eq_nil h]
      rfl
  | error ps => rw [eq_problems h]

/--
**The check of properties.** Properties are accepted exactly if the topic and the servers are there
and not blank, and the wait and the number of attempts are each absent or, between the blank around
it, digits behind a plus sign or behind nothing, of 2147483647 at most. Then the settings hold what
stands between the blank and these numbers, or the defaults, and nothing is reported. Otherwise the
problems are all that is wrong, of each property one at most, in the order topic, servers, wait,
attempts, and each is reported as an error, in that order too. Other properties change nothing of it.
-/
theorem properties_checked (props : Properties) (fresh : String) :
    ((∃ settings events, check props fresh = (.ok settings, events)) ↔
      (∃ topic, Says props topicKey topic) ∧ (∃ servers, Says props serversKey servers) ∧
      (∃ n, Counts props pollIntervalKey 100 n) ∧ ∃ n, Counts props attemptsKey 4 n) ∧
    (∀ settings events, check props fresh = (.ok settings, events) →
      Says props topicKey settings.topic ∧ Says props serversKey settings.servers ∧
      Counts props pollIntervalKey 100 settings.pollInterval ∧
      Counts props attemptsKey 4 settings.attempts ∧ events = []) ∧
    (∀ ps events, check props fresh = (.error ps, events) →
      (∀ p, p ∈ ps ↔ Wrong props p) ∧
      (ps.map PropertyProblem.key).Sublist checkedKeys ∧
      events = ps.map fun p => ⟨.error, p.text, []⟩) ∧
    ∀ other fresh', (∀ key ∈ checkedKeys, other.get? key = props.get? key) →
      ∀ ps events, check other fresh' = (.error ps, events) ↔
        check props fresh = (.error ps, events) := by
  refine ⟨⟨?_, ?_⟩, fun settings events h => ?_, fun ps events h => ?_,
    fun other fresh' hsame ps events => ?_⟩
  · rintro ⟨settings, events, h⟩
    rw [check_eq, Prod.mk.injEq] at h
    obtain ⟨htopic, hservers, hinterval, hattempts⟩ := checked_of_ofProperties h.1
    exact ⟨⟨_, required_eq_ok.mp htopic⟩, ⟨_, required_eq_ok.mp hservers⟩,
      ⟨_, count_eq_ok.mp hinterval⟩, _, count_eq_ok.mp hattempts⟩
  · rintro ⟨⟨topic, htopic⟩, ⟨servers, hservers⟩, ⟨interval, hinterval⟩, attempts, hattempts⟩
    rw [check_eq, ofProperties_of_checked (required_eq_ok.mpr htopic) (required_eq_ok.mpr hservers)
      (count_eq_ok.mpr hinterval) (count_eq_ok.mpr hattempts)]
    exact ⟨_, _, rfl⟩
  · rw [check_eq, Prod.mk.injEq] at h
    obtain ⟨h, rfl⟩ := h
    obtain ⟨htopic, hservers, hinterval, hattempts⟩ := checked_of_ofProperties h
    rw [problems_eq_nil h]
    exact ⟨required_eq_ok.mp htopic, required_eq_ok.mp hservers, count_eq_ok.mp hinterval,
      count_eq_ok.mp hattempts, rfl⟩
  · rw [check_eq, Prod.mk.injEq] at h
    obtain ⟨h, rfl⟩ := h
    obtain rfl := eq_problems h
    exact ⟨fun p => mem_problems, problems_keys props, rfl⟩
  · rw [check_eq, check_eq, Prod.mk.injEq, Prod.mk.injEq, ofProperties_eq_error,
      ofProperties_eq_error, problems_congr hsame]

end HistorySettings

end SchemaHistory
