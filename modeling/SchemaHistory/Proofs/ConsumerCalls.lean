import SchemaHistory.Proofs.Overheard
import SchemaHistory.Proofs.Quiescence

/-!
# The life of a recovery's consumer

A recovery makes one consumer and is the only one to use it. However it ends, the way there is
one of three: no consumer is made; one is made and cannot be subscribed; or one is subscribed and
polled until the topic is quiet. What comes behind is the same in the last two: the consumer is
closed once and let go. If it cannot be closed one event tells of it, and that is all that tells
this recovery from one whose consumer closes.
-/

namespace SchemaHistory

/-- What polls recover, by what they brought. -/
def Recovery.ofPolls (polls : List PollResult) : Recovery :=
  let entries := polls.flatMap Replay.entriesOf
  ⟨recordsOf entries, ⟨polls.length, entries.length, (recordsOf entries).length,
    entries.length - (recordsOf entries).length⟩⟩

/-- What a recovery asks of the log until it lets its consumer go, the consumer that was made, and
what the recovery gives. -/
inductive Recovering (settings : HistorySettings) :
    List Exchange → Option ConsumerId → Except HistoryError Recovery → Prop
  /-- Without a consumer nothing else is asked. -/
  | refused (e : BrokerError) : Recovering settings
      [.createConsumer settings.consumer (.error e)] none (.error (.broker e))
  /-- A consumer that cannot be subscribed is not polled. -/
  | unsubscribed (k : ConsumerId) (e : BrokerError) : Recovering settings
      [.createConsumer settings.consumer (.ok k), .subscribe k [settings.topic] (.error e)] (some k)
      (.error (.broker e))
  /-- A consumer that is subscribed is polled, and that cannot fail. -/
  | replayed (k : ConsumerId) (polls : List PollResult) : Recovering settings
      (.createConsumer settings.consumer (.ok k) :: .subscribe k [settings.topic] (.ok ()) ::
        polls.map (.poll k settings.pollInterval)) (some k)
      (.ok (.ofPolls polls))

namespace History

variable {τ : Type} {host : Host τ} {h : History} {limit : Nat} {k : ConsumerId} {s s₁ s₂ s₃ : τ}

/-! ## The ways of a recovery -/

theorem recover_unsubscribed {e : BrokerError}
    (hcreate : host.createConsumer h.settings.consumer s = (.ok k, s₁))
    (hsubscribe : host.subscribe k [h.settings.topic] s₁ = (.error e, s₂)) :
    h.recover host limit s = some (.error (.broker e),
      h.subscribeEvent :: (closeScoped host k s₂).1, (closeScoped host k s₂).2) := by
  rw [recover, hcreate]
  dsimp only
  rw [hsubscribe]

theorem recover_replayed {r : Replay}
    (hcreate : host.createConsumer h.settings.consumer s = (.ok k, s₁))
    (hsubscribe : host.subscribe k [h.settings.topic] s₁ = (.ok (), s₂))
    (hdrain : Replay.drain (host.poll k h.settings.pollInterval) limit (.begin h.settings.attempts)
      s₂ = some (r, s₃)) :
    h.recover host limit s = some (.ok ⟨r.records, r.summary⟩,
      h.subscribeEvent :: (r.events ++ h.recoveredEvent r.summary :: (closeScoped host k s₃).1),
      (closeScoped host k s₃).2) := by
  rw [recover, hcreate]
  dsimp only
  rw [hsubscribe]
  dsimp only
  rw [hdrain]

end History

namespace Replay

variable {τ : Type} (poll : τ → PollResult × τ) (exchange : PollResult → Exchange)

/-- Polls that are overheard bring the same and are heard one after another. -/
theorem polled_overheard (s : τ) (heard : List Exchange) (n : Nat) :
    polled (Overheard.call poll exchange) ⟨s, heard⟩ n =
      ⟨polled poll s n, heard ++ ((List.range n).map (results poll s)).map exchange⟩ := by
  induction n with
  | zero => rw [List.range_zero, List.map_nil, List.map_nil, List.append_nil, polled, polled]
  | succ n ih =>
      rw [polled, ih, Overheard.call, List.range_succ, List.map_append, List.map_append,
        ← List.append_assoc]
      rfl

theorem results_overheard (s : τ) (heard : List Exchange) :
    results (Overheard.call poll exchange) ⟨s, heard⟩ = results poll s := by
  funext n
  rw [results, polled_overheard, Overheard.call, results]

/-- A replay of a log that goes quiet, and the same when it is overheard. -/
theorem drain_overheard {s : τ} {attempts n limit : Nat}
    (hstops : StopsAfter (results poll s) attempts n) (hlimit : n ≤ limit) :
    ∃ r, (⟨r.records, r.summary⟩ : Recovery) = .ofPolls ((List.range n).map (results poll s)) ∧
      drain poll limit (begin attempts) s = some (r, polled poll s n) ∧
      ∀ heard, drain (Overheard.call poll exchange) limit (begin attempts) ⟨s, heard⟩ =
        some (r, ⟨polled poll s n,
          heard ++ ((List.range n).map (results poll s)).map exchange⟩) := by
  refine ⟨seen (results poll s) attempts n, ?_, ?_, fun heard => ?_⟩
  · obtain ⟨hrecords, hsummary⟩ := seen_took (results poll s) attempts n
    rw [hrecords, hsummary, Recovery.ofPolls, List.flatMap_map, List.length_map, List.length_range]
    simp [begin, Summary.plus, brought]
  · rw [drain_quietAfter poll s hstops, if_pos hlimit]
  · have hheard : StopsAfter (results (Overheard.call poll exchange) ⟨s, heard⟩) attempts n := by
      rw [results_overheard]
      exact hstops
    rw [drain_quietAfter _ _ hheard, if_pos hlimit, results_overheard, polled_overheard]

end Replay

/-! ## What comes behind -/

namespace History

variable {τ : Type}

/-- How a recovery lets its consumer go, if it made one: what this asks of the log, what is reported
of it, and the log behind it. -/
inductive LettingGo (host : Host τ) :
    Option ConsumerId → τ → List Exchange → List Event → τ → Prop
  /-- There is no consumer. -/
  | nothing (s : τ) : LettingGo host none s [] [] s
  /-- A consumer that is closed is not worth an event. -/
  | closed {k : ConsumerId} {s s' : τ} (hclose : host.closeConsumer k s = (.ok (), s')) :
      LettingGo host (some k) s [.closeConsumer k (.ok ()), .dropConsumer k] []
        (host.dropConsumer k s')
  /-- Of one that cannot be closed a single event tells why. -/
  | failed {k : ConsumerId} {e : BrokerError} {s s' : τ}
      (hclose : host.closeConsumer k s = (.error e, s')) :
      LettingGo host (some k) s [.closeConsumer k (.error e), .dropConsumer k]
        [⟨.warn, "failed to close history consumer", [("error", e.message)]⟩]
        (host.dropConsumer k s')

/-- A consumer that goes out of scope is let go so, also when this is overheard. -/
theorem closeScoped_lettingGo (host : Host τ) (k : ConsumerId) (s : τ) : ∃ asked,
    LettingGo host (some k) s asked (closeScoped host k s).1 (closeScoped host k s).2 ∧
      ∀ heard, closeScoped host.overheard k ⟨s, heard⟩ =
        ((closeScoped host k s).1, ⟨(closeScoped host k s).2, heard ++ asked⟩) := by
  cases hclose : host.closeConsumer k s with
  | mk closed s' =>
      have hscoped : closeScoped host k s = (closeEvents closed, host.dropConsumer k s') := by
        rw [closeScoped, hclose]
      refine ⟨[.closeConsumer k closed, .dropConsumer k], ?_, fun heard => ?_⟩
      · rw [hscoped]
        cases closed with
        | ok _ => exact .closed hclose
        | error e => exact .failed hclose
      · have hheard : host.overheard.closeConsumer k ⟨s, heard⟩ = _ :=
          Overheard.call_eq hclose (.closeConsumer k) heard
        rw [hscoped, closeScoped, hheard]
        show (closeEvents closed, Overheard.mk _ (heard ++ [_] ++ [_])) = _
        rw [List.append_assoc]
        rfl

/-- The polls of a recovery that comes so far go quiet early enough for it to end. -/
def GoesQuiet (host : Host τ) (h : History) (limit : Nat) (s : τ) : Prop :=
  ∀ k s₁ s₂, host.createConsumer h.settings.consumer s = (.ok k, s₁) →
    host.subscribe k [h.settings.topic] s₁ = (.ok (), s₂) →
    ∃ n ≤ limit, Replay.StopsAfter (Replay.results (host.poll k h.settings.pollInterval) s₂)
      h.settings.attempts n

end History

/-- A host whose consumers close in another way. -/
def Host.withClose {τ : Type} (host : Host τ)
    (close : ConsumerId → τ → Except BrokerError Unit × τ) : Host τ :=
  { host with closeConsumer := close }

/-- A recovery that gives this result and reports these events, and the same when it is overheard. -/
structure History.RecoversAs {τ : Type} (host : Host τ) (h : History) (limit : Nat) (s : τ)
    (asked : List Exchange) (result : Except HistoryError Recovery) (events : List Event) (s' : τ) :
    Prop where
  plain : h.recover host limit s = some (result, events, s')
  overheard : h.recover host.overheard limit ⟨s, []⟩ = some (result, events, ⟨s', asked⟩)

namespace History

variable {τ : Type}

/-- A recovery that goes this way, however its consumer closes: up to a state of the log it asks
what it asks, reports what it reports and has its result; then the consumer is let go, which adds
what it asks and reports but leaves the result. -/
structure Goes (host : Host τ) (h : History) (limit : Nat) (s : τ) (asked : List Exchange)
    (made : Option ConsumerId) (result : Except HistoryError Recovery) (events : List Event)
    (s' : τ) : Prop where
  recovering : Recovering h.settings asked made result
  /-- Without a consumer nothing is reported. -/
  silent : made = none → events = []
  recovers : ∀ close, ∃ behind closing s'',
    LettingGo (host.withClose close) made s' behind closing s'' ∧
    RecoversAs (host.withClose close) h limit s (asked ++ behind) result (events ++ closing) s''

variable {host : Host τ} {h : History} {limit : Nat} {k : ConsumerId} {s s₁ s₂ : τ}

theorem goes_refused {e : BrokerError}
    (hcreate : host.createConsumer h.settings.consumer s = (.error e, s₁)) :
    Goes host h limit s [.createConsumer h.settings.consumer (.error e)] none (.error (.broker e))
      [] s₁ := by
  refine ⟨.refused e, fun _ => rfl, fun close => ?_⟩
  have hmade : (host.withClose close).createConsumer h.settings.consumer s = _ := hcreate
  have hheard : (host.withClose close).overheard.createConsumer h.settings.consumer ⟨s, []⟩ = _ :=
    Overheard.call_eq hmade (.createConsumer h.settings.consumer) []
  exact ⟨[], [], s₁, .nothing s₁, recover_refused hmade, recover_refused hheard⟩

section Made

variable (hcreate : host.createConsumer h.settings.consumer s = (.ok k, s₁))

include hcreate

theorem goes_unsubscribed {e : BrokerError}
    (hsubscribe : host.subscribe k [h.settings.topic] s₁ = (.error e, s₂)) :
    Goes host h limit s
      [.createConsumer h.settings.consumer (.ok k), .subscribe k [h.settings.topic] (.error e)]
      (some k) (.error (.broker e)) [h.subscribeEvent] s₂ := by
  refine ⟨.unsubscribed k e, nofun, fun close => ?_⟩
  have hmade : (host.withClose close).createConsumer h.settings.consumer s = _ := hcreate
  have hheard : (host.withClose close).overheard.createConsumer h.settings.consumer ⟨s, []⟩ = _ :=
    Overheard.call_eq hmade (.createConsumer h.settings.consumer) []
  have htold : (host.withClose close).subscribe k [h.settings.topic] s₁ = _ := hsubscribe
  obtain ⟨behind, hgone, hgoes⟩ := closeScoped_lettingGo (host.withClose close) k s₂
  refine ⟨behind, _, _, hgone, recover_unsubscribed hmade htold, ?_⟩
  rw [recover_unsubscribed hheard (Overheard.call_eq htold (.subscribe k [h.settings.topic]) _),
    hgoes]
  rfl

theorem goes_replayed {n : Nat}
    (hsubscribe : host.subscribe k [h.settings.topic] s₁ = (.ok (), s₂))
    (hstops : Replay.StopsAfter (Replay.results (host.poll k h.settings.pollInterval) s₂)
      h.settings.attempts n) (hlimit : n ≤ limit) :
    ∃ asked result events s', Goes host h limit s asked (some k) result events s' := by
  obtain ⟨r, hrecovered, hdrain, hdrains⟩ := Replay.drain_overheard
    (host.poll k h.settings.pollInterval) (.poll k h.settings.pollInterval) hstops hlimit
  refine ⟨_, _, h.subscribeEvent :: (r.events ++ [h.recoveredEvent r.summary]),
    Replay.polled (host.poll k h.settings.pollInterval) s₂ n,
    .replayed k ((List.range n).map (Replay.results (host.poll k h.settings.pollInterval) s₂)),
    nofun, fun close => ?_⟩
  have hmade : (host.withClose close).createConsumer h.settings.consumer s = _ := hcreate
  have hheard : (host.withClose close).overheard.createConsumer h.settings.consumer ⟨s, []⟩ = _ :=
    Overheard.call_eq hmade (.createConsumer h.settings.consumer) []
  have htold : (host.withClose close).subscribe k [h.settings.topic] s₁ = _ := hsubscribe
  obtain ⟨behind, hgone, hgoes⟩ := closeScoped_lettingGo (host.withClose close) k
    (Replay.polled (host.poll k h.settings.pollInterval) s₂ n)
  rw [← hrecovered]
  refine ⟨behind, _, _, hgone, ?_, ?_⟩
  · rw [recover_replayed hmade htold hdrain]
    simp only [List.cons_append, List.append_assoc, List.nil_append]
  · rw [recover_replayed hheard (Overheard.call_eq htold (.subscribe k [h.settings.topic]) _)
      (hdrains _), hgoes]
    simp only [List.cons_append, List.append_assoc, List.nil_append]

end Made

/-- **A recovery goes one of the three ways**, provided its polls go quiet. -/
theorem goes (host : Host τ) (h : History) (limit : Nat) (s : τ)
    (hquiet : GoesQuiet host h limit s) :
    ∃ asked made result events s', Goes host h limit s asked made result events s' := by
  cases hcreate : host.createConsumer h.settings.consumer s with
  | mk created s₁ =>
      cases created with
      | error e => exact ⟨_, _, _, _, _, goes_refused hcreate⟩
      | ok k =>
          cases hsubscribe : host.subscribe k [h.settings.topic] s₁ with
          | mk told s₂ =>
              cases told with
              | error e => exact ⟨_, _, _, _, _, goes_unsubscribed hcreate hsubscribe⟩
              | ok _ =>
                  obtain ⟨n, hlimit, hstops⟩ := hquiet k s₁ s₂ hcreate hsubscribe
                  obtain ⟨asked, result, events, s', hgoes⟩ :=
                    goes_replayed hcreate hsubscribe hstops hlimit
                  exact ⟨asked, some k, result, events, s', hgoes⟩

end History

end SchemaHistory
