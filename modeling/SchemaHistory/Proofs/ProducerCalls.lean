import SchemaHistory.Log.Scripted
import SchemaHistory.Proofs.Overheard
import SchemaHistory.Proofs.Party

/-!
# The life of a producer

Between its start and its stop a history holds one producer. Each call to a history is one of
few errands, told by whether a producer is held when it begins: an errand says what the call
gives, what it asks of the log, and whether a producer is held behind it, whatever the log
answers. A producer can thus be asked anything only between the call that made it and the one
that gives it back, and the errand that gives it back ends with closing it and letting it go.
-/

namespace SchemaHistory

/-- The producer that a call to a log is about. -/
def Exchange.producer? : Exchange → Option ProducerId
  | send p _ _ | flush p _ | closeProducer p _ | dropProducer p => some p
  | _ => none

/-- The producer that a call to a log has made. -/
def Exchange.made? : Exchange → Option ProducerId
  | createProducer _ (.ok p) => some p
  | _ => none

/-- A call to a history that has to do with its producer. -/
inductive HistoryCall
  | start
  | store (r : Record)
  | stop

/-- What a call to a history gives. -/
inductive HistoryAnswer
  | done (result : Except HistoryError Unit)
  | stored (result : Except HistoryError StoreOutcome)

namespace History

variable {τ : Type}

/-- A history is called. -/
def perform (host : Host τ) (h : History) (s : τ) : HistoryCall → HistoryAnswer × History × τ
  | .start => (.done (h.start host s).1, (h.start host s).2)
  | .store r => (.stored (h.store host r s).1, h, (h.store host r s).2.2)
  | .stop => (.done (h.stop host s).1, (h.stop host s).2)

/-- A history is called again and again. -/
def performAll (host : Host τ) (h : History) (s : τ) :
    List HistoryCall → List HistoryAnswer × History × τ
  | [] => ([], h, s)
  | call :: calls =>
    let (answer, h, s) := h.perform host s call
    let (answers, h, s) := performAll host h s calls
    (answer :: answers, h, s)

end History

/-- The first of two errors, if there is one. -/
def firstError : Except BrokerError Unit → Except BrokerError Unit → Except HistoryError Unit
  | .error e, _ => .error (.broker e)
  | .ok _, .error e => .error (.broker e)
  | .ok _, .ok _ => .ok ()

/-- A call to a history, what it gave, and what it asked of the log. -/
structure Errand where
  call : HistoryCall
  answer : HistoryAnswer
  asked : List Exchange

/-- The errands of a history, by the producer that is held before and behind them. -/
inductive Errand.Runs (settings : HistorySettings) :
    Option ProducerId → Errand → Option ProducerId → Prop
  /-- A start without a producer makes one. -/
  | started (p : ProducerId) : Runs settings none
      ⟨.start, .done (.ok ()), [.createProducer settings.producer (.ok p)]⟩ (some p)
  /-- When that fails, its error is given and there is still none. -/
  | refused (e : BrokerError) : Runs settings none
      ⟨.start, .done (.error (.broker e)), [.createProducer settings.producer (.error e)]⟩ none
  /-- With a producer a start does nothing. -/
  | startedAlready (p : ProducerId) : Runs settings (some p) ⟨.start, .done (.ok ()), []⟩ (some p)
  /-- A store without a producer asks nothing. -/
  | unstarted (r : Record) : Runs settings none
      ⟨.store r, .stored (.error .notStarted), []⟩ none
  /-- A record that the log does not take is not sent again, and nothing is flushed. -/
  | unsent (p : ProducerId) (r : Record) (e : BrokerError) : Runs settings (some p)
      ⟨.store r, .stored (.error (.broker e)),
        [.send p ⟨settings.topic, 0, none, r.payload⟩ (.error e)]⟩ (some p)
  /-- A record that is taken is flushed once, and then there is an outcome. -/
  | sent (p : ProducerId) (r : Record) (t : Ticket) (flushed : Except BrokerError Unit)
      (outcome : StoreOutcome) : Runs settings (some p)
      ⟨.store r, .stored (.ok outcome),
        [.send p ⟨settings.topic, 0, none, r.payload⟩ (.ok t), .flush p flushed]⟩ (some p)
  /-- A stop flushes, closes and lets go, whatever fails. -/
  | stopped (p : ProducerId) (flushed closed : Except BrokerError Unit) : Runs settings (some p)
      ⟨.stop, .done (firstError flushed closed),
        [.flush p flushed, .closeProducer p closed, .dropProducer p]⟩ none
  /-- Without a producer a stop does nothing. -/
  | stoppedAlready : Runs settings none ⟨.stop, .done (.ok ()), []⟩ none

/-- Errands one after another. -/
inductive Errands (settings : HistorySettings) :
    Option ProducerId → List Errand → Option ProducerId → Prop
  | nil (held : Option ProducerId) : Errands settings held [] held
  | cons {held held' held'' : Option ProducerId} {e : Errand} {es : List Errand}
      (first : e.Runs settings held held') (rest : Errands settings held' es held'') :
      Errands settings held (e :: es) held''

/-! ## Every call is an errand -/

namespace History

variable {τ : Type} {host : Host τ} {h : History} {s s' : τ}

theorem start_refused {e : BrokerError} (hp : h.producer = none)
    (hcreate : host.createProducer h.settings.producer s = (.error e, s')) :
    h.start host s = (.error (.broker e), h, s') := by
  rw [start, hp]
  dsimp only
  rw [hcreate]

theorem store_unsent {p : ProducerId} {r : Record} {e : BrokerError} (hp : h.producer = some p)
    (hsend : host.send p (h.request r) s = (.error e, s')) :
    (h.store host r s).1 = .error (.broker e) ∧ (h.store host r s).2.2 = s' := by
  rw [store, hp]
  dsimp only
  rw [hsend]
  exact ⟨rfl, rfl⟩

theorem stop_held {p : ProducerId} {s₁ s₂ : τ} {flushed closed : Except BrokerError Unit}
    (hp : h.producer = some p) (hflush : host.flush p s = (flushed, s₁))
    (hclose : host.closeProducer p s₁ = (closed, s₂)) :
    h.stop host s = (firstError flushed closed, { h with producer := none },
      host.dropProducer p s₂) := by
  simp only [stop, hp, hflush, hclose]
  cases flushed with
  | error e => rfl
  | ok _ => cases closed <;> rfl

/-- What comes of a call that runs an errand, and of the same call when it is overheard. -/
structure Overhears (host : Host τ) (h : History) (s : τ) (call : HistoryCall)
    (before : Option ProducerId) (e : Errand) (held : Option ProducerId) (s' : τ) : Prop where
  runs : e.Runs h.settings before held
  called : e.call = call
  plain : h.perform host s call = (e.answer, { h with producer := held }, s')
  overheard : ∀ heard, h.perform host.overheard ⟨s, heard⟩ call =
    (e.answer, { h with producer := held }, ⟨s', heard ++ e.asked⟩)

theorem overhears_start (host : Host τ) (h : History) (s : τ) :
    ∃ e held s', Overhears host h s .start h.producer e held s' := by
  cases hp : h.producer with
  | some p =>
      have hsame : ({ h with producer := some p } : History) = h := by rw [← hp]
      refine ⟨_, some p, s, .startedAlready p, rfl, ?_, fun heard => ?_⟩
      · rw [perform, start_again hp, hsame]
      · rw [perform, start_again hp, hsame, List.append_nil]
  | none =>
      have hsame : ({ h with producer := none } : History) = h := by rw [← hp]
      cases hcreate : host.createProducer h.settings.producer s with
      | mk made s' =>
          have hheard := Overheard.call_eq hcreate (.createProducer h.settings.producer)
          cases made with
          | ok p =>
              refine ⟨_, some p, s', .started p, rfl, ?_, fun heard => ?_⟩
              · rw [perform, start_taken hp hcreate]
              · rw [perform, start_taken hp (hheard heard)]
          | error e =>
              refine ⟨_, none, s', .refused e, rfl, ?_, fun heard => ?_⟩
              · rw [perform, start_refused hp hcreate, hsame]
              · rw [perform, start_refused hp (hheard heard), hsame]

theorem overhears_store (host : Host τ) (h : History) (s : τ) (r : Record) :
    ∃ e held s', Overhears host h s (.store r) h.producer e held s' := by
  cases hp : h.producer with
  | none =>
      have hsame : ({ h with producer := none } : History) = h := by rw [← hp]
      refine ⟨_, none, s, .unstarted r, rfl, ?_, fun heard => ?_⟩
      · rw [perform, store_unstarted hp, hsame]
      · rw [perform, store_unstarted hp, hsame, List.append_nil]
  | some p =>
      have hsame : ({ h with producer := some p } : History) = h := by rw [← hp]
      cases hsend : host.send p (h.request r) s with
      | mk sent s' =>
          have hheard (heard) : host.overheard.send p (h.request r) ⟨s, heard⟩ = _ :=
            Overheard.call_eq hsend (.send p (h.request r)) heard
          cases sent with
          | error e =>
              refine ⟨_, some p, s', .unsent p r e, rfl, ?_, fun heard => ?_⟩
              · obtain ⟨hresult, hstate⟩ := store_unsent hp hsend
                rw [perform, hresult, hstate, hsame]
              · obtain ⟨hresult, hstate⟩ := store_unsent hp (hheard heard)
                rw [perform, hresult, hstate, hsame]
                rfl
          | ok t =>
              refine ⟨_, some p, (host.await h.shutdown t (host.flush p s').2).2,
                .sent p r t (host.flush p s').1
                  (outcomeOf (host.await h.shutdown t (host.flush p s').2).1), rfl, ?_,
                fun heard => ?_⟩
              · obtain ⟨hresult, hstate⟩ := store_handed hp hsend
                rw [perform, hresult, hstate, hsame]
              · obtain ⟨hresult, hstate⟩ := store_handed hp (hheard heard)
                have hflush : host.overheard.flush p ⟨s', heard ++ [.send p (h.request r) (.ok t)]⟩ =
                    _ := Overheard.call_eq rfl (.flush p) _
                rw [hflush, Host.await_overheard] at hresult hstate
                rw [perform, hresult, hstate, hsame, List.append_assoc]
                rfl

theorem overhears_stop (host : Host τ) (h : History) (s : τ) :
    ∃ e held s', Overhears host h s .stop h.producer e held s' := by
  cases hp : h.producer with
  | none =>
      have hsame : ({ h with producer := none } : History) = h := by rw [← hp]
      refine ⟨_, none, s, .stoppedAlready, rfl, ?_, fun heard => ?_⟩
      · rw [perform, stop_again hp, hsame]
      · rw [perform, stop_again hp, hsame, List.append_nil]
  | some p =>
      refine ⟨_, none, host.dropProducer p (host.closeProducer p (host.flush p s).2).2,
        .stopped p (host.flush p s).1 (host.closeProducer p (host.flush p s).2).1, rfl, ?_,
        fun heard => ?_⟩
      · rw [perform, stop_held hp rfl rfl]
      · have hflush : host.overheard.flush p ⟨s, heard⟩ = _ := Overheard.call_eq rfl (.flush p) heard
        have hclose : host.overheard.closeProducer p ⟨(host.flush p s).2, _⟩ = _ :=
          Overheard.call_eq rfl (.closeProducer p) (heard ++ [.flush p (host.flush p s).1])
        rw [perform, stop_held hp hflush hclose]
        simp only [Host.overheard, Overheard.change, List.append_assoc, List.cons_append,
          List.nil_append]

/-- **Every call is an errand**, and overhearing it changes nothing. -/
theorem overhears (host : Host τ) (h : History) (s : τ) (call : HistoryCall) :
    ∃ e held s', Overhears host h s call h.producer e held s' := by
  cases call with
  | start => exact overhears_start host h s
  | store r => exact overhears_store host h s r
  | stop => exact overhears_stop host h s

/-- So calls are errands one after another. -/
theorem performAll_overheard (host : Host τ) (h : History) (s : τ) (heard : List Exchange)
    (calls : List HistoryCall) :
    ∃ es held s', es.map Errand.call = calls ∧ Errands h.settings h.producer es held ∧
      h.performAll host s calls = (es.map Errand.answer, { h with producer := held }, s') ∧
      h.performAll host.overheard ⟨s, heard⟩ calls = (es.map Errand.answer,
        { h with producer := held }, ⟨s', heard ++ es.flatMap Errand.asked⟩) := by
  induction calls generalizing h s heard with
  | nil =>
      refine ⟨[], h.producer, s, rfl, .nil _, rfl, ?_⟩
      rw [List.flatMap_nil, List.append_nil]
      rfl
  | cons call calls ih =>
      obtain ⟨e, held, s₁, hruns, hcalled, hplain, hoverheard⟩ := overhears host h s call
      obtain ⟨es, held', s', hcalls, herrands, hplains, hoverheards⟩ :=
        ih { h with producer := held } s₁ (heard ++ e.asked)
      refine ⟨e :: es, held', s', ?_, .cons hruns herrands, ?_, ?_⟩
      · rw [List.map_cons, hcalled, hcalls]
      · rw [performAll, hplain]
        dsimp only
        rw [hplains]
        rfl
      · rw [performAll, hoverheard]
        dsimp only
        rw [hoverheards, List.flatMap_cons, List.append_assoc]
        rfl

end History

/-! ## Who is asked when -/

/-- An element of two lists put together is one of the first or one of the second. -/
theorem append_eq_append_cons {α : Type} {xs ys before after : List α} {a : α}
    (h : xs ++ ys = before ++ a :: after) :
    (∃ rest, xs = before ++ a :: rest ∧ after = rest ++ ys) ∨
      ∃ front, before = xs ++ front ∧ ys = front ++ a :: after := by
  rcases List.append_eq_append_iff.mp h with ⟨front, hbefore, hys⟩ | ⟨rest, hxs, hafter⟩
  · exact .inr ⟨front, hbefore, hys⟩
  · cases rest with
    | nil =>
        refine .inr ⟨[], ?_, hafter.symm⟩
        rw [hxs, List.append_nil, List.append_nil]
    | cons b rest =>
        obtain ⟨rfl, hrest⟩ := List.cons.inj hafter
        exact .inl ⟨rest, hxs, hrest⟩

namespace Errand.Runs

variable {settings : HistorySettings} {held held' : Option ProducerId} {e : Errand}
  {p : ProducerId}

/-- Only the producer that is held is asked anything. -/
theorem asks_held (h : e.Runs settings held held') {x : Exchange} (hx : x ∈ e.asked)
    (hp : x.producer? = some p) : held = some p := by
  cases h with
  | started | refused =>
      rw [List.mem_singleton.mp hx] at hp
      cases hp
  | startedAlready | unstarted | stoppedAlready => cases hx
  | unsent =>
      rw [List.mem_singleton.mp hx] at hp
      exact hp
  | sent =>
      simp only [List.mem_cons, List.not_mem_nil, or_false] at hx
      rcases hx with rfl | rfl
      · exact hp
      · exact hp
  | stopped =>
      simp only [List.mem_cons, List.not_mem_nil, or_false] at hx
      rcases hx with rfl | rfl | rfl
      · exact hp
      · exact hp
      · exact hp

/-- A producer that is held was held before, or was made. -/
theorem holds_made (h : e.Runs settings held held') (hp : held' = some p) :
    held = some p ∨ p ∈ e.asked.filterMap Exchange.made? := by
  cases h with
  | started q =>
      cases hp
      exact .inr (List.mem_singleton.mpr rfl)
  | refused | unstarted | stopped | stoppedAlready => cases hp
  | startedAlready | unsent | sent => exact .inl hp

/-- Behind the close comes the letting go, and then no producer is held. -/
theorem closes_last (h : e.Runs settings held held') {answer : Except BrokerError Unit}
    {before after : List Exchange} (hasked : e.asked = before ++ .closeProducer p answer :: after) :
    held' = none ∧ after = [.dropProducer p] := by
  have hmem : Exchange.closeProducer p answer ∈ e.asked :=
    hasked ▸ List.mem_append_right _ List.mem_cons_self
  cases h with
  | startedAlready | unstarted | stoppedAlready => cases hmem
  | started | refused | unsent => cases List.mem_singleton.mp hmem
  | sent => simp at hmem
  | stopped q flushed closed =>
      refine ⟨rfl, ?_⟩
      -- the close is neither the flush before it nor the letting go behind it
      match before, hasked with
      | [_], hasked =>
          cases hasked
          rfl
      | [_, _], hasked => cases hasked
      | _ :: _ :: _ :: before, hasked => cases before <;> cases hasked

end Errand.Runs

namespace Errands

variable {settings : HistorySettings} {held held' : Option ProducerId} {es : List Errand}
  {p : ProducerId} {before after : List Exchange}

/-- A producer that is asked anything was held at first, or was made before. -/
theorem asks_made (h : Errands settings held es held') {x : Exchange}
    (hasked : es.flatMap Errand.asked = before ++ x :: after) (hp : x.producer? = some p) :
    held = some p ∨ p ∈ before.filterMap Exchange.made? := by
  induction h generalizing before with
  | nil =>
      rw [List.flatMap_nil] at hasked
      cases before <;> cases hasked
  | @cons held held' held'' e es first rest ih =>
      rw [List.flatMap_cons] at hasked
      rcases append_eq_append_cons hasked with ⟨behind, hfirst, -⟩ | ⟨front, rfl, hrest⟩
      · exact .inl (first.asks_held (hfirst ▸ List.mem_append_right _ List.mem_cons_self) hp)
      · rw [List.filterMap_append, List.mem_append]
        rcases ih hrest with hheld | hmade
        · rcases first.holds_made hheld with hbefore | hmade
          · exact .inl hbefore
          · exact .inr (.inl hmade)
        · exact .inr (.inr hmade)

/-- What follows the close of a producer are the letting go and errands that begin without one. -/
theorem closes_last (h : Errands settings held es held') {answer : Except BrokerError Unit}
    (hasked : es.flatMap Errand.asked = before ++ .closeProducer p answer :: after) :
    ∃ es', after = .dropProducer p :: es'.flatMap Errand.asked ∧ Errands settings none es' held' := by
  induction h generalizing before with
  | nil =>
      rw [List.flatMap_nil] at hasked
      cases before <;> cases hasked
  | @cons held held' held'' e es first rest ih =>
      rw [List.flatMap_cons] at hasked
      rcases append_eq_append_cons hasked with ⟨behind, hfirst, hafter⟩ | ⟨front, -, hrest⟩
      · obtain ⟨rfl, rfl⟩ := first.closes_last hfirst
        exact ⟨es, hafter, rest⟩
      · exact ih hrest

/-- A producer that was closed is asked nothing any more, unless it is made again. -/
theorem asks_after_close (h : Errands settings none es held') {answer : Except BrokerError Unit}
    (hasked : es.flatMap Errand.asked = before ++ .closeProducer p answer :: after) :
    ∃ later, after = .dropProducer p :: later ∧
      (∀ front x rest, later = front ++ x :: rest → x.producer? = some p →
        p ∈ front.filterMap Exchange.made?) ∧
      (((es.flatMap Errand.asked).filterMap Exchange.made?).Nodup →
        ∀ x ∈ later, x.producer? ≠ some p) := by
  obtain ⟨es', rfl, hrest⟩ := h.closes_last hasked
  have hagain : ∀ front x rest, es'.flatMap Errand.asked = front ++ x :: rest →
      x.producer? = some p → p ∈ front.filterMap Exchange.made? := fun front x rest hlater hp =>
    (hrest.asks_made hlater hp).resolve_left nofun
  refine ⟨es'.flatMap Errand.asked, rfl, hagain, fun hnodup x hx hp => ?_⟩
  -- it was made before it was closed, so it would be made twice
  have hbefore : p ∈ before.filterMap Exchange.made? :=
    (h.asks_made hasked rfl).resolve_left nofun
  obtain ⟨front, rest, hlater⟩ := List.append_of_mem hx
  have hmade := hagain front x rest hlater hp
  rw [hasked, List.filterMap_append, List.filterMap_cons_none rfl, List.filterMap_cons_none rfl,
    hlater, List.filterMap_append] at hnodup
  exact (List.nodup_append.mp hnodup).2.2 p hbefore p (List.mem_append_left _ hmade) rfl

end Errands

/--
**The life of a producer.** Whatever a log answers to each call, and however often a history is
started, stopped and given records: its calls are errands one after another. So a producer is made
exactly by a start while none is held; a store asks for one append of the record and, if that is
taken, for one flush, and fails only if it was not taken or none is held; a stop flushes and closes
the producer once, whatever fails, and leaves none. After its close a producer is let go and then
asked nothing any more; only a log that gives the same producer out anew hears of it again.
-/
theorem History.producer_lifecycle {τ : Type} (host : Host τ) (settings : HistorySettings)
    (shutdown : SignalId) (s : τ) (calls : List HistoryCall) :
    ∃ es held s',
      es.map Errand.call = calls ∧ Errands settings none es held ∧
      (History.make settings shutdown).performAll host s calls =
        (es.map Errand.answer, ⟨settings, shutdown, held⟩, s') ∧
      (History.make settings shutdown).performAll host.overheard ⟨s, []⟩ calls =
        (es.map Errand.answer, ⟨settings, shutdown, held⟩, ⟨s', es.flatMap Errand.asked⟩) ∧
      ∀ before p answer after,
        es.flatMap Errand.asked = before ++ .closeProducer p answer :: after →
        ∃ later, after = .dropProducer p :: later ∧
          (∀ front x rest, later = front ++ x :: rest → x.producer? = some p →
            p ∈ front.filterMap Exchange.made?) ∧
          (((es.flatMap Errand.asked).filterMap Exchange.made?).Nodup →
            ∀ x ∈ later, x.producer? ≠ some p) := by
  obtain ⟨es, held, s', hcalls, herrands, hplain, hoverheard⟩ :=
    performAll_overheard host (History.make settings shutdown) s [] calls
  exact ⟨es, held, s', hcalls, herrands, hplain, hoverheard,
    fun before p answer after hasked => herrands.asks_after_close hasked⟩

/-- A log that makes no producer at first, and whose first flushes and first close fail. -/
def falteringScript : Script :=
  { Script.empty with
    createProducer := [some .closed]
    flush := [some (.io "lost"), some (.io "lost")]
    closeProducer := [some .closed] }

/-- The producer that is made in the end is closed once, although its flushes and its close fail. -/
example (settings : HistorySettings) (r : Record) :
    ((History.make settings 0).performAll ScriptedLog.clients.host.overheard
      ⟨.ofLog (.ofScript falteringScript), []⟩ [.start, .start, .store r, .stop, .stop]).2.2.heard =
      [.createProducer settings.producer (.error .closed),
        .createProducer settings.producer (.ok 1),
        .send 1 ⟨settings.topic, 0, none, r.payload⟩ (.ok 0), .flush 1 (.error (.io "lost")),
        .flush 1 (.error (.io "lost")), .closeProducer 1 (.error .closed), .dropProducer 1] := rfl

end SchemaHistory
