import SchemaHistory.Log.Scripted
import SchemaHistory.Proofs.Party

/-!
# Waiting while others act

An acknowledgment has three parties: one that may answer, one that may raise the signal, and one
that waits. They act in any order, but the waiter looks at the slot and then at the signal with
the slot locked, and gives the lock back only to sleep. So nobody can fill the slot between the
two looks, and this is why an answer goes before a signal however early that was raised. It is
also why the two looks may be taken as one, the way a wait is run.

What was put into the slot is kept beside the moves. Until the wait returns it is what the slot holds,
and this is how the answer that is given comes to be the one that is returned.
-/

namespace SchemaHistory

namespace Delivery

/-- Where a waiter is. -/
inductive Place
  /-- It has not begun, or it sleeps; the slot is not locked. -/
  | away
  /-- It has locked the slot and is about to look at it. -/
  | atSlot
  /-- It has found the slot empty and is about to look at the signal. -/
  | atSignal
  /-- It has found no signal and is about to sleep. -/
  | weary
  /-- Its wait has returned. -/
  | gone
  deriving DecidableEq

/-- The waiter holds the lock of the slot. -/
def Place.locked : Place → Bool
  | away | gone => false
  | atSlot | atSignal | weary => true

/-- An acknowledgment and the one who waits for it. -/
structure Waiting where
  state : State
  place : Place

/-- What a party does. -/
inductive Move
  /-- The one who may answer does. -/
  | complete (ack : Ack)
  /-- It goes away, whether it has answered or not. -/
  | drop
  | trigger
  /-- The waiter begins or wakes, and locks the slot. -/
  | wake
  | checkSlot
  | checkSignal
  /-- The waiter unlocks the slot and sleeps. -/
  | sleep

/-- What a wait returns that finds an answer. -/
def resultOf : Ack → Except DeliveryError Placement
  | .ok p => .ok p
  | .error e => .error (.failed e)

theorem check_some (ack : Ack) (raised : Bool) : check (some ack) raised = some (resultOf ack) := by
  cases ack <;> rfl

namespace Waiting

/-- An acknowledgment that nobody has answered and nobody waits for yet. -/
def fresh (raised : Bool) : Waiting := ⟨.pending raised, .away⟩

/-- One move. Who fills the slot locks it first. -/
inductive Step : Waiting → Move → Waiting → Prop
  | complete {s : State} {place : Place} (ack : Ack) (hheld : s.held = true)
      (hfree : place.locked = false) : Step ⟨s, place⟩ (.complete ack) ⟨s.fill ack, place⟩
  /-- Whoever goes away without having answered leaves word of it. -/
  | abandon {s : State} {place : Place} (hheld : s.held = true) (hfree : place.locked = false) :
      Step ⟨s, place⟩ .drop ⟨s.fill (.error .closed), place⟩
  | drop {s : State} {place : Place} (hused : s.held = false) : Step ⟨s, place⟩ .drop ⟨s, place⟩
  | trigger (s : State) (place : Place) :
      Step ⟨s, place⟩ .trigger ⟨{ s with raised := true }, place⟩
  | wake (s : State) : Step ⟨s, .away⟩ .wake ⟨s, .atSlot⟩
  /-- An answer that is there is taken, and the wait returns. -/
  | take {s : State} {ack : Ack} (hslot : s.slot = some ack) : Step ⟨s, .atSlot⟩ .checkSlot
      ⟨{ s with slot := none, returned := some (resultOf ack) }, .gone⟩
  | empty {s : State} (hslot : s.slot = none) : Step ⟨s, .atSlot⟩ .checkSlot ⟨s, .atSignal⟩
  | interrupt {s : State} (hraised : s.raised = true) : Step ⟨s, .atSignal⟩ .checkSignal
      ⟨{ s with returned := some (.error .interrupted) }, .gone⟩
  | goOn {s : State} (hraised : s.raised = false) :
      Step ⟨s, .atSignal⟩ .checkSignal ⟨s, .weary⟩
  | sleep (s : State) : Step ⟨s, .weary⟩ .sleep ⟨s, .away⟩

/-- What a move comes to if the two looks are one: the one look is where the wait returns, or where the
waiter has looked at both. -/
def steps (w : Waiting) : Move → List Delivery.Step
  | .complete ack => [.complete ack]
  | .drop => [.abandon]
  | .trigger => [.raise]
  | .checkSlot => if w.state.slot.isSome then [.look] else []
  | .checkSignal => [.look]
  | .wake | .sleep => []

/-- The answer that a move puts into the slot. -/
def filling (w : Waiting) : Move → Option Ack
  | .complete ack => some ack
  | .drop => if w.state.held then some (.error .closed) else none
  | _ => none

/-- Moves one after another, from a fresh acknowledgment on, with the answers that were put into
the slot and what has come of it. -/
inductive Run (raised : Bool) : List Move → List Ack → Waiting → Prop
  | start : Run raised [] [] (fresh raised)
  | step {ms : List Move} {fills : List Ack} {u v : Waiting} {m : Move}
      (h : Run raised ms fills u) (hstep : u.Step m v) :
      Run raised (ms ++ [m]) (fills ++ (u.filling m).toList) v

/-! ## What holds at any time -/

/-- Who has filled the slot up to now. -/
inductive Filled : List Move → List Ack → Bool → Prop
  /-- Nobody, and somebody still may. -/
  | not {ms : List Move} (hcomplete : ∀ ack, .complete ack ∉ ms) (hdrop : .drop ∉ ms) :
      Filled ms [] true
  | completed {ms : List Move} {ack : Ack} (hcomplete : .complete ack ∈ ms) : Filled ms [ack] false
  | abandoned {ms : List Move} (hcomplete : ∀ ack, .complete ack ∉ ms) (hdrop : .drop ∈ ms) :
      Filled ms [.error .closed] false

/-- How far the wait is, by what was put into the slot. -/
inductive Stands (fills : List Ack) : Waiting → Prop
  /-- It goes on, and what was put into the slot is there; a waiter that has looked found none. -/
  | waiting {s : State} {place : Place} (hslot : s.slot = fills.head?) (hreturned : s.returned = none)
      (hplace : place ≠ .gone) (hseen : place = .atSignal ∨ place = .weary → s.slot = none) :
      Stands fills ⟨s, place⟩
  /-- It has returned what was put into the slot. -/
  | answered {s : State} {ack : Ack} (hfills : fills = [ack])
      (hreturned : s.returned = some (resultOf ack)) : Stands fills ⟨s, .gone⟩
  /-- It was interrupted. -/
  | interrupted {s : State} (hreturned : s.returned = some (.error .interrupted)) :
      Stands fills ⟨s, .gone⟩

variable {raised : Bool} {ms : List Move} {fills : List Ack} {u v : Waiting} {m : Move}

/-- The looks at the slot and at the signal may be taken as one. -/
theorem Step.looks (h : u.Step m v) (hstands : Stands fills u) :
    v.state = u.state.run (u.steps m) := by
  cases h with
  | complete | abandon | trigger | wake | sleep => rfl
  | @drop s place hused =>
      show s = s.fill (.error .closed)
      rw [State.fill, if_neg (ne_true_of_eq_false hused)]
  | @take s ack hslot =>
      -- an answer that is found ends the look before it comes to the signal
      cases hstands with
      | waiting _ hreturned =>
          rw [steps, hslot]
          show _ = s.step .look
          rw [State.step, hreturned, hslot, check_some]
          rfl
  | empty hslot =>
      rw [steps, hslot]
      rfl
  | @interrupt s hraised =>
      cases hstands with
      | waiting _ hreturned _ hseen =>
          -- the slot was locked since it was found empty, so it is still
          have hempty : s.slot = none := hseen (.inl rfl)
          show ({ s with returned := _ } : State) = s.step .look
          simp [State.step, check, hreturned, hempty, hraised]
  | @goOn s hraised =>
      cases hstands with
      | waiting _ hreturned _ hseen =>
          have hempty : s.slot = none := hseen (.inl rfl)
          show s = s.step .look
          simp [State.step, check, hreturned, hempty, hraised]

/-- Only raising the signal raises it, and nothing takes it back. -/
theorem Step.signal (h : u.Step m v) :
    v.state.raised = true ↔ u.state.raised = true ∨ m = .trigger := by
  cases h with
  | complete _ hheld | abandon hheld => simp [State.fill, hheld]
  | drop | trigger | wake | take | empty | interrupt | goOn | sleep => simp

theorem Filled.other {held : Bool} (h : Filled ms fills held) (hcomplete : ∀ ack, m ≠ .complete ack)
    (hdrop : m = .drop → held = false) : Filled (ms ++ [m]) fills held := by
  have hnone (hno : ∀ ack, .complete ack ∉ ms) (ack : Ack) : .complete ack ∉ ms ++ [m] := by
    intro hmem
    rcases List.mem_append.mp hmem with hmem | hmem
    · exact hno ack hmem
    · exact hcomplete ack (List.mem_singleton.mp hmem).symm
  cases h with
  | not hno hnot =>
      refine .not (hnone hno) fun hmem => ?_
      rcases List.mem_append.mp hmem with hmem | hmem
      · exact hnot hmem
      · cases hdrop (List.mem_singleton.mp hmem).symm
  | completed hmem => exact .completed (List.mem_append_left _ hmem)
  | abandoned hno hmem => exact .abandoned (hnone hno) (List.mem_append_left _ hmem)

/-- Whoever fills the slot can do so once. -/
theorem Filled.step (h : Filled ms fills u.state.held) (hstep : u.Step m v) :
    Filled (ms ++ [m]) (fills ++ (u.filling m).toList) v.state.held := by
  cases hstep with
  | @complete s place ack hheld =>
      have hunused : Filled ms fills true := hheld ▸ h
      cases hunused with
      | not =>
          rw [State.fill, if_pos hheld]
          exact .completed (List.mem_append_right _ List.mem_cons_self)
  | @abandon s place hheld =>
      have hunused : Filled ms fills true := hheld ▸ h
      cases hunused with
      | not hno =>
          rw [State.fill, if_pos hheld, filling, if_pos hheld]
          refine .abandoned (fun ack hmem => ?_) (List.mem_append_right _ List.mem_cons_self)
          rcases List.mem_append.mp hmem with hmem | hmem
          · exact hno ack hmem
          · cases List.mem_singleton.mp hmem
  | @drop s place hused =>
      rw [filling, if_neg (ne_true_of_eq_false hused), Option.toList_none, List.append_nil]
      exact h.other nofun fun _ => hused
  | trigger | wake | take | empty | interrupt | goOn | sleep =>
      show Filled _ (fills ++ []) _
      rw [List.append_nil]
      exact h.other nofun nofun

/-- So the first answer is the only one. -/
theorem Filled.eq_of_head? {held : Bool} (h : Filled ms fills held) {ack : Ack}
    (hhead : fills.head? = some ack) : fills = [ack] := by
  cases h with
  | not => cases hhead
  | completed | abandoned =>
      cases hhead
      rfl

theorem Filled.eq_nil (h : Filled ms fills true) : fills = [] := by
  cases h with
  | not => rfl

/-- An answer is put into the slot while nobody holds its lock. -/
theorem Stands.fill {s : State} {place : Place} (h : Stands [] ⟨s, place⟩) (hheld : s.held = true)
    (hfree : place.locked = false) (ack : Ack) : Stands [ack] ⟨s.fill ack, place⟩ := by
  rw [State.fill, if_pos hheld]
  cases h with
  | waiting _ hreturned hplace =>
      refine .waiting rfl hreturned hplace ?_
      -- a waiter that has looked has the lock
      rintro (rfl | rfl)
      · cases hfree
      · cases hfree
  | answered hfills => cases hfills
  | interrupted hreturned => exact .interrupted hreturned

/-- A waiter that goes on has found what it must have found where it is then. -/
theorem Stands.goTo {s : State} {place place' : Place} (h : Stands fills ⟨s, place⟩)
    (hplace : place ≠ .gone) (hplace' : place' ≠ .gone)
    (hseen : place' = .atSignal ∨ place' = .weary → s.slot = none) : Stands fills ⟨s, place'⟩ := by
  cases h with
  | waiting hslot hreturned => exact .waiting hslot hreturned hplace' hseen
  | answered | interrupted => exact absurd rfl hplace

/-- A move that puts nothing into the slot. -/
theorem Stands.still (h : Stands fills u) (hfilled : Filled ms fills u.state.held)
    (hstep : u.Step m v) (hnone : u.filling m = none) : Stands fills v := by
  cases hstep with
  | complete => cases hnone
  | abandon hheld =>
      rw [filling, if_pos hheld] at hnone
      cases hnone
  | drop => exact h
  | trigger s place =>
      cases h with
      | waiting hslot hreturned hplace hseen => exact .waiting hslot hreturned hplace hseen
      | answered hfills hreturned => exact .answered hfills hreturned
      | interrupted hreturned => exact .interrupted hreturned
  | wake => exact h.goTo nofun nofun nofun
  | @take s ack hslot =>
      cases h with
      | waiting hfills => exact .answered (hfilled.eq_of_head? (hfills.symm.trans hslot)) rfl
  | empty hslot => exact h.goTo nofun nofun fun _ => hslot
  | interrupt => exact .interrupted rfl
  | goOn =>
      cases h with
      | waiting hslot hreturned _ hseen =>
          exact .waiting hslot hreturned nofun fun _ => hseen (.inl rfl)
  | sleep => exact h.goTo nofun nofun nofun

theorem Stands.step (h : Stands fills u) (hfilled : Filled ms fills u.state.held)
    (hstep : u.Step m v) : Stands (fills ++ (u.filling m).toList) v := by
  cases hfill : u.filling m with
  | none =>
      rw [Option.toList_none, List.append_nil]
      exact h.still hfilled hstep hfill
  | some ack =>
      cases hstep with
      | complete _ hheld hfree =>
          cases hfill
          have hunused : Filled ms fills true := hheld ▸ hfilled
          obtain rfl := hunused.eq_nil
          exact h.fill hheld hfree ack
      | abandon hheld hfree =>
          rw [filling, if_pos hheld] at hfill
          cases hfill
          have hunused : Filled ms fills true := hheld ▸ hfilled
          obtain rfl := hunused.eq_nil
          exact h.fill hheld hfree (.error .closed)
      | drop hused =>
          rw [filling, if_neg (ne_true_of_eq_false hused)] at hfill
          cases hfill
      | trigger | wake | take | empty | interrupt | goOn | sleep => cases hfill

/-- What holds after some moves. -/
structure Sound (raised : Bool) (ms : List Move) (fills : List Ack) (u : Waiting) : Prop where
  filled : Filled ms fills u.state.held
  stands : Stands fills u
  signal : u.state.raised = true ↔ raised = true ∨ .trigger ∈ ms

theorem sound_start (raised : Bool) : Sound raised [] [] (fresh raised) :=
  ⟨.not nofun nofun, .waiting rfl rfl nofun nofun, by simp [fresh, State.pending]⟩

theorem Sound.step (h : Sound raised ms fills u) (hstep : u.Step m v) :
    Sound raised (ms ++ [m]) (fills ++ (u.filling m).toList) v := by
  refine ⟨h.filled.step hstep, h.stands.step h.filled hstep, ?_⟩
  rw [hstep.signal, h.signal, List.mem_append, List.mem_singleton, or_assoc, eq_comm (a := m)]

/-- **At any time**, whoever moves. -/
theorem Run.sound (h : Run raised ms fills u) : Sound raised ms fills u := by
  induction h with
  | start => exact sound_start raised
  | step _ hstep ih => exact ih.step hstep

/-! ## What is put into the slot -/

/-- The right to fill the slot is there until it is used. -/
theorem Filled.held_iff {held : Bool} (h : Filled ms fills held) :
    held = true ↔ (∀ ack, .complete ack ∉ ms) ∧ .drop ∉ ms := by
  cases h with
  | not hno hnot => exact ⟨fun _ => ⟨hno, hnot⟩, fun _ => rfl⟩
  | completed hmem => exact ⟨nofun, fun hnobody => absurd hmem (hnobody.1 _)⟩
  | abandoned _ hdrop => exact ⟨nofun, fun hnobody => absurd hdrop hnobody.2⟩

/-- An answer that is given is in the slot then, and the right to give one is used. -/
theorem Step.completes {ack : Ack} (h : u.Step (.complete ack) v) :
    u.state.held = true ∧ v.state.slot = some ack ∧ v.state.held = false := by
  cases h with
  | complete _ hheld =>
      rw [State.fill, if_pos hheld]
      exact ⟨hheld, rfl, rfl⟩

/-- Who goes away with the right leaves word of it in the slot; without it the slot stays. -/
theorem Step.drops (h : u.Step .drop v) :
    v.state.slot = (if u.state.held then some (.error .closed) else u.state.slot) ∧
      v.state.held = false := by
  cases h with
  | abandon hheld =>
      rw [State.fill, if_pos hheld, if_pos hheld]
      exact ⟨rfl, rfl⟩
  | drop hused =>
      rw [if_neg (ne_true_of_eq_false hused)]
      exact ⟨rfl, hused⟩

/-- Until the wait returns the slot holds what was put into it. -/
theorem Stands.slot_eq (h : Stands fills u) (hnot : u.state.returned = none) :
    u.state.slot = fills.head? := by
  cases h with
  | waiting hslot => exact hslot
  | answered _ hreturned | interrupted hreturned =>
      rw [hreturned] at hnot
      cases hnot

theorem Filled.length_le {held : Bool} (h : Filled ms fills held) : fills.length ≤ 1 := by
  cases h with
  | not => exact Nat.zero_le 1
  | completed | abandoned => exact Nat.le_refl 1

/-- Every answer was given, or tells that its party went away without giving one. -/
theorem Filled.given {held : Bool} (h : Filled ms fills held) {ack : Ack} (hack : ack ∈ fills) :
    .complete ack ∈ ms ∨
      ack = .error .closed ∧ .drop ∈ ms ∧ ∀ other, .complete other ∉ ms := by
  cases h with
  | not => cases hack
  | completed hmem =>
      cases List.mem_singleton.mp hack
      exact .inl hmem
  | abandoned hno hdrop =>
      cases List.mem_singleton.mp hack
      exact .inr ⟨rfl, hdrop, hno⟩

/-! ## What a wait returns -/

/-- A waiter that looks at a filled slot takes what is there and returns it, whatever the signal. -/
theorem step_checkSlot_iff {ack : Ack} (hplace : u.place = .atSlot) (hslot : u.state.slot = some ack) :
    u.Step .checkSlot v ↔
      v = ⟨{ u.state with slot := none, returned := some (resultOf ack) }, .gone⟩ := by
  obtain ⟨s, place⟩ := u
  obtain rfl : place = .atSlot := hplace
  constructor
  · intro h
    cases h with
    | take htaken =>
        cases htaken.symm.trans hslot
        rfl
    | empty hempty => cases hempty.symm.trans hslot
  · rintro rfl
    exact .take hslot

/-- One that finds it empty goes on to the signal, with the slot locked. -/
theorem step_checkSlot_iff_of_empty (hplace : u.place = .atSlot) (hslot : u.state.slot = none) :
    u.Step .checkSlot v ↔ v = ⟨u.state, .atSignal⟩ := by
  obtain ⟨s, place⟩ := u
  obtain rfl : place = .atSlot := hplace
  constructor
  · intro h
    cases h with
    | take htaken => cases htaken.symm.trans hslot
    | empty => rfl
  · rintro rfl
    exact .empty hslot

/-- There it ends the wait if the signal is raised, and is about to sleep if not. -/
theorem step_checkSignal_iff (hplace : u.place = .atSignal) :
    u.Step .checkSignal v ↔ v = if u.state.raised then
      ⟨{ u.state with returned := some (.error .interrupted) }, .gone⟩ else ⟨u.state, .weary⟩ := by
  obtain ⟨s, place⟩ := u
  obtain rfl : place = .atSignal := hplace
  constructor
  · intro h
    cases h with
    | interrupt hraised => rw [if_pos hraised]
    | goOn hraised => rw [if_neg (ne_true_of_eq_false hraised)]
  · rintro rfl
    split
    case isTrue hraised => exact .interrupt hraised
    case isFalse hraised => exact .goOn (Bool.not_eq_true _ ▸ hraised)

/-- A wait that has returned keeps to it. -/
theorem Step.returned_kept (h : u.Step m v) (hstands : Stands fills u)
    {r : Except DeliveryError Placement} (hr : u.state.returned = some r) :
    v.state.returned = some r := by
  have hgone : u.place = .gone := by
    cases hstands with
    | waiting _ hreturned =>
        rw [hreturned] at hr
        cases hr
    | answered | interrupted => rfl
  cases h with
  | complete _ hheld | abandon hheld =>
      rw [State.fill, if_pos hheld]
      exact hr
  | drop | trigger => exact hr
  | wake | take | empty | interrupt | goOn | sleep => cases hgone

/-- How a wait comes to return: it finds an answer, or it finds none and then the signal raised. -/
theorem Step.returns (h : u.Step m v) (hsound : Sound raised ms fills u)
    {r : Except DeliveryError Placement} (hnot : u.state.returned = none)
    (hr : v.state.returned = some r) :
    (∃ ack, m = .checkSlot ∧ u.state.slot = some ack ∧ fills = [ack] ∧ r = resultOf ack) ∨
      (m = .checkSignal ∧ u.state.slot = none ∧ u.state.raised = true ∧
        r = .error .interrupted) := by
  cases h with
  | complete _ hheld | abandon hheld =>
      rw [State.fill, if_pos hheld] at hr
      exact absurd (hnot.symm.trans hr) nofun
  | drop | trigger | wake | empty | goOn | sleep => exact absurd (hnot.symm.trans hr) nofun
  | @take s ack hslot =>
      cases hr
      cases hsound.stands with
      | waiting hfills =>
          exact .inl ⟨ack, rfl, hslot, hsound.filled.eq_of_head? (hfills.symm.trans hslot), rfl⟩
  | interrupt hraised =>
      cases hr
      cases hsound.stands with
      | waiting _ _ _ hseen => exact .inr ⟨rfl, hseen (.inl rfl), hraised, rfl⟩

theorem resultOf_closed {ack : Ack} (h : resultOf ack = .error (.failed .closed)) :
    ack = .error .closed := by
  cases ack with
  | ok p => cases h
  | error e =>
      cases h
      rfl

/-- A wait tells of a closed client if its party went away without an answer, or gave this one. -/
theorem Sound.closed (h : Sound raised ms fills u)
    (hr : u.state.returned = some (.error (.failed .closed))) :
    (.drop ∈ ms ∧ ∀ ack, .complete ack ∉ ms) ∨ .complete (.error .closed) ∈ ms := by
  cases h.stands with
  | waiting _ hreturned =>
      rw [hreturned] at hr
      cases hr
  | @answered s ack hfills hreturned =>
      obtain rfl := resultOf_closed (Option.some.inj (hreturned.symm.trans hr))
      rcases h.filled.given (hfills ▸ List.mem_cons_self) with hgiven | ⟨-, hdrop, hno⟩
      · exact .inr hgiven
      · exact .inl ⟨hdrop, hno⟩
  | interrupted hreturned =>
      rw [hreturned] at hr
      cases hr

/-- What is promised of an acknowledgment and of the wait for it, after any moves. -/
structure Promised (raised : Bool) (ms : List Move) (fills : List Ack) (u : Waiting) : Prop where
  /-- The slot is filled once at most. -/
  once : fills.length ≤ 1
  /-- It is filled with an answer that was given, or with word of a party that gave none. -/
  given : ∀ ack ∈ fills, .complete ack ∈ ms ∨
    ack = .error .closed ∧ .drop ∈ ms ∧ ∀ other, .complete other ∉ ms
  /-- Somebody may still fill it as long as nobody has answered or gone away. -/
  held : u.state.held = true ↔ (∀ ack, .complete ack ∉ ms) ∧ .drop ∉ ms
  /-- Who gives an answer puts it there, and nobody can give another. -/
  completes : ∀ ack v, u.Step (.complete ack) v →
    u.state.held = true ∧ v.state.slot = some ack ∧ v.state.held = false
  /-- Who goes away without having given one leaves word of it. -/
  drops : ∀ v, u.Step .drop v →
    v.state.slot = (if u.state.held then some (.error .closed) else u.state.slot) ∧
      v.state.held = false
  /-- Until the wait returns the slot holds what was put into it. -/
  slot : u.state.returned = none → u.state.slot = fills.head?
  /-- A waiter that looks at a filled slot returns what is there, and nothing else can happen. -/
  found : ∀ ack, u.place = .atSlot → u.state.slot = some ack → ∀ v, u.Step .checkSlot v ↔
    v = ⟨{ u.state with slot := none, returned := some (resultOf ack) }, .gone⟩
  /-- One that looks at an empty slot goes on to look at the signal. -/
  empty : u.place = .atSlot → u.state.slot = none → ∀ v, u.Step .checkSlot v ↔
    v = ⟨u.state, .atSignal⟩
  /-- There the wait is interrupted if the signal is raised, and goes on if not. -/
  signalled : u.place = .atSignal → ∀ v, u.Step .checkSignal v ↔ v = if u.state.raised then
    ⟨{ u.state with returned := some (.error .interrupted) }, .gone⟩ else ⟨u.state, .weary⟩
  /-- A wait returns by finding an answer, or by finding none and then the signal raised. -/
  returns : ∀ m v r, u.Step m v → u.state.returned = none → v.state.returned = some r →
    (∃ ack, m = .checkSlot ∧ u.state.slot = some ack ∧ fills = [ack] ∧ r = resultOf ack) ∨
      (m = .checkSignal ∧ u.state.slot = none ∧ u.state.raised = true ∧
        r = .error .interrupted)
  /-- What it has returned stays. -/
  keeps : ∀ m v r, u.Step m v → u.state.returned = some r → v.state.returned = some r
  signal : u.state.raised = true ↔ raised = true ∨ .trigger ∈ ms
  /-- It tells of a closed client only if nobody answered, or if this was the answer. -/
  closed : u.state.returned = some (.error (.failed .closed)) →
    (.drop ∈ ms ∧ ∀ ack, .complete ack ∉ ms) ∨ .complete (.error .closed) ∈ ms
  /-- A move does to the acknowledgment what it comes to when the two looks are one. -/
  looks : ∀ m v, u.Step m v → v.state = u.state.run (u.steps m)

theorem Sound.promised (h : Sound raised ms fills u) : Promised raised ms fills u where
  once := h.filled.length_le
  given _ := h.filled.given
  held := h.filled.held_iff
  completes _ _ hstep := hstep.completes
  drops _ hstep := hstep.drops
  slot := h.stands.slot_eq
  found _ hplace hslot _ := step_checkSlot_iff hplace hslot
  empty hplace hslot _ := step_checkSlot_iff_of_empty hplace hslot
  signalled hplace _ := step_checkSignal_iff hplace
  returns _ _ _ hstep := hstep.returns h
  keeps _ _ _ hstep := hstep.returned_kept h.stands
  signal := h.signal
  closed := h.closed
  looks _ _ hstep := hstep.looks h.stands

end Waiting

end Delivery

/-- Where the answer is there when the wait begins, the signal does not matter. -/
theorem Host.await_answered {τ : Type} {host : Host τ} {t : Ticket} {s : τ} {ack : Ack}
    (h : host.answer? t s = some ack) (signal : SignalId) :
    host.await signal t s = (some (Delivery.resultOf ack), s) := by
  rw [Host.await, h, Delivery.check_some]

/-- How a store ended that was answered. -/
def StoreOutcome.ofAck : Ack → StoreOutcome
  | .ok place => .acknowledged place
  | .error _ => .unconfirmed

theorem History.store_answered {τ : Type} {host : Host τ} {h : History} {p : ProducerId}
    {r : Record} {s s₁ : τ} {ticket : Ticket} {ack : Ack} (hp : h.producer = some p)
    (hsend : host.send p (h.request r) s = (.ok ticket, s₁))
    (hanswer : host.answer? ticket (host.flush p s₁).2 = some ack) :
    h.store host r s = (.ok (.ofAck ack),
      ⟨.trace, "Storing record into database history", [("record", r.payload)]⟩ ::
        flushEvents (host.flush p s₁).1 ++ outcomeEvents r (some (Delivery.resultOf ack)),
      (host.flush p s₁).2) := by
  rw [store, hp]
  dsimp only
  rw [hsend]
  dsimp only
  rw [Host.await_answered hanswer]
  cases ack <;> rfl

/--
**Acknowledgments arrive once and unchanged**, in whatever order the parties move. The slot is
filled at most once, by an answer that was given or, if its party went away without one, by word of
that, and it holds this until the wait returns. A wait that looks at a filled slot returns what is
there, also if the signal was raised long before; one that finds it empty looks at the signal, and
is interrupted just if that is raised. One that has returned found an answer, or found none and then
the signal raised; so it tells of a closed client only if the party went away without an answer,
unless the answer was just this. Hence a store whose answer is there when it begins to wait does not
depend on any signal.
-/
theorem acknowledgment_protocol :
    (∀ raised ms fills u, Delivery.Waiting.Run raised ms fills u →
      Delivery.Waiting.Promised raised ms fills u) ∧
    ∀ {τ : Type} (host : Host τ) (h : History) (p : ProducerId) (r : Record) (s s₁ : τ)
      (ticket : Ticket) (ack : Ack), h.producer = some p →
      host.send p (h.request r) s = (.ok ticket, s₁) →
      host.answer? ticket (host.flush p s₁).2 = some ack →
      (h.store host r s).1 = .ok (.ofAck ack) ∧
      ∀ raised, h.store { host with raised } r s = h.store host r s := by
  refine ⟨fun raised ms fills u hrun => hrun.sound.promised,
    fun host h p r s s₁ ticket ack hp hsend hanswer => ?_⟩
  have hstore := History.store_answered hp hsend hanswer
  refine ⟨by rw [hstore], fun raised => ?_⟩
  have hsend' : ({ host with raised } : Host _).send p (h.request r) s = _ := hsend
  rw [hstore, History.store_answered hp hsend' hanswer]

/-- Where the answer of the log is to be found in the end. -/
def latePlace : Placement := ⟨"t", 0, 7⟩

/-- The waiter sleeps; then the signal is raised, and only then the answer is given. -/
def lateMoves : List Delivery.Move :=
  [.wake, .checkSlot, .checkSignal, .sleep, .trigger, .complete (.ok latePlace), .drop, .wake]

theorem run_lateMoves : Delivery.Waiting.Run false lateMoves [.ok latePlace]
    ⟨⟨some (.ok latePlace), false, true, none⟩, .atSlot⟩ := by
  have hasleep := (((Delivery.Waiting.Run.start.step (.wake _)).step (.empty rfl)).step
    (.goOn (show (Delivery.State.pending false).raised = false from rfl))).step (.sleep _)
  exact (((hasleep.step (.trigger _ _)).step (.complete (.ok latePlace) rfl rfl)).step
    (.drop rfl)).step (.wake _)

/-- A history that holds the first producer of a log. -/
def startedHistory : History := ⟨⟨"t", "b:9092", "h", 1, 1, .empty, .empty⟩, 0, some 0⟩

/-- A log that answers at once, after the signal was raised. -/
def alarmedLog : World ScriptedLog := ⟨.ofScript .empty, .add .empty true⟩

theorem acknowledgment_protocol_late :
    (∀ v, Delivery.Waiting.Step ⟨⟨some (.ok latePlace), false, true, none⟩, .atSlot⟩ .checkSlot v ↔
      v = ⟨⟨none, false, true, some (.ok latePlace)⟩, .gone⟩) ∧
    (startedHistory.store ScriptedLog.clients.host ⟨[]⟩ alarmedLog).1 =
      .ok (.acknowledged ⟨"t", 0, 0⟩) := by
  have hpromised := acknowledgment_protocol.1 _ _ _ _ run_lateMoves
  exact ⟨hpromised.found (.ok latePlace) rfl rfl,
    (acknowledgment_protocol.2 ScriptedLog.clients.host startedHistory 0 ⟨[]⟩ alarmedLog _ 0
      (.ok ⟨"t", 0, 0⟩) rfl rfl rfl).1⟩

/-- The answer that is given is that the client is closed; then the waiter comes and looks. -/
def closedMoves : List Delivery.Move := [.complete (.error .closed), .drop, .wake, .checkSlot]

/-- A wait may tell of a closed client although its party did give an answer. -/
theorem told_closed_by_answer :
    ∃ u, Delivery.Waiting.Run false closedMoves [.error .closed] u ∧
      u.state.returned = some (.error (.failed .closed)) ∧
      ¬ (.drop ∈ closedMoves ∧ ∀ ack, .complete ack ∉ closedMoves) := by
  have hstart : Delivery.Waiting.Run false [] [] (.fresh false) := .start
  have hanswered := hstart.step (.complete (.error .closed) rfl rfl)
  exact ⟨_, ((hanswered.step (.drop rfl)).step (.wake _)).step (.take rfl), rfl,
    fun hdropped => hdropped.2 _ List.mem_cons_self⟩

end SchemaHistory
