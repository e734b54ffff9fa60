import SchemaHistory.Log.Basic
import SchemaHistory.Record

/-!
# Reading a history back

A log has no mark for its end. A replay ends when a number of polls in a row has brought
nothing; every poll that brings something restores the whole number.

A replay polls until its budget is spent and keeps the records among the entries, in the
order of the log. An entry that is no record is reported and left out. A failed poll is
reported and counts as an empty one, so that a dead log ends the replay too.
-/

namespace SchemaHistory

/-! ## When a replay is over -/

/-- How far a replay is from its end. -/
inductive Patience
  /-- So many empty polls are borne before the end. -/
  | active (remaining : Nat)
  /-- The log counts as read. -/
  | done
  deriving DecidableEq

/-- The number of empty polls in a row that ends a replay, and how many are left. -/
structure Budget where
  /-- The whole number. -/
  attempts : Nat
  /-- What is left of it. -/
  state : Patience
  deriving DecidableEq

namespace Budget

/-- The patience for a number of empty polls; for none the end is there at once. -/
def full (attempts : Nat) : Patience := if attempts = 0 then .done else .active attempts

/-- A budget of which nothing is spent. -/
def ofAttempts (attempts : Nat) : Budget := ⟨attempts, full attempts⟩

/-- The budget after a poll that brought `polled` entries. -/
def observe (b : Budget) (polled : Nat) : Budget :=
  match b.state with
  | .done => b
  | .active remaining =>
    if 0 < polled then { b with state := full b.attempts }
    else if remaining ≤ 1 then { b with state := .done }
    else { b with state := .active (remaining - 1) }

/-- The replay is over. -/
def isDone (b : Budget) : Bool := b.state == .done

end Budget

/-! ## Polling until then -/

/-- What one poll brought. -/
abbrev PollResult := Except BrokerError (List Entry)

/-- What a replay saw. -/
structure Summary where
  polls : Nat
  entries : Nat
  /-- The entries that are records. -/
  recovered : Nat
  /-- The other entries. -/
  skipped : Nat
  deriving DecidableEq

/-- A replay on its way. -/
structure Replay where
  budget : Budget
  summary : Summary
  /-- The records so far, in the order of the log. -/
  records : List Record
  events : List Event

namespace Replay

/-- A replay before its first poll. -/
def begin (attempts : Nat) : Replay := ⟨.ofAttempts attempts, ⟨0, 0, 0, 0⟩, [], []⟩

/-- The entries of a poll; a failed one has none. -/
def entriesOf : PollResult → List Entry
  | .ok entries => entries
  | .error _ => []

/-- What is reported of a poll before its entries are looked at. -/
def pollEvents (poll : PollResult) : List Event :=
  (match poll with
    | .ok _ => []
    | .error e => [⟨.warn, "poll of database history failed", [("error", e.message)]⟩])
  ++ [⟨.debug, "Read " ++ toString (entriesOf poll).length ++ " records from database history", []⟩]

/-- Takes one entry in. -/
def take (r : Replay) (e : Entry) : Replay :=
  match Record.parse e.payload.toList with
  | .ok record =>
    { r with
      summary := { r.summary with
        entries := r.summary.entries + 1, recovered := r.summary.recovered + 1 }
      records := r.records ++ [record]
      events := r.events ++ [⟨.trace, "Recovered database history", [("record", record.payload)]⟩] }
  | .error err =>
    { r with
      summary := { r.summary with
        entries := r.summary.entries + 1, skipped := r.summary.skipped + 1 }
      events := r.events ++ [⟨.error, "Error while deserializing history record",
        [("partition", toString e.partition), ("offset", toString e.offset),
         ("error", err.message)]⟩] }

/-- Takes the result of one poll in. -/
def observe (r : Replay) (poll : PollResult) : Replay :=
  let counted : Replay := { r with
    summary := { r.summary with polls := r.summary.polls + 1 }
    events := r.events ++ pollEvents poll }
  let taken := (entriesOf poll).foldl take counted
  { taken with budget := taken.budget.observe (entriesOf poll).length }

/-- Polls until the budget is spent, `limit` times at most. A log that never goes quiet has no end
of its replay. -/
def drain {τ : Type} (poll : τ → PollResult × τ) : Nat → Replay → τ → Option (Replay × τ)
  | limit, r, s =>
    if r.budget.isDone then some (r, s)
    else
      match limit with
      | 0 => none
      | limit + 1 =>
        let (p, s) := poll s
        drain poll limit (r.observe p) s

end Replay

end SchemaHistory
