import SchemaHistory.CommandLine.Failure

/-!
# Recording one change

A change is recorded by starting a history, storing the change and stopping the history. A
history that was started is stopped whatever became of the change, and a failure to record
is told rather than a failure to stop.
-/

namespace SchemaHistory

/-- Somewhere to record changes, with states `τ`. -/
structure Recorder (τ : Type) where
  start : τ → Except HistoryError Unit × τ
  record : Members → Members → Option String → String → τ → Except HistoryError Unit × τ
  stop : τ → Except HistoryError Unit × τ

/-- Why a change could not be recorded. -/
inductive ChangeError
  | start (error : HistoryError)
  /-- The change was not taken. -/
  | record (error : HistoryError)
  /-- The change was taken and the stop failed. -/
  | stop (error : HistoryError)
  deriving DecidableEq

/-- The error as a failure. -/
def ChangeError.failure : ChangeError → Failure
  | start e => e.failure
  | record e => e.failure.within "recording schema change"
  | stop e => e.failure.within "stopping database history"

namespace Recorder

/-- The recorder that a history is. The reports of the history are not kept. -/
def ofHistory {τ : Type} (host : Host τ) : Recorder (History × τ) where
  start hs :=
    let (result, h, s) := hs.1.start host hs.2
    (result, h, s)
  record source position database ddl hs :=
    let (result, _, s) := hs.1.record host source position database ddl hs.2
    (result, hs.1, s)
  stop hs :=
    let (result, h, s) := hs.1.stop host hs.2
    (result, h, s)

/-- What recording and stopping come to. -/
def outcome : Except HistoryError Unit → Except HistoryError Unit → Except ChangeError Unit
  | .error e, _ => .error (.record e)
  | .ok _, .error e => .error (.stop e)
  | .ok _, .ok _ => .ok ()

/-- Records one change. -/
def change {τ : Type} (r : Recorder τ) (source position : Members) (database : Option String)
    (ddl : String) (s : τ) : Except ChangeError Unit × τ :=
  match r.start s with
  | (.error e, s) => (.error (.start e), s)
  | (.ok _, s) =>
    let (recorded, s) := r.record source position database ddl s
    let (stopped, s) := r.stop s
    (outcome recorded stopped, s)

end Recorder

end SchemaHistory
