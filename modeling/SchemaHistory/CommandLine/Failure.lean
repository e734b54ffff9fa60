import SchemaHistory.History

/-!
# Failures as they are reported

A failure says what could not be done and why: its message comes first, then its causes,
each the reason of the one before. It is reported on several lines, so that a cause whose
text has lines of its own stays recognisable as one.
-/

namespace SchemaHistory

/-- What could not be done, and why. -/
structure Failure where
  message : String
  /-- Why, the nearest cause first. -/
  causes : List String
  deriving DecidableEq

namespace Failure

/-- A failure that explains itself. -/
def plain (message : String) : Failure := ⟨message, []⟩

/-- A failure as the cause of a larger one. -/
def within (f : Failure) (message : String) : Failure := ⟨message, f.message :: f.causes⟩

/-- The failure on one line, if its parts are on one. -/
def joined (f : Failure) : String := ": ".intercalate (f.message :: f.causes)

/-- A text whose further lines begin with a margin. -/
def hang (margin text : String) : String := ("\n" ++ margin).intercalate (text.splitOn "\n")

/-- A cause that is the only one. -/
def onlyCause (cause : String) : String := "\n    " ++ hang "    " cause

/-- A cause with its number, which is set to the right in five columns. -/
def numberedCause (number : Nat) (cause : String) : String :=
  "\n" ++ String.ofList ((Nat.toDigits 10 number).leftpad 5 ' ') ++ ": " ++ hang "       " cause

/-- The lines of the causes. One single cause has no number. -/
def causeLines : List String → String
  | [] => ""
  | [cause] => "\n\nCaused by:" ++ onlyCause cause
  | causes =>
    "\n\nCaused by:" ++ String.join (causes.zipIdx.map fun c => numberedCause c.2 c.1)

/-- The failure as it is reported. -/
def report (f : Failure) : String := "Error: " ++ f.message ++ causeLines f.causes ++ "\n"

end Failure

/-- What made a log refuse. Only a failure of the system has a cause of its own. -/
def BrokerError.causes : BrokerError → List String
  | io reason => [reason]
  | _ => []

/-- A refusal of a log as a failure. -/
def BrokerError.failure (e : BrokerError) : Failure := ⟨e.message, e.causes⟩

/-- An error of a history as a failure. Its text tells the refusal of the log, which follows once
more as the cause. -/
def HistoryError.failure : HistoryError → Failure
  | notStarted => .plain HistoryError.notStarted.message
  | broker e => e.failure.within (HistoryError.broker e).message

end SchemaHistory
