import DelayedQueue.Text.Quoted

/-! # Outcomes

How a delivery ended, as it is reported to an observer.
-/

namespace DelayedQueue

inductive FailureKind where
  | error
  | timeout
  | panic
  deriving DecidableEq, Repr

namespace FailureKind

def text : FailureKind → String
  | .error => "handler_error"
  | .timeout => "handler_timeout"
  | .panic => "handler_panic"

def tag : FailureKind → String
  | .error => "Error"
  | .timeout => "Timeout"
  | .panic => "Panic"

end FailureKind

structure Failure where
  kind : FailureKind
  reason : String
  deriving DecidableEq, Repr

def Failure.text (f : Failure) : String := f.kind.text ++ ": " ++ f.reason

inductive Outcome where
  | success
  | failed (f : Failure)
  deriving DecidableEq, Repr

namespace Outcome

def isSuccess : Outcome → Bool
  | .success => true
  | .failed _ => false

def text : Outcome → String
  | .success => "success"
  | .failed f => f.text

/-- The outcome with its parts named. -/
def inspect : Outcome → String
  | .success => "Success"
  | .failed f =>
    "Failed(ProcessingFailure \x7b kind: " ++ f.kind.tag ++ ", reason: " ++ Text.quoted f.reason ++
      " \x7d)"

end Outcome

end DelayedQueue
