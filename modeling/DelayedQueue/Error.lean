import DelayedQueue.Time.Duration

/-! # Errors of a queue

Each names the operation that failed. Reasons come from outside, as text.
-/

namespace DelayedQueue

inductive QueueError where
  | takeFailed (reason : String)
  | decodeFailed (reason : String)
  | commitFailed (id reason : String)
  | produceFailed (reason : String)
  | rescheduleFailed (id reason : String)
  | promoteFailed (reason : String)
  | store (reason : String)
  | serialization (reason : String)
  | configuration (reason : String)
  | alreadyConsuming (queue : String)
  | shutdownTimeout (deadline : Duration)
  deriving DecidableEq, Repr

namespace QueueError

def message : QueueError → String
  | .takeFailed r => "take message failed: " ++ r
  | .decodeFailed r => "decode message failed: " ++ r
  | .commitFailed id r => "commit message " ++ id ++ " failed: " ++ r
  | .produceFailed r => "produce message failed: " ++ r
  | .rescheduleFailed id r => "reschedule message " ++ id ++ " failed: " ++ r
  | .promoteFailed r => "promote due messages failed: " ++ r
  | .store r => "store error: " ++ r
  | .serialization r => "serialization error: " ++ r
  | .configuration r => "configuration error: " ++ r
  | .alreadyConsuming q => "queue " ++ q ++ " is already consuming"
  | .shutdownTimeout d =>
    "shutdown deadline of " ++ d.text ++ " exceeded, workers still draining"

/-- Only the waiting ended; nothing went wrong. -/
def isShutdownTimeout : QueueError → Bool
  | .shutdownTimeout _ => true
  | _ => false

/-- Calls the message that an error is about by another name. -/
def mapId (call : String → String) : QueueError → QueueError
  | .commitFailed id r => .commitFailed (call id) r
  | .rescheduleFailed id r => .rescheduleFailed (call id) r
  | e => e

end QueueError

end DelayedQueue
