/-! # Log events

What a queue reports, before anyone decides whether and how to print it.
-/

namespace DelayedQueue.Log

inductive Level where
  | trace
  | debug
  | info
  | warn
  | error
  deriving DecidableEq, Repr

namespace Level

def rank : Level → Nat
  | .trace => 0
  | .debug => 1
  | .info => 2
  | .warn => 3
  | .error => 4

def all : List Level := [.trace, .debug, .info, .warn, .error]

def name : Level → String
  | .trace => "trace"
  | .debug => "debug"
  | .info => "info"
  | .warn => "warn"
  | .error => "error"

def upperName : Level → String
  | .trace => "TRACE"
  | .debug => "DEBUG"
  | .info => "INFO"
  | .warn => "WARN"
  | .error => "ERROR"

/-- Whether an event of this level is at least as severe as `least`. -/
def reaches (l least : Level) : Bool := least.rank ≤ l.rank

end Level

inductive Value where
  /-- Printed as it is. -/
  | bare (s : String)
  /-- Quoted where the format has no quotes of its own. -/
  | text (s : String)
  | number (n : Nat)
  | flag (b : Bool)
  /-- The event has such a field, and this time there is nothing in it. -/
  | unset
  deriving DecidableEq, Repr

structure Event where
  level : Level
  /-- The part of the system that reports. -/
  target : String
  message : String
  fields : List (String × Value)
  deriving DecidableEq, Repr

namespace Event

/-- The names of all fields that such an event has, set or not. -/
def fieldNames (e : Event) : List String := "message" :: e.fields.map (·.1)

/-- The fields that are set. -/
def recorded (e : Event) : List (String × Value) := e.fields.filter (·.2 != .unset)

end Event

def configTarget : String := "dq_core::config"
def queueTarget : String := "dq_core::queue"
def poolTarget : String := "dq_core::worker_pool"
def workerTarget : String := "dq_core::worker"
def daemonTarget : String := "dq_core::daemon"
def handlerTarget : String := "dq_core::handler"
def storeTarget : String := "dq_core::store::memory"
def loggingTarget : String := "dq_core::logging"

/-- The uniform report of a lifecycle operation. -/
def queueOperation (operation queue status : String) (details : Option String) : Event where
  level := .info
  target := loggingTarget
  message := "QUEUE_OPERATION"
  fields := [("operation", .bare operation), ("queue", .bare queue), ("status", .bare status),
    ("details", (details.map Value.text).getD .unset)]

end DelayedQueue.Log
