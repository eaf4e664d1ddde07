import DelayedQueue.Error
import DelayedQueue.Limiter
import DelayedQueue.Log.Event

/-! # Configuration of a queue

Accepted is a configuration with a name, a worker, a promotion batch of one to a
thousand, no interval of zero, and a rate limit that lets something through. A retry
that can overtake a running handler is accepted, with a warning.
-/

namespace DelayedQueue

structure Config where
  name : String := "default"
  /-- How long after a take the message falls due again. -/
  retryInterval : Duration := .ofMillis 5000
  /-- Deliveries after the first one. -/
  retryTimes : UInt32 := 3
  workerCount : UInt64 := 1
  pollInterval : Duration := .ofMillis 100
  daemonInterval : Duration := .ofMillis 100
  /-- How long a handler may take for one message. -/
  consumeTimeout : Duration := .ofMillis 5000
  /-- How many ids one promotion moves at most. -/
  promoteBatchSize : UInt64 := 100
  rateLimit : Option RateLimit := none
  deriving DecidableEq, Repr

namespace Config

def largestBatch : Nat := 1000

/-- How often a message is handed to a handler at most. -/
def maxDeliveries (c : Config) : UInt64 := c.retryTimes.toUInt64 + 1

/-- Whether a message can fall due again before its handler has to be done. -/
def redeliveryOverlaps (c : Config) : Bool := c.retryInterval < c.consumeTimeout

inductive Interval where
  | retry
  | poll
  | daemon
  | consume
  deriving DecidableEq, Repr

def Interval.all : List Interval := [.retry, .poll, .daemon, .consume]

def Interval.name : Interval → String
  | .retry => "retry_interval"
  | .poll => "poll_interval"
  | .daemon => "daemon_interval"
  | .consume => "consume_timeout"

def interval (c : Config) : Interval → Duration
  | .retry => c.retryInterval
  | .poll => c.pollInterval
  | .daemon => c.daemonInterval
  | .consume => c.consumeTimeout

inductive Fault where
  | emptyName
  | noWorkers
  | batchSize
  | zero (i : Interval)
  | emptyRateLimit
  /-- A burst was given and no interval to go with it. -/
  | burstAlone
  deriving DecidableEq, Repr

def Fault.message : Fault → String
  | .emptyName => "queue name is empty"
  | .noWorkers => "worker_count must be at least 1"
  | .batchSize => "promote_batch_size must be between 1 and " ++ toString largestBatch
  | .zero i => i.name ++ " must be non-zero"
  | .emptyRateLimit => "rate limit needs a non-zero interval and burst"
  | .burstAlone => "rate_limit_burst set without rate_limit_interval_ms"

/-- The first thing that is wrong. -/
def fault? (c : Config) : Option Fault :=
  if c.name.isEmpty then some .emptyName
  else if c.workerCount = 0 then some .noWorkers
  else if c.promoteBatchSize = 0 ∨ largestBatch < c.promoteBatchSize.toNat then some .batchSize
  else match Interval.all.find? fun i => (c.interval i).isZero with
    | some i => some (.zero i)
    | none =>
      match c.rateLimit with
      | none => none
      | some r => if r.interval.isZero || r.burst == 0 then some .emptyRateLimit else none

def validate (c : Config) : Except QueueError Unit :=
  match c.fault? with
  | none => .ok ()
  | some f => .error (.configuration f.message)

/-- Milliseconds in 64 bits. What does not fit wraps around. -/
def wrappedMillis (d : Duration) : UInt64 := UInt64.ofNat d.millis

def overlapWarning (c : Config) : Log.Event where
  level := .warn
  target := Log.configTarget
  message := "retry_interval is shorter than consume_timeout; a slow handler's message can " ++
    "be redelivered while it still runs"
  fields := [("queue", .bare c.name),
    ("retry_interval_ms", .number (wrappedMillis c.retryInterval).toNat),
    ("consume_timeout_ms", .number (wrappedMillis c.consumeTimeout).toNat)]

/-- What `validate` reports. A configuration that is refused is not warned about. -/
def warnings (c : Config) : List Log.Event :=
  if c.fault?.isNone && c.redeliveryOverlaps then [c.overlapWarning] else []

end Config

end DelayedQueue
