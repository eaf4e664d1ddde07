import DelayedQueue.Config.Basic

/-! # Settings

The written form of a configuration: durations are whole milliseconds in 64 bits, and
the rate limit is spread over two optional fields.
-/

namespace DelayedQueue

structure Settings where
  name : String
  retryIntervalMs : UInt64
  retryTimes : UInt32
  workerCount : UInt64
  pollIntervalMs : UInt64
  daemonIntervalMs : UInt64
  consumeTimeoutMs : UInt64
  promoteBatchSize : UInt64
  rateLimitIntervalMs : Option UInt64
  rateLimitBurst : Option UInt32
  deriving DecidableEq, Repr

namespace Settings

def ofConfig (c : Config) : Settings where
  name := c.name
  retryIntervalMs := Config.wrappedMillis c.retryInterval
  retryTimes := c.retryTimes
  workerCount := c.workerCount
  pollIntervalMs := Config.wrappedMillis c.pollInterval
  daemonIntervalMs := Config.wrappedMillis c.daemonInterval
  consumeTimeoutMs := Config.wrappedMillis c.consumeTimeout
  promoteBatchSize := c.promoteBatchSize
  rateLimitIntervalMs := c.rateLimit.map fun r => Config.wrappedMillis r.interval
  rateLimitBurst := c.rateLimit.map RateLimit.burst

def default : Settings := ofConfig {}

/-- The burst is one if only the interval is given. -/
def rateLimit (s : Settings) : Except Config.Fault (Option RateLimit) :=
  match s.rateLimitIntervalMs, s.rateLimitBurst with
  | some ms, burst => .ok (some ⟨.ofMillis ms, burst.getD 1⟩)
  | none, some _ => .error .burstAlone
  | none, none => .ok none

def withRateLimit (s : Settings) (r : Option RateLimit) : Config where
  name := s.name
  retryInterval := .ofMillis s.retryIntervalMs
  retryTimes := s.retryTimes
  workerCount := s.workerCount
  pollInterval := .ofMillis s.pollIntervalMs
  daemonInterval := .ofMillis s.daemonIntervalMs
  consumeTimeout := .ofMillis s.consumeTimeoutMs
  promoteBatchSize := s.promoteBatchSize
  rateLimit := r

/-- The configuration, if it is a valid one. -/
def toConfig (s : Settings) : Except QueueError Config :=
  match s.rateLimit with
  | .error f => .error (.configuration f.message)
  | .ok r =>
    let c := s.withRateLimit r
    match c.validate with
    | .error e => .error e
    | .ok () => .ok c

end Settings

end DelayedQueue
