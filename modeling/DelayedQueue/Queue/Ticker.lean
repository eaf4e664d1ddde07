import DelayedQueue.Panic
import DelayedQueue.Time.Instant

/-! # Periodic timers

The first tick comes at once. A tick noticed in time sets the next one a period after
it; one noticed late skips to the next multiple of the period that is still to come.
-/

namespace DelayedQueue

structure Ticker where
  period : Duration
  next : Instant
  deriving DecidableEq, Repr

namespace Ticker

def start (period : Duration) (now : Instant) : Ticker := ⟨period, now⟩

/-- Up to five milliseconds late is in time. -/
def tolerance : Duration := .ofMillis 5

def isDue (t : Ticker) (now : Instant) : Bool := t.next ≤ now

/-- The timer after a tick that was noticed at `now`. One beyond the end of the clock is set
to thirty years. -/
def tick (t : Ticker) (now : Instant) : Except Panic Ticker :=
  if now ≤ t.next + tolerance.nanos then
    .ok { t with next := (Instant.add? t.next t.period).getD (now + Instant.thirtyYears.nanos) }
  else
    let sinceMultiple := (now - t.next) % t.period.nanos
    match Instant.add? now t.period with
    | none => .error .sum
    | some next =>
      if sinceMultiple < UInt64.size then .ok { t with next := next - sinceMultiple }
      else .error .lateness

end Ticker

end DelayedQueue
