import DelayedQueue.Panic
import DelayedQueue.Time.Instant

/-! # The rate limiter

A token bucket kept as one instant, the arrival time of the next token if none were
banked. Every reservation pushes it on by one interval and waits until it is less than
a full bucket away, so reservations are granted in order.
-/

namespace DelayedQueue

/-- One token for each `interval`, at most `burst` of them banked. -/
structure RateLimit where
  interval : Duration
  burst : UInt32
  deriving DecidableEq, Repr

structure Limiter where
  interval : Duration
  /-- How far the arrival time may run ahead without a wait. -/
  slack : Duration
  nextFree : Instant
  deriving DecidableEq, Repr

namespace Limiter

/-- A full bucket. -/
def start (r : RateLimit) (now : Instant) : Except Panic Limiter :=
  if h : r.interval.nanos * (r.burst.toNat - 1) ≤ longestNanos then
    .ok ⟨r.interval, ⟨_, h⟩, now⟩
  else .error .product

/-- Takes a token, and says how long it will take to be there. -/
def reserve (l : Limiter) (now : Instant) : Except Panic (Duration × Limiter) :=
  let arrival := max l.nextFree now
  match Instant.add? arrival l.interval with
  | none => .error .sum
  | some nextFree => .ok (Instant.since arrival now - l.slack, { l with nextFree })

end Limiter

end DelayedQueue
