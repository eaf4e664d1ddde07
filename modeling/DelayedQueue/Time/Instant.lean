import DelayedQueue.Time.Duration

/-! # Instants of a machine

Waits are measured on a clock of their own, in nanoseconds since the machine was started. A sum
on it is there as long as its seconds fit 63 bits.

What timers do is taken for granted, here and nowhere else. None goes off early. A sleep ends
after thirty years if its time is not over by then (`afterSleep`). What has a deadline is given
all of its time, past the end of the clock as well (`deadline`).
-/

namespace DelayedQueue

abbrev Instant := Nat

namespace Instant

/-- The clock ends after 2^63 seconds. -/
def limit : Instant := 9223372036854775808000000000

def add? (t : Instant) (d : Duration) : Option Instant :=
  if t + d.nanos < limit then some (t + d.nanos) else none

/-- How long `t` is after `u`, zero if it is not. -/
def since (t u : Instant) : Duration := .ofNanos (t - u)

def thirtyYears : Duration := .ofSeconds 946080000

/-- When a sleep of `d` that begins at `t` ends. -/
def afterSleep (t : Instant) (d : Duration) : Instant := t + min d.nanos thirtyYears.nanos

/-- When what is given `d` at `t` runs out of time. -/
def deadline (t : Instant) (d : Duration) : Instant := t + d.nanos

def ofMillis (ms : Nat) : Instant := ms * 1000000

/-- Whole milliseconds from `begun` on. -/
def millisSince (t begun : Instant) : Nat := (t - begun) / 1000000

/-- The clock stands on whole milliseconds only. A timer is noticed on the first one
that is not before it. -/
def ceilMillis (t : Instant) : Instant := (t + 999999) / 1000000 * 1000000

end Instant

end DelayedQueue
