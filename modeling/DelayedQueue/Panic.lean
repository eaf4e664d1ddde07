import DelayedQueue.Text.Cut
import DelayedQueue.Text.Quoted
import DelayedQueue.Time.Duration

/-! # Panics

What no caller is meant to go on from: arithmetic that leaves its range, a list longer than any can
be, a wall clock that stands where no time can be read, and a cut through a character. A panic ends
the handler or the task in which it happens, and anywhere else the whole run.
-/

namespace DelayedQueue

inductive Panic where
  /-- A duration times a number. -/
  | product
  /-- An instant plus a duration. -/
  | sum
  /-- A count plus one that is too large. -/
  | total
  /-- A count less a larger one. -/
  | difference
  /-- A sequence longer than any memory. -/
  | capacity
  /-- A periodic timer noticed centuries late. -/
  | lateness
  /-- The wall clock stands this long before 1970. -/
  | beforeEpoch (lead : Duration)
  /-- An id is made while the wall clock stands this long before 1970. -/
  | idBeforeEpoch (lead : Duration)
  /-- The wall clock is past the last time. -/
  | pastLatest
  /-- The part of a text that begins inside a character. -/
  | tornStart (t : Text.Torn)
  /-- The part of a text that ends inside a character. -/
  | tornEnd (t : Text.Torn)
  deriving DecidableEq, Repr

namespace Panic

def earlyText (lead : Duration) : String := "SystemTimeError(" ++ lead.text ++ ")"

def tornText (t : Text.Torn) : String :=
  " byte index " ++ toString t.place ++ " is not a char boundary; it is inside '" ++
    String.ofList (Text.escapeQuoted t.char) ++ "' (bytes " ++ toString t.first ++ ".." ++
    toString t.last ++ " of string)"

def message : Panic → String
  | .product => "overflow when multiplying duration by scalar"
  | .sum => "overflow when adding duration to instant"
  | .total => "attempt to add with overflow"
  | .difference => "attempt to subtract with overflow"
  | .capacity => "capacity overflow"
  | .lateness => "too much time has elapsed since the interval was supposed to tick"
  | .beforeEpoch lead => "system time before Unix epoch: " ++ earlyText lead
  | .idBeforeEpoch lead =>
    "Getting elapsed time since UNIX_EPOCH. If this fails, we've somehow violated causality: " ++
      earlyText lead
  | .pastLatest => "called `Option::unwrap()` on a `None` value"
  | .tornStart t => "start" ++ tornText t
  | .tornEnd t => "end" ++ tornText t

end Panic

end DelayedQueue
