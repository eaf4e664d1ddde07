import DelayedQueue.Text.Decimal

/-! # Durations

A duration is a whole number of nanoseconds, and shorter than 2^64 seconds. Stored scores and
settings keep whole milliseconds, rounded down.
-/

namespace DelayedQueue

/-- All of 2^64 seconds but one nanosecond. -/
def longestNanos : Nat := 18446744073709551615999999999

@[ext] structure Duration where
  nanos : Nat
  le_longest : nanos ≤ longestNanos
  deriving DecidableEq, Repr

namespace Duration

def longest : Duration := ⟨longestNanos, Nat.le_refl _⟩

/-- So many nanoseconds, or as many as a duration can have. -/
def ofNanos (n : Nat) : Duration := ⟨min n longestNanos, Nat.min_le_right _ _⟩

theorem nanos_ofNanos {n : Nat} (h : n ≤ longestNanos) : (ofNanos n).nanos = n := Nat.min_eq_left h

def ofMillis (ms : UInt64) : Duration where
  nanos := ms.toNat * 1000000
  le_longest := by
    have := ms.toNat_lt
    simp only [longestNanos]
    omega

theorem ofMillis_injective {a b : UInt64} (h : ofMillis a = ofMillis b) : a = b := by
  have hn : a.toNat * 1000000 = b.toNat * 1000000 := congrArg nanos h
  exact UInt64.toNat_inj.mp (Nat.eq_of_mul_eq_mul_right (by decide) hn)

def ofSeconds (s : UInt64) : Duration where
  nanos := s.toNat * 1000000000
  le_longest := by
    have := s.toNat_lt
    simp only [longestNanos]
    omega

def zero : Duration := ⟨0, Nat.zero_le _⟩

instance : Inhabited Duration := ⟨zero⟩

def isZero (d : Duration) : Bool := d.nanos == 0

def millis (d : Duration) : Nat := d.nanos / 1000000
def seconds (d : Duration) : Nat := d.nanos / 1000000000
def subsecNanos (d : Duration) : Nat := d.nanos % 1000000000

instance : LE Duration := ⟨fun a b => a.nanos ≤ b.nanos⟩
instance : LT Duration := ⟨fun a b => a.nanos < b.nanos⟩
instance (a b : Duration) : Decidable (a ≤ b) := inferInstanceAs (Decidable (a.nanos ≤ b.nanos))
instance (a b : Duration) : Decidable (a < b) := inferInstanceAs (Decidable (a.nanos < b.nanos))

/-- What is left of a duration without another, nothing if that is longer. -/
instance : Sub Duration :=
  ⟨fun d e => ⟨d.nanos - e.nanos, Nat.le_trans (Nat.sub_le _ _) d.le_longest⟩⟩

private def inUnit (n places : Nat) (unit : String) : String :=
  let fraction := Decimal.fraction places (n % Nat.pow 10 places)
  toString (n / Nat.pow 10 places) ++ (if fraction.isEmpty then "" else "." ++ fraction) ++ unit

/-- The largest unit that leaves a whole part, without trailing zeros: `1.5s`, `30ms`, `0ns`. -/
def text (d : Duration) : String :=
  let n := d.nanos
  if 1000000000 ≤ n then inUnit n 9 "s"
  else if 1000000 ≤ n then inUnit n 6 "ms"
  else if 1000 ≤ n then inUnit n 3 "µs"
  else inUnit n 0 "ns"

/-- As in `PT90.5S`. -/
def isoText (d : Duration) : String := "PT" ++ inUnit d.nanos 9 "S"

end Duration

end DelayedQueue
