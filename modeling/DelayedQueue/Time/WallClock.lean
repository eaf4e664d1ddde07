import DelayedQueue.Panic
import DelayedQueue.Time.Basic
import DelayedQueue.Time.Instant

/-! # The wall clock

It can be read from 1970 up to the last time there is, wherever else it may stand. It goes at
the pace of the clock that waits are measured on.
-/

namespace DelayedQueue

/-- What the two clocks of a machine show at one moment. -/
structure Clocks where
  wall : Time
  instant : Instant
  deriving DecidableEq, Repr

/-- Where the wall clock stands at instant `t`, in nanoseconds after 1970. -/
def Clocks.nanosAt (c : Clocks) (t : Instant) : Int := c.wall.nanos + (t - c.instant : Int)

theorem Clocks.nanosAt_le (c : Clocks) {t u : Instant} (h : t ≤ u) :
    c.nanosAt t ≤ c.nanosAt u :=
  Int.add_le_add_left (Int.sub_le_sub_right (Int.ofNat_le.mpr h) _) _

namespace WallClock

/-- What a clock shows that stands this many nanoseconds after 1970. -/
def read (nanos : Int) : Except Panic Time :=
  if nanos < 0 then .error (.beforeEpoch (.ofNanos (-nanos).toNat))
  else match Time.ofNanos? nanos with
    | some t => .ok t
    | none => .error .pastLatest

/-- What a machine with these clocks shows at instant `t`. -/
def readAt (begun : Clocks) (t : Instant) : Except Panic Time := read (begun.nanosAt t)

theorem read_eq_ok_iff {n : Int} {t : Time} :
    read n = .ok t ↔ 0 ≤ n ∧ t.leap = false ∧ t.nanos = n := by
  unfold read
  split
  · next h => simp [Int.not_le.mpr h]
  · next h =>
    rw [← Time.ofNanos?_eq_some_iff, and_iff_right (Int.not_lt.mp h)]
    cases Time.ofNanos? n <;> simp

theorem readAt_eq_ok_iff {begun : Clocks} {t : Instant} {now : Time} :
    readAt begun t = .ok now ↔
      0 ≤ begun.nanosAt t ∧ now.leap = false ∧ now.nanos = begun.nanosAt t := read_eq_ok_iff

end WallClock

end DelayedQueue
