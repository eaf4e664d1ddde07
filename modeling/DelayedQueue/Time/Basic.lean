import DelayedQueue.Time.Duration

/-! # Points in time

A time is a number of nanoseconds since 1970 in the years -262143 to 262142. It may lie within
a leap second. That one prolongs the second before it and is counted like the second after it,
so a count can stand for two times. Adding to a time is partial; `addOrLatest` stops at the last
time there is.
-/

namespace DelayedQueue

/-- The first nanosecond of the range. -/
def earliestNanos : Int := -8334601228800000000000
/-- The last nanosecond of the range. -/
def latestNanos : Int := 8210266876799999999999

structure Time where
  nanos : Int
  /-- It lies within a leap second. -/
  leap : Bool
  earliest_le : earliestNanos ≤ nanos
  le_latest : nanos ≤ latestNanos
  prolonged : leap → earliestNanos + 1000000000 ≤ nanos
  deriving DecidableEq, Repr

namespace Time

def ofNanos? (n : Int) : Option Time :=
  if h : earliestNanos ≤ n ∧ n ≤ latestNanos then some ⟨n, false, h.1, h.2, nofun⟩ else none

theorem ofNanos?_eq_some_iff {n : Int} {t : Time} :
    ofNanos? n = some t ↔ t.leap = false ∧ t.nanos = n := by
  unfold ofNanos?
  constructor
  · intro h
    split at h
    · cases h
      exact ⟨rfl, rfl⟩
    · cases h
  · obtain ⟨nanos, leap, hearliest, hlatest, -⟩ := t
    rintro ⟨rfl, rfl⟩
    rw [dif_pos ⟨hearliest, hlatest⟩]

def ofMicros? (n : Int) : Option Time := ofNanos? (n * 1000)
def ofMillis? (n : Int) : Option Time := ofNanos? (n * 1000000)

/-- It is `k` milliseconds after 1970. No time within a leap second is, for `k` stands for one
in the second after it. -/
structure IsMillis (t : Time) (k : Int) : Prop where
  leap : t.leap = false
  nanos : t.nanos = k * 1000000

theorem ofMillis?_eq_some_iff {k : Int} {t : Time} : ofMillis? k = some t ↔ t.IsMillis k :=
  ofNanos?_eq_some_iff.trans ⟨fun h => ⟨h.1, h.2⟩, fun h => ⟨h.leap, h.nanos⟩⟩

def epoch : Time := ⟨0, false, by decide, by decide, nofun⟩
def latest : Time := ⟨latestNanos, false, by decide, by decide, nofun⟩

instance : Inhabited Time := ⟨epoch⟩

/-- Whole microseconds, rounded down. -/
def micros (t : Time) : Int := t.nanos / 1000
/-- Whole milliseconds, rounded down. -/
def millis (t : Time) : Int := t.nanos / 1000000

/-- The second that it belongs to, and that a leap second prolongs. -/
def second (t : Time) : Int := t.nanos / 1000000000 - if t.leap then 1 else 0

/-- All of a second comes before the next one. -/
instance : LE Time :=
  ⟨fun a b => a.second < b.second ∨ a.second = b.second ∧ a.nanos ≤ b.nanos⟩

instance : LT Time :=
  ⟨fun a b => a.second < b.second ∨ a.second = b.second ∧ a.nanos < b.nanos⟩

instance (a b : Time) : Decidable (a ≤ b) :=
  inferInstanceAs (Decidable (a.second < b.second ∨ a.second = b.second ∧ a.nanos ≤ b.nanos))

instance (a b : Time) : Decidable (a < b) :=
  inferInstanceAs (Decidable (a.second < b.second ∨ a.second = b.second ∧ a.nanos < b.nanos))

theorem not_le {a b : Time} : ¬ a ≤ b ↔ b < a := by
  change ¬ (a.second < b.second ∨ a.second = b.second ∧ a.nanos ≤ b.nanos) ↔
    b.second < a.second ∨ b.second = a.second ∧ b.nanos < a.nanos
  omega

theorem ext_nanos {a b : Time} (h : a.nanos = b.nanos) (hl : a.leap = b.leap) : a = b := by
  cases a; cases b; cases h; cases hl; rfl

/-- The time of a count rounded down to whole milliseconds. The range begins on one. -/
def floorMillis (t : Time) : Time where
  nanos := t.millis * 1000000
  leap := false
  earliest_le := by
    have := t.earliest_le
    simp only [millis, earliestNanos] at *
    omega
  le_latest := by
    have := t.le_latest
    simp only [millis, latestNanos] at *
    omega
  prolonged := nofun

/-- A sum within the leap second, if it is not yet over after `d`. -/
def addWithin (t : Time) (d : Duration)
    (h : t.leap ∧ (t.nanos + d.nanos) / 1000000000 = t.nanos / 1000000000) : Time where
  nanos := t.nanos + d.nanos
  leap := true
  earliest_le := by
    have := t.earliest_le
    omega
  le_latest := by
    have := t.le_latest
    simp only [latestNanos] at *
    omega
  prolonged := by
    have := t.prolonged h.1
    omega

/-- A sum past a leap second does not count it. -/
def add? (t : Time) (d : Duration) : Option Time :=
  if h : t.leap ∧ (t.nanos + d.nanos) / 1000000000 = t.nanos / 1000000000 then
    some (t.addWithin d h)
  else ofNanos? (t.nanos + d.nanos - if t.leap then 1000000000 else 0)

/-- The second of the day. -/
def daySecond (t : Time) : Int := t.second % 86400

/-- A leap second between two times of day that the difference of their counts leaves out. -/
def leapBetween (t u : Time) : Int :=
  if u.leap ∧ u.daySecond < t.daySecond then 1
  else if t.leap ∧ t.daySecond < u.daySecond then -1
  else 0

/-- How long `t` lies after `u`, zero if it does not. -/
def since (t u : Time) : Duration :=
  .ofNanos (t.nanos - u.nanos + t.leapBetween u * 1000000000).toNat

/-- The longest span that can be added to a time: 2^63 - 1 milliseconds. -/
def longestSpan : Duration := .ofMillis 9223372036854775807

inductive AddFault where
  /-- The span is longer than any that can be added. -/
  | span
  /-- The sum lies past the last time. -/
  | sum
  deriving DecidableEq, Repr

def addSpan (t : Time) (d : Duration) : Except AddFault Time :=
  if longestSpan < d then .error .span
  else match t.add? d with
    | none => .error .sum
    | some u => .ok u

def addOrLatest (t : Time) (d : Duration) : Time :=
  match t.addSpan d with
  | .ok u => u
  | .error _ => latest

end Time

end DelayedQueue
