import DelayedQueue.Time.Basic

/-! # Calendar texts

The proleptic Gregorian date of a day number, and the two written forms of a time:
one for readers, one that sorts.
-/

namespace DelayedQueue

structure CalendarDate where
  year : Int
  month : Nat
  day : Nat
  deriving DecidableEq, Repr

/-- Days are counted from 1970. Years begin in March here, so that the leap day is the last. -/
def CalendarDate.ofDays (days : Int) : CalendarDate :=
  let z := days + 719468
  let era := z / 146097
  let dayOfEra := (z % 146097).toNat
  let yearOfEra := (dayOfEra - dayOfEra / 1460 + dayOfEra / 36524 - dayOfEra / 146096) / 365
  let dayOfYear := dayOfEra - (365 * yearOfEra + yearOfEra / 4 - yearOfEra / 100)
  let shifted := (5 * dayOfYear + 2) / 153
  let month := if shifted < 10 then shifted + 3 else shifted - 9
  { year := era * 400 + yearOfEra + if month ≤ 2 then 1 else 0
    month
    day := dayOfYear - (153 * shifted + 2) / 5 + 1 }

/-- Four digits; a sign and at least four digits outside the years 0 to 9999. -/
def CalendarDate.text (d : CalendarDate) : String :=
  let year :=
    if 0 ≤ d.year ∧ d.year ≤ 9999 then Decimal.padded 4 d.year.toNat
    else (if d.year < 0 then "-" else "+") ++ Decimal.padded 4 d.year.natAbs
  year ++ "-" ++ Decimal.padded 2 d.month ++ "-" ++ Decimal.padded 2 d.day

namespace Time

def date (t : Time) : CalendarDate := .ofDays (t.second / 86400)

/-- Hours, minutes and seconds, with three, six or nine places if there is a fraction. A leap
second is written as one more second, mostly as `60`. -/
def clockText (t : Time) : String :=
  let s := t.daySecond.toNat
  let f := (t.nanos % 1000000000).toNat
  let fraction :=
    if f = 0 then ""
    else if f % 1000000 = 0 then "." ++ Decimal.padded 3 (f / 1000000)
    else if f % 1000 = 0 then "." ++ Decimal.padded 6 (f / 1000)
    else "." ++ Decimal.padded 9 f
  Decimal.padded 2 (s / 3600) ++ ":" ++ Decimal.padded 2 (s / 60 % 60) ++ ":" ++
    Decimal.padded 2 (s % 60 + if t.leap then 1 else 0) ++ fraction

/-- As in `2023-11-14 22:13:20.500 UTC`. -/
def text (t : Time) : String := t.date.text ++ " " ++ t.clockText ++ " UTC"

/-- As in `2023-11-14T22:13:20.500Z`. -/
def sortableText (t : Time) : String := t.date.text ++ "T" ++ t.clockText ++ "Z"

example : text ⟨1483228800500000000, true, by decide, by decide, fun _ => by decide⟩ =
    "2016-12-31 23:59:60.500 UTC" := by decide +kernel

end Time

end DelayedQueue
