import DelayedQueue.Time.Basic

/-! # A time and a span

A sum is exact or there is none: whether a span is refused for its own length or for where it leads
to, the sum would lie past the last time. So the sum that stops there is the smaller of the two.
This is said of times outside leap seconds, as a clock shows them.
-/

namespace DelayedQueue.Time

variable {t u : Time} {d e : Duration} {f : AddFault}

/-- Apart from leap seconds the order is that of the counts. -/
theorem le_iff_nanos (ht : t.leap = false) (hu : u.leap = false) : t ≤ u ↔ t.nanos ≤ u.nanos := by
  change t.second < u.second ∨ t.second = u.second ∧ t.nanos ≤ u.nanos ↔ _
  simp only [second, ht, hu]
  omega

theorem nanos_since (ht : t.leap = false) (hu : u.leap = false) :
    (t.since u).nanos = (t.nanos - u.nanos).toNat := by
  have hlatest := t.le_latest
  have hearliest := u.earliest_le
  simp only [since, leapBetween, ht, hu, Bool.false_eq_true, false_and, if_false]
  rw [Duration.nanos_ofNanos]
  · omega
  · simp only [earliestNanos, latestNanos, longestNanos] at *
    omega

theorem add?_eq (h : t.leap = false) : t.add? d = ofNanos? (t.nanos + d.nanos) := by
  simp [add?, h]

theorem add?_eq_some_iff (h : t.leap = false) :
    t.add? d = some u ↔ u.leap = false ∧ u.nanos = t.nanos + d.nanos := by
  rw [add?_eq h, ofNanos?_eq_some_iff]

theorem add?_eq_none_iff (h : t.leap = false) :
    t.add? d = none ↔ latestNanos < t.nanos + d.nanos := by
  have hearliest := t.earliest_le
  rw [add?_eq h, ofNanos?, dite_eq_right_iff]
  constructor
  · intro h
    refine Int.not_le.mp fun hle => ?_
    cases h ⟨by omega, by omega⟩
  · intro h hr
    omega

theorem latestNanos_lt_of_longestSpan_lt (t : Time) (h : longestSpan < d) :
    latestNanos < t.nanos + d.nanos := by
  have hearliest := t.earliest_le
  have hspan : longestSpan.nanos = 9223372036854775807000000 := rfl
  have hd : longestSpan.nanos < d.nanos := h
  simp only [earliestNanos, latestNanos] at *
  omega

theorem addSpan_eq_ok_iff (h : t.leap = false) :
    t.addSpan d = .ok u ↔ u.leap = false ∧ u.nanos = t.nanos + d.nanos := by
  have hlatest := u.le_latest
  unfold addSpan
  split
  · next hd =>
    have hlt := t.latestNanos_lt_of_longestSpan_lt hd
    simp only [reduceCtorEq, false_iff]
    omega
  · rw [← add?_eq_some_iff h]
    cases t.add? d <;> simp

theorem addSpan_eq_error_iff (h : t.leap = false) : t.addSpan d = .error f ↔
    latestNanos < t.nanos + d.nanos ∧ f = if longestSpan < d then .span else .sum := by
  unfold addSpan
  split
  · next hd =>
    simp only [Except.error.injEq, t.latestNanos_lt_of_longestSpan_lt hd, true_and, eq_comm]
  · rw [← add?_eq_none_iff h]
    cases t.add? d <;> simp [eq_comm]

theorem nanos_addOrLatest (h : t.leap = false) :
    (t.addOrLatest d).nanos = min (t.nanos + d.nanos) latestNanos := by
  unfold addOrLatest
  split
  · next u hu =>
    have hsum := ((addSpan_eq_ok_iff h).mp hu).2
    have hlatest := u.le_latest
    omega
  · next hf =>
    have hlt := ((addSpan_eq_error_iff h).mp hf).1
    change latestNanos = _
    omega

theorem leap_addOrLatest (h : t.leap = false) : (t.addOrLatest d).leap = false := by
  unfold addOrLatest
  split
  · next hu => exact ((addSpan_eq_ok_iff h).mp hu).1
  · rfl

theorem addSpan_of_le (h : t.leap = false) (hle : t.nanos + d.nanos ≤ latestNanos) :
    t.addSpan d = .ok (t.addOrLatest d) := by
  rw [addSpan_eq_ok_iff h, nanos_addOrLatest h]
  exact ⟨leap_addOrLatest h, Int.min_eq_left hle⟩

theorem le_addOrLatest (h : t.leap = false) (d : Duration) : t ≤ t.addOrLatest d := by
  have hlatest := t.le_latest
  rw [le_iff_nanos h (leap_addOrLatest h), nanos_addOrLatest h]
  omega

theorem addOrLatest_mono (h : t.leap = false) (hle : d ≤ e) :
    t.addOrLatest d ≤ t.addOrLatest e := by
  have hle : d.nanos ≤ e.nanos := hle
  rw [le_iff_nanos (leap_addOrLatest h) (leap_addOrLatest h), nanos_addOrLatest h,
    nanos_addOrLatest h]
  omega

end DelayedQueue.Time
