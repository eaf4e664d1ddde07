import Mathlib.Algebra.Order.Field.Basic
import Mathlib.Algebra.Order.Ring.Rat
import Mathlib.Tactic.Linarith
import Mathlib.Tactic.Ring
import DelayedQueue.Proofs.Limiter.Arrival
import DelayedQueue.Proofs.Limiter.Window

/-! # The limiter is a token bucket

A bucket that is full at first, gains tokens all the time until it is full again, and gives one to
each reservation, be it one that it does not have yet. Its level is all that a wait depends on, and
the arrival time that a limiter keeps says the same as the level: each reservation waits as long
as the bucket has it wait, neither more nor less.
-/

namespace DelayedQueue

/-- What is in a bucket. -/
structure Bucket where
  /-- In tokens; those that are owed count below zero. -/
  level : ℚ
  /-- When the bucket had this level. -/
  seen : Instant

namespace Bucket

variable (r : RateLimit)

def full (now : Instant) : Bucket := ⟨r.burst.toNat, now⟩

/-- One token for each interval, without steps, until the bucket is full. -/
def fill (b : Bucket) (t : Instant) : Bucket :=
  ⟨min (b.level + ((t : ℚ) - b.seen) / r.interval.nanos) r.burst.toNat, t⟩

def draw (b : Bucket) : Bucket := { b with level := b.level - 1 }

/-- How long it takes to gain what is owed. -/
def repayment (b : Bucket) : ℚ := max 0 (-b.level) * r.interval.nanos

/-- How long each of the reservations at these instants has to wait. -/
def waits (b : Bucket) : List Instant → List ℚ
  | [] => []
  | t :: ts => ((b.fill r t).draw).repayment r :: ((b.fill r t).draw).waits ts

/-- The bucket lacks as much as the limiter is ahead of it. -/
structure Matches (nextFree : Nat) (b : Bucket) : Prop where
  seen_le : b.seen ≤ nextFree
  level : b.level * r.interval.nanos = r.burst.toNat * r.interval.nanos - (nextFree - b.seen)

variable {r} {nextFree t : Nat} {b : Bucket} {ts : List Instant}

theorem matches_full (now : Instant) : Matches r now (full r now) :=
  ⟨Nat.le_refl _, by simp [full]⟩

namespace Matches

variable (h : Matches r nextFree b)

include h

theorem fill (ht : b.seen ≤ t) : Matches r (max nextFree t) (b.fill r t) := by
  refine ⟨Nat.le_max_right _ _, ?_⟩
  have hseen : (b.seen : ℚ) ≤ nextFree := Nat.cast_le.mpr h.seen_le
  have ht : (b.seen : ℚ) ≤ t := Nat.cast_le.mpr ht
  have hlevel := h.level
  rcases Nat.eq_zero_or_pos r.interval.nanos with h₀ | hpos
  · simp only [h₀, Nat.cast_zero, mul_zero, zero_sub] at hlevel
    simp only [h₀, Nat.cast_zero, mul_zero, zero_sub, Nat.cast_max, Bucket.fill]
    rw [max_eq_right (by linarith)]
    ring
  · have hI : (0 : ℚ) < r.interval.nanos := Nat.cast_pos.mpr hpos
    have hgain : (b.level + ((t : ℚ) - b.seen) / r.interval.nanos) * r.interval.nanos =
        r.burst.toNat * r.interval.nanos - (nextFree - t) := by
      rw [add_mul, div_mul_cancel₀ _ hI.ne', hlevel]
      ring
    simp only [Bucket.fill, min_mul_of_nonneg _ _ hI.le, hgain, Nat.cast_max]
    rcases le_total (nextFree : ℚ) t with hle | hle
    · rw [max_eq_right hle, min_eq_right (by linarith)]
      ring
    · rw [max_eq_left hle, min_eq_left (by linarith)]

theorem draw : Matches r (nextFree + r.interval.nanos) b.draw := by
  refine ⟨Nat.le_add_right_of_le h.seen_le, ?_⟩
  have hlevel := h.level
  simp only [Bucket.draw, Nat.cast_add, sub_mul, one_mul, hlevel]
  ring

/-- The debt is repaid when the token is less than a full bucket away. -/
theorem repayment_draw (hB : 0 < r.burst.toNat) :
    b.draw.repayment r = r.wait b.seen nextFree := by
  have hB : ((r.burst.toNat - 1 : Nat) : ℚ) = r.burst.toNat - 1 := by
    rw [Nat.cast_sub hB, Nat.cast_one]
  have hI : (0 : ℚ) ≤ r.interval.nanos := Nat.cast_nonneg _
  have hlevel := h.draw.level
  have hdebt : -b.draw.level * r.interval.nanos =
      (nextFree : ℚ) - b.seen - r.slack := by
    simp only [RateLimit.slack, Nat.cast_mul, Nat.cast_add, hB] at hlevel ⊢
    have hseen : (b.draw.seen : ℚ) = b.seen := rfl
    rw [hseen] at hlevel
    linarith
  simp only [Bucket.repayment, max_mul_of_nonneg _ _ hI, zero_mul, hdebt, RateLimit.wait]
  rcases Nat.le_total nextFree (b.seen + r.slack) with hle | hle
  · have hcast : (nextFree : ℚ) ≤ b.seen + r.slack := by exact_mod_cast hle
    rw [max_eq_left (by linarith), Nat.sub_sub, Nat.sub_eq_zero_of_le hle, Nat.cast_zero]
  · have hcast : (b.seen + r.slack : ℚ) ≤ nextFree := by exact_mod_cast hle
    rw [max_eq_right (by linarith), Nat.sub_sub, Nat.cast_sub hle, Nat.cast_add]
    ring

theorem waits_eq (hB : 0 < r.burst.toNat) (hs : (b.seen :: ts).Pairwise (· ≤ ·)) :
    b.waits r ts = (List.zipWith r.wait ts (r.tokens nextFree ts)).map (Nat.cast : ℕ → ℚ) := by
  induction ts generalizing nextFree b with
  | nil => rfl
  | cons t ts ih =>
    obtain ⟨hle, hs⟩ := List.pairwise_cons.mp hs
    have hfill := h.fill (hle t List.mem_cons_self)
    exact congrArg₂ List.cons (hfill.repayment_draw hB) (ih hfill.draw hs)

end Matches

end Bucket

namespace RateLimit

variable {r : RateLimit} {begun : Nat} {ts : List Instant}

/-- Reservations at any instants that do not go back, the first of them not before the limiter
began, and so that nothing is out of range: all are granted; the wait of each is the time from it to
the arrival of its token, less what the burst allows, and none if that is over; and it is the wait
for a bucket that was full when the limiter began to have repaid the token. -/
theorem wait_exact (hB : 0 < r.burst.toNat) (hs : (begun :: ts).Pairwise (· ≤ ·))
    (hproduct : r.slack ≤ longestNanos)
    (hsum : ∀ i < ts.length, r.arrival ts i + r.interval.nanos < Instant.limit) :
    ∃ l waits l', Limiter.start r begun = .ok l ∧ l.reserveAll ts = .ok (waits, l') ∧
      waits.length = ts.length ∧
      (∀ (i t : Nat) (wait : Duration), ts[i]? = some t → waits[i]? = some wait →
        (wait.nanos : Int) =
          max 0 ((r.arrival ts i : Int) - (r.burst.toNat - 1) * r.interval.nanos - t)) ∧
      waits.map (fun wait => (wait.nanos : ℚ)) = (Bucket.full r begun).waits r ts := by
  obtain ⟨⟨waits, l'⟩, hr⟩ := (exists_reserveAll_begun_iff hs).mpr hsum
  have hwaits := waits_of_reserveAll hr
  refine ⟨_, waits, l', start_of_le hproduct, hr, ?_, ?_, ?_⟩
  · rw [← List.length_map Duration.nanos, hwaits, List.length_zipWith, length_tokens, Nat.min_self]
  · intro i t wait ht hw
    have hw : (waits.map Duration.nanos)[i]? = some wait.nanos := by rw [List.getElem?_map, hw]; rfl
    rw [hwaits] at hw
    obtain ⟨t', token, ht', htoken, he⟩ := List.getElem?_zipWith_eq_some.mp hw
    obtain rfl := Option.some.inj (ht.symm.trans ht')
    have hslack : (r.slack : Int) = (r.burst.toNat - 1) * r.interval.nanos := by
      simp only [slack, Int.natCast_mul, Int.natCast_sub hB]
      exact Int.mul_comm _ _
    rw [← token_eq_arrival hs htoken, ← hslack, ← he, RateLimit.wait]
    omega
  · have hbucket := (Bucket.matches_full begun).waits_eq hB hs
    rw [hbucket, ← hwaits, List.map_map]
    rfl

/-- After the idle second the bucket is full again, and the fourth reservation owes two tokens. -/
theorem wait_exact_idle : 0 < pairLimit.burst.toNat ∧ (0 :: idleInstants).Pairwise (· ≤ ·) ∧
    pairLimit.slack ≤ longestNanos ∧
    (∀ i < idleInstants.length,
      pairLimit.arrival idleInstants i + pairLimit.interval.nanos < Instant.limit) ∧
    (Bucket.full pairLimit 0).waits pairLimit idleInstants =
      [0, 0, 20000000, 0, 0, 20000000, 40000000] := by
  have hB : 0 < pairLimit.burst.toNat := by decide
  have hs : (0 :: idleInstants).Pairwise (· ≤ ·) := by decide
  have hproduct : pairLimit.slack ≤ longestNanos := by decide
  have hsum : ∀ i < idleInstants.length,
      pairLimit.arrival idleInstants i + pairLimit.interval.nanos < Instant.limit := by decide
  have hr : (pairLimit.limiter 0).reserveAll idleInstants =
      .ok (idleWaits, pairLimit.limiter (.ofMillis 1080)) := by decide
  obtain ⟨l, waits, l', hl, hr', -, -, hbucket⟩ := wait_exact hB hs hproduct hsum
  obtain rfl := start_eq hl
  cases hr.symm.trans hr'
  refine ⟨hB, hs, hproduct, hsum, hbucket.symm.trans ?_⟩
  norm_num [idleWaits, Duration.ofMillis, UInt64.toNat_ofNat]

end RateLimit

end DelayedQueue
