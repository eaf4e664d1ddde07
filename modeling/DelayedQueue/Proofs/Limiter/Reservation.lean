import DelayedQueue.Limiter

/-! # Reservations

A limiter with a rate limit `r` is told by one instant, when its next token is there. A reservation
takes that token, or the one of this instant if the limiter has some left over, and the token
after it comes one interval later. So the tokens that a run of reservations takes are at least an
interval apart, and each reservation waits until its token is less than a full bucket away.
-/

namespace DelayedQueue

namespace RateLimit

/-- How far the next token may be ahead without a wait, in nanoseconds. -/
def slack (r : RateLimit) : Nat := r.interval.nanos * (r.burst.toNat - 1)

/-- The limiter of the rate limit `r`. -/
def limiter (r : RateLimit) (nextFree : Instant) : Limiter :=
  ⟨r.interval, .ofNanos r.slack, nextFree⟩

/-- When the tokens are there that are taken at these instants. -/
def tokens (r : RateLimit) (nextFree : Instant) : List Instant → List Instant
  | [] => []
  | t :: ts => max nextFree t :: r.tokens (max nextFree t + r.interval.nanos) ts

/-- How long a reservation at `t` waits for its token, in nanoseconds. -/
def wait (r : RateLimit) (t token : Instant) : Nat := token - t - r.slack

end RateLimit

namespace Limiter

/-- Reservations at these instants, one after the other, with the wait of each. -/
def reserveAll (l : Limiter) : List Instant → Except Panic (List Duration × Limiter)
  | [] => .ok ([], l)
  | t :: ts =>
    match l.reserve t with
    | .error e => .error e
    | .ok (wait, l) =>
      match l.reserveAll ts with
      | .error e => .error e
      | .ok (waits, l) => .ok (wait :: waits, l)

end Limiter

namespace RateLimit

variable {r : RateLimit} {nextFree now : Nat} {wait : Duration} {l : Limiter} {ts : List Instant}
  {waits : List Duration}

theorem start_eq (h : Limiter.start r now = .ok l) : l = r.limiter now := by
  unfold Limiter.start at h
  split at h
  · next hle =>
    have hslack : Duration.ofNanos r.slack = ⟨r.slack, hle⟩ :=
      Duration.ext (Duration.nanos_ofNanos hle)
    rw [limiter, hslack]
    exact (Except.ok.inj h).symm
  · cases h

/-- Instants of the clock lie no further apart than a duration can tell. -/
theorem nanos_since_sub {t token : Nat} (h : token < Instant.limit) :
    (Instant.since token t - Duration.ofNanos r.slack).nanos = r.wait t token := by
  change min (token - t) longestNanos - min r.slack longestNanos = token - t - r.slack
  simp only [Instant.limit, longestNanos] at *
  omega

theorem reserve_eq_ok_iff : (r.limiter nextFree).reserve now = .ok (wait, l) ↔
    max nextFree now + r.interval.nanos < Instant.limit ∧
      wait.nanos = r.wait now (max nextFree now) ∧
      l = r.limiter (max nextFree now + r.interval.nanos) := by
  by_cases hlt : max nextFree now + r.interval.nanos < Instant.limit
  · have ha : Instant.add? (max nextFree now) r.interval =
        some (max nextFree now + r.interval.nanos) := if_pos hlt
    have hwait := nanos_since_sub (r := r) (t := now)
      (Nat.lt_of_le_of_lt (Nat.le_add_right _ _) hlt)
    simp only [Limiter.reserve, limiter, ha, hlt, true_and, Except.ok.injEq, Prod.mk.injEq,
      ← hwait, Duration.ext_iff]
    exact and_congr eq_comm eq_comm
  · have ha : Instant.add? (max nextFree now) r.interval = none := if_neg hlt
    simp only [Limiter.reserve, limiter, ha, hlt, false_and, reduceCtorEq]

theorem reserve_cases (h : (r.limiter nextFree).reserve now = .ok (wait, l)) :
    (wait.isZero = true ∧ nextFree ≤ now + r.slack ∧
        l = r.limiter (max nextFree now + r.interval.nanos)) ∨
      wait.isZero = false ∧ now + r.slack < nextFree ∧
        wait.nanos = nextFree - now - r.slack ∧ l = r.limiter (nextFree + r.interval.nanos) := by
  obtain ⟨-, hwait, rfl⟩ := reserve_eq_ok_iff.mp h
  rw [RateLimit.wait] at hwait
  rcases Nat.lt_or_ge (now + r.slack) nextFree with hlt | hge
  · rw [Nat.max_eq_left (by omega)] at hwait ⊢
    exact .inr ⟨beq_false_of_ne (by omega), hlt, hwait, rfl⟩
  · have hmax : max nextFree now ≤ now + r.slack := Nat.max_le.mpr ⟨hge, Nat.le_add_right _ _⟩
    exact .inl ⟨beq_iff_eq.mpr (by omega), hge, rfl⟩

theorem waits_of_reserveAll (h : (r.limiter nextFree).reserveAll ts = .ok (waits, l)) :
    waits.map Duration.nanos = List.zipWith r.wait ts (r.tokens nextFree ts) := by
  induction ts generalizing nextFree waits with
  | nil => cases h; rfl
  | cons t ts ih =>
    unfold Limiter.reserveAll at h
    split at h
    · cases h
    · next hreserve =>
      obtain ⟨-, hwait, rfl⟩ := reserve_eq_ok_iff.mp hreserve
      split at h
      · cases h
      · next hrest =>
        cases h
        rw [List.map_cons, hwait, ih hrest]
        rfl

section Tokens

variable {i k t token token' : Nat}

theorem length_tokens : (r.tokens nextFree ts).length = ts.length := by
  induction ts generalizing nextFree with
  | nil => rfl
  | cons t ts ih => exact congrArg (· + 1) ih

theorem le_token (ht : ts[i]? = some t) (h : (r.tokens nextFree ts)[i]? = some token) :
    t ≤ token := by
  induction ts generalizing nextFree i with
  | nil => cases h
  | cons t₀ ts ih =>
    cases i with
    | zero =>
      cases ht
      cases h
      exact Nat.le_max_right _ _
    | succ i => exact ih ht h

theorem nextFree_le_token (h : (r.tokens nextFree ts)[i]? = some token) :
    nextFree + i * r.interval.nanos ≤ token := by
  induction ts generalizing nextFree i with
  | nil => cases h
  | cons t₀ ts ih =>
    cases i with
    | zero =>
      cases h
      exact Nat.le_trans (Nat.le_of_eq (by simp)) (Nat.le_max_left _ _)
    | succ i =>
      have hle := ih h
      have hmax := Nat.le_max_left nextFree t₀
      rw [Nat.succ_mul]
      omega

theorem token_add_le (h : (r.tokens nextFree ts)[i]? = some token)
    (h' : (r.tokens nextFree ts)[i + k]? = some token') :
    token + k * r.interval.nanos ≤ token' := by
  induction ts generalizing nextFree i with
  | nil => cases h
  | cons t₀ ts ih =>
    cases i with
    | zero =>
      cases h
      cases k with
      | zero =>
        rw [Nat.zero_add] at h'
        cases h'
        simp
      | succ k =>
        rw [Nat.zero_add] at h'
        have htail : (r.tokens (max nextFree t₀ + r.interval.nanos) ts)[k]? = some token' := h'
        have hle := nextFree_le_token htail
        rw [Nat.succ_mul]
        omega
    | succ i =>
      rw [Nat.succ_add] at h'
      exact ih h h'

end Tokens

end RateLimit

end DelayedQueue
