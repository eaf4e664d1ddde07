import Mathlib.Data.Finset.Lattice.Fold
import Mathlib.Order.Lattice.Nat
import DelayedQueue.Proofs.Limiter.Reservation

/-! # When the tokens are there

The token of a reservation is there at the instant of the reservation itself, or one interval after
the token before it. So it is the latest that any reservation up to this one can make it, if the
ones in between take a token each. A run of reservations comes to its end if the clock lasts until
after the last token, and panics otherwise.
-/

namespace DelayedQueue.RateLimit

variable {r : RateLimit} {nextFree now begun i token : Nat} {ts : List Instant} {e : Panic}

section Tokens

/-- When the `i`-th token is there: as late as one of the reservations up to its own makes it, with
an interval for each reservation from that one on. -/
def arrival (r : RateLimit) (ts : List Instant) (i : Nat) : Nat :=
  (Finset.range (i + 1)).sup fun j => (ts.getD j 0 + (i - j) * r.interval.nanos : Nat)

/-- What makes a token late: the limiter as it was at first, or one of the reservations. -/
theorem exists_of_token (h : (r.tokens nextFree ts)[i]? = some token) :
    token = nextFree + i * r.interval.nanos ∨
      ∃ j ≤ i, ∃ t : Nat, ts[j]? = some t ∧ token = t + (i - j) * r.interval.nanos := by
  induction ts generalizing nextFree i with
  | nil => cases h
  | cons t ts ih =>
    cases i with
    | zero =>
      cases h
      rcases Nat.le_total t nextFree with hle | hle
      · exact .inl (by simp [hle])
      · exact .inr ⟨0, Nat.le_refl 0, t, rfl, by simp [hle]⟩
    | succ i =>
      rcases ih h with rfl | ⟨j, hj, u, hu, rfl⟩
      · rcases Nat.le_total t nextFree with hle | hle
        · refine .inl ?_
          rw [Nat.max_eq_left hle, Nat.succ_mul]
          omega
        · refine .inr ⟨0, Nat.zero_le _, t, rfl, ?_⟩
          rw [Nat.max_eq_right hle, Nat.sub_zero, Nat.succ_mul]
          omega
      · exact .inr ⟨j + 1, Nat.succ_le_succ hj, u, hu, by rw [Nat.add_sub_add_right]⟩

theorem arrival_le_token (h : (r.tokens nextFree ts)[i]? = some token) :
    r.arrival ts i ≤ token := by
  refine Finset.sup_le fun j hj => ?_
  have hji : j ≤ i := Nat.lt_succ_iff.mp (Finset.mem_range.mp hj)
  have hi : i < ts.length := length_tokens ▸ (List.getElem?_eq_some_iff.mp h).1
  have hjts : j < ts.length := Nat.lt_of_le_of_lt hji hi
  have hjl : j < (r.tokens nextFree ts).length := length_tokens.symm ▸ hjts
  have ht : ts[j]? = some (ts.getD j 0) := by simp [hjts]
  have hle := le_token ht (List.getElem?_eq_getElem hjl)
  have hadd := token_add_le (k := i - j) (List.getElem?_eq_getElem hjl)
    (by rwa [Nat.add_sub_cancel' hji])
  exact Nat.le_trans (Nat.add_le_add_right hle _) hadd

theorem le_arrival {j t : Nat} (hj : j ≤ i) (ht : ts[j]? = some t) :
    t + (i - j) * r.interval.nanos ≤ r.arrival ts i := by
  have hle := Finset.le_sup (f := fun j => (ts.getD j 0 + (i - j) * r.interval.nanos : Nat))
    (Finset.mem_range.mpr (Nat.lt_succ_of_le hj))
  rwa [List.getD_eq_getElem?_getD, ht, Option.getD_some] at hle

/-- From a full bucket on nothing but the reservations makes tokens late. -/
theorem token_eq_arrival (hs : (begun :: ts).Pairwise (· ≤ ·))
    (h : (r.tokens begun ts)[i]? = some token) : token = r.arrival ts i := by
  refine Nat.le_antisymm ?_ (arrival_le_token h)
  rcases exists_of_token h with rfl | ⟨j, hj, t, ht, rfl⟩
  · cases ts with
    | nil => cases h
    | cons t ts =>
      have hbegun : begun ≤ t := List.rel_of_pairwise_cons hs List.mem_cons_self
      exact Nat.le_trans (Nat.add_le_add_right hbegun _) (le_arrival (Nat.zero_le i) rfl)
  · exact le_arrival hj ht

end Tokens

section Range

theorem start_of_le (h : r.slack ≤ longestNanos) :
    Limiter.start r now = .ok (r.limiter now) := by
  have hs : Limiter.start r now = .ok ⟨r.interval, ⟨r.slack, h⟩, now⟩ := dif_pos h
  rw [hs, ← start_eq hs]

theorem start_of_not_le (h : ¬ r.slack ≤ longestNanos) :
    Limiter.start r now = .error .product := dif_neg h

theorem reserve_eq_error_iff : (r.limiter nextFree).reserve now = .error e ↔
    Instant.limit ≤ max nextFree now + r.interval.nanos ∧ e = .sum := by
  by_cases hlt : max nextFree now + r.interval.nanos < Instant.limit
  · have ha : Instant.add? (max nextFree now) r.interval =
        some (max nextFree now + r.interval.nanos) := if_pos hlt
    simp only [Limiter.reserve, limiter, ha, reduceCtorEq, Nat.not_le.mpr hlt, false_and]
  · have ha : Instant.add? (max nextFree now) r.interval = none := if_neg hlt
    simp only [Limiter.reserve, limiter, ha, Except.error.injEq, Nat.not_lt.mp hlt, true_and]
    exact eq_comm

theorem exists_reserveAll_iff : (∃ w, (r.limiter nextFree).reserveAll ts = .ok w) ↔
    ∀ token ∈ r.tokens nextFree ts, token + r.interval.nanos < Instant.limit := by
  induction ts generalizing nextFree with
  | nil => simp [Limiter.reserveAll, tokens]
  | cons t ts ih =>
    simp only [tokens, List.forall_mem_cons, ← ih, Limiter.reserveAll]
    split
    · next e he =>
      have hle := (reserve_eq_error_iff.mp he).1
      simp only [reduceCtorEq, exists_false, false_iff, not_and]
      intro hlt
      exact absurd hlt (Nat.not_lt.mpr hle)
    · next wait l hl =>
      obtain ⟨hlt, -, rfl⟩ := reserve_eq_ok_iff.mp hl
      simp only [hlt, true_and]
      split
      · next he => simp [he]
      · next w hw => simp [hw]

theorem exists_reserveAll_begun_iff (hs : (begun :: ts).Pairwise (· ≤ ·)) :
    (∃ w, (r.limiter begun).reserveAll ts = .ok w) ↔
      ∀ i < ts.length, r.arrival ts i + r.interval.nanos < Instant.limit := by
  rw [exists_reserveAll_iff]
  constructor
  · intro h i hi
    have hi' : i < (r.tokens begun ts).length := length_tokens.symm ▸ hi
    rw [← token_eq_arrival hs (List.getElem?_eq_getElem hi')]
    exact h _ (List.getElem_mem hi')
  · intro h token htoken
    obtain ⟨i, hi, rfl⟩ := List.getElem_of_mem htoken
    rw [token_eq_arrival hs (List.getElem?_eq_getElem hi)]
    exact h i (length_tokens ▸ hi)

theorem exists_start_iff (hs : (begun :: ts).Pairwise (· ≤ ·)) :
    (∃ l w, Limiter.start r begun = .ok l ∧ l.reserveAll ts = .ok w) ↔
      r.slack ≤ longestNanos ∧
        ∀ i < ts.length, r.arrival ts i + r.interval.nanos < Instant.limit := by
  rw [← exists_reserveAll_begun_iff hs]
  by_cases hle : r.slack ≤ longestNanos
  · simp only [start_of_le hle, hle, true_and, Except.ok.injEq, exists_and_left, exists_eq_left']
  · simp only [start_of_not_le hle, hle, reduceCtorEq, false_and, exists_false]

end Range

end DelayedQueue.RateLimit
