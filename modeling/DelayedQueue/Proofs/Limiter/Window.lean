import Mathlib.Data.List.Basic
import DelayedQueue.Proofs.Limiter.Reservation

/-! # Grants in a window

A reservation is granted when its wait is over. However the instants of the reservations lie, the
grants come in order, and no window of time has more of them than the burst and one for each
interval that it lasts.
-/

namespace DelayedQueue

/-- When reservations at these instants are granted, by their waits. -/
def Limiter.grants (ts : List Instant) (waits : List Duration) : List Instant :=
  List.zipWith (fun t wait => t + wait.nanos) ts waits

open Limiter (grants)

/-- Entries that satisfy `p` lie at least as far apart as there are others of them between. -/
theorem exists_getElem?_of_countP {α : Type} {p : α → Bool} {l : List α} (h : 0 < l.countP p) :
    ∃ (i k : Nat) (a b : α), l[i]? = some a ∧ l[i + k]? = some b ∧ p a = true ∧ p b = true ∧
      l.countP p ≤ k + 1 := by
  induction l with
  | nil => simp at h
  | cons x l ih =>
    by_cases hp : p x = true
    · rw [List.countP_cons_of_pos hp]
      rcases Nat.eq_zero_or_pos (l.countP p) with h₀ | h₀
      · exact ⟨0, 0, x, x, rfl, rfl, hp, hp, by omega⟩
      · obtain ⟨i, k, a, b, -, hb, -, hpb, hk⟩ := ih h₀
        exact ⟨0, i + k + 1, x, b, rfl, by simpa using hb, hp, hpb, by omega⟩
    · rw [List.countP_cons_of_neg hp] at h ⊢
      obtain ⟨i, k, a, b, ha, hb, hpa, hpb, hk⟩ := ih h
      exact ⟨i + 1, k, a, b, ha, by simpa [Nat.succ_add] using hb, hpa, hpb, hk⟩

namespace RateLimit

variable {r : RateLimit} {nextFree begun i k g g' : Nat} {l l' : Limiter} {ts : List Instant}
  {waits : List Duration} {wait : Duration}

/-- A grant comes with the token of its reservation, or as much earlier as the bucket allows. -/
theorem exists_token (h : (r.limiter nextFree).reserveAll ts = .ok (waits, l))
    (hg : (grants ts waits)[i]? = some g) :
    ∃ t token : Nat, ts[i]? = some t ∧ (r.tokens nextFree ts)[i]? = some token ∧
      (∀ wait, waits[i]? = some wait → wait.nanos = token - t - r.slack) ∧ t ≤ token ∧
      g = t + (token - t - r.slack) := by
  obtain ⟨t, wait, ht, hw, rfl⟩ := List.getElem?_zipWith_eq_some.mp hg
  have hw' : (waits.map Duration.nanos)[i]? = some wait.nanos := by rw [List.getElem?_map, hw]; rfl
  rw [waits_of_reserveAll h] at hw'
  obtain ⟨t', token, ht', htoken, he⟩ := List.getElem?_zipWith_eq_some.mp hw'
  obtain rfl := Option.some.inj (ht.symm.trans ht')
  refine ⟨t, token, ht, htoken, fun wait' hw' => ?_, le_token ht htoken, congrArg (t + ·) he.symm⟩
  obtain rfl := Option.some.inj (hw.symm.trans hw')
  exact he.symm

section Run

variable (h : (r.limiter nextFree).reserveAll ts = .ok (waits, l))

include h

theorem length_grants : (grants ts waits).length = ts.length := by
  have hlen : waits.length = ts.length := by
    have := congrArg List.length (waits_of_reserveAll h)
    simpa [length_tokens] using this
  simp [grants, hlen]

theorem pairwise_grants (hs : ts.Pairwise (· ≤ ·)) : (grants ts waits).Pairwise (· ≤ ·) := by
  refine List.pairwise_iff_getElem.mpr fun i j hi hj hij => ?_
  obtain ⟨t, token, ht, htoken, -, -, he⟩ := exists_token h (List.getElem?_eq_getElem hi)
  obtain ⟨t', token', ht', htoken', -, -, he'⟩ := exists_token h (List.getElem?_eq_getElem hj)
  have hle : t ≤ t' := by
    obtain ⟨hi', rfl⟩ := List.getElem?_eq_some_iff.mp ht
    obtain ⟨hj', rfl⟩ := List.getElem?_eq_some_iff.mp ht'
    exact List.pairwise_iff_getElem.mp hs i j hi' hj' hij
  have htokens : token + (j - i) * r.interval.nanos ≤ token' :=
    token_add_le htoken (by rwa [Nat.add_sub_cancel' (Nat.le_of_lt hij)])
  rw [he, he']
  change t + (token - t - r.slack) ≤ t' + (token' - t' - r.slack)
  omega

theorem grant_add_le (hg : (grants ts waits)[i]? = some g)
    (hg' : (grants ts waits)[i + k]? = some g') :
    g + k * r.interval.nanos ≤ g' + r.slack := by
  obtain ⟨t, token, -, htoken, -, hle, rfl⟩ := exists_token h hg
  obtain ⟨t', token', -, htoken', -, hle', rfl⟩ := exists_token h hg'
  have htokens := token_add_le htoken htoken'
  omega

theorem grant_succ_of_wait (hw : waits[i]? = some wait) (hz : wait.isZero = false)
    (hg : (grants ts waits)[i]? = some g) (hg' : (grants ts waits)[i + 1]? = some g') :
    g + r.interval.nanos ≤ g' := by
  obtain ⟨t, token, -, htoken, hwait, hle, rfl⟩ := exists_token h hg
  obtain ⟨t', token', -, htoken', -, hle', rfl⟩ := exists_token h hg'
  have htokens := token_add_le htoken htoken'
  have hpos : token - t - r.slack ≠ 0 := by
    rw [← hwait _ hw]
    simpa [Duration.isZero] using hz
  omega

theorem countP_grants_le (hI : 0 < r.interval.nanos) (hB : 0 < r.burst.toNat) (a : Nat)
    (d : Duration) : (grants ts waits).countP (fun g => a ≤ g ∧ g ≤ a + d.nanos) ≤
      r.burst.toNat + d.nanos / r.interval.nanos := by
  rcases Nat.eq_zero_or_pos ((grants ts waits).countP fun g => a ≤ g ∧ g ≤ a + d.nanos) with h₀ | h₀
  · rw [h₀]
    exact Nat.zero_le _
  · obtain ⟨i, k, g, g', hg, hg', hp, hp', hk⟩ := exists_getElem?_of_countP h₀
    have hle := grant_add_le h hg hg'
    simp only [decide_eq_true_eq] at hp hp'
    -- all but a full bucket of the tokens between the first grant and the last have come in `d`
    have hspan : k * r.interval.nanos ≤ d.nanos + r.interval.nanos * (r.burst.toNat - 1) := by
      change _ ≤ g' + r.interval.nanos * (r.burst.toNat - 1) at hle
      omega
    have hdiv : k ≤ d.nanos / r.interval.nanos + (r.burst.toNat - 1) := by
      rw [← Nat.add_mul_div_left _ _ hI]
      exact (Nat.le_div_iff_mul_le hI).mpr hspan
    omega

end Run

/-- Reservations at any instants that do not go back, the first of them not before the limiter
began: they are granted in order; `k` grants after one the next is `k` intervals later, but for the
burst; no window, however long the limiter was idle before it, has more grants than the burst and
one for each interval that it lasts; and after a grant that was waited for the next one is an
interval later at least. -/
theorem window_bound (hB : 0 < r.burst.toNat) (hl : Limiter.start r begun = .ok l)
    (hs : (begun :: ts).Pairwise (· ≤ ·)) (hr : l.reserveAll ts = .ok (waits, l')) :
    (grants ts waits).length = ts.length ∧ (grants ts waits).Pairwise (· ≤ ·) ∧
    (∀ i k g g' : Nat, (grants ts waits)[i]? = some g → (grants ts waits)[i + k]? = some g' →
      ((k : Int) - (r.burst.toNat - 1)) * r.interval.nanos ≤ (g' : Int) - g) ∧
    (0 < r.interval.nanos → ∀ (a : Nat) (d : Duration),
      (grants ts waits).countP (fun g => a ≤ g ∧ g ≤ a + d.nanos) ≤
        r.burst.toNat + d.nanos / r.interval.nanos) ∧
    ∀ (i g g' : Nat) (wait : Duration), waits[i]? = some wait → wait.isZero = false →
      (grants ts waits)[i]? = some g → (grants ts waits)[i + 1]? = some g' →
      g + r.interval.nanos ≤ g' := by
  obtain rfl := start_eq hl
  refine ⟨length_grants hr, pairwise_grants hr hs.of_cons, ?_, ?_, ?_⟩
  · intro i k g g' hg hg'
    have hle := grant_add_le hr hg hg'
    have hslack : (r.slack : Int) = (r.burst.toNat - 1) * r.interval.nanos := by
      simp only [slack, Int.natCast_mul, Int.natCast_sub hB]
      exact Int.mul_comm _ _
    rw [Int.sub_mul, ← hslack]
    have hcast : ((k * r.interval.nanos : Nat) : Int) = k * r.interval.nanos := Int.natCast_mul _ _
    omega
  · intro hI
    exact countP_grants_le hr hI hB
  · intro i g g' wait hw hz hg hg'
    exact grant_succ_of_wait hr hw hz hg hg'

/-- Two tokens at once and one more every 20 ms. -/
def pairLimit : RateLimit := ⟨.ofMillis 20, 2⟩

/-- Three reservations, and after an idle second four more. -/
def idleInstants : List Instant := [0, 0, 0, 1000, 1000, 1000, 1000].map Instant.ofMillis

def idleWaits : List Duration := [0, 0, 20, 0, 0, 20, 40].map Duration.ofMillis

/-- After the idle second the bound is reached. -/
theorem window_bound_idle : 0 < pairLimit.burst.toNat ∧
    Limiter.start pairLimit 0 = .ok (pairLimit.limiter 0) ∧ (0 :: idleInstants).Pairwise (· ≤ ·) ∧
    (pairLimit.limiter 0).reserveAll idleInstants =
      .ok (idleWaits, pairLimit.limiter (.ofMillis 1080)) ∧
    (grants idleInstants idleWaits).Pairwise (· ≤ ·) ∧
    3 = (grants idleInstants idleWaits).countP (fun g =>
      Instant.ofMillis 1000 ≤ g ∧ g ≤ Instant.ofMillis 1000 + (Duration.ofMillis 20).nanos) ∧
    3 ≤ 2 + (Duration.ofMillis 20).nanos / (Duration.ofMillis 20).nanos := by
  have hB : 0 < pairLimit.burst.toNat := by decide
  have hs : (0 :: idleInstants).Pairwise (· ≤ ·) := by decide
  have hr : (pairLimit.limiter 0).reserveAll idleInstants =
      .ok (idleWaits, pairLimit.limiter (.ofMillis 1080)) := by decide
  have hcount : 3 = (grants idleInstants idleWaits).countP (fun g =>
      Instant.ofMillis 1000 ≤ g ∧ g ≤ Instant.ofMillis 1000 + (Duration.ofMillis 20).nanos) := by
    decide
  obtain ⟨-, hsorted, -, hwindow, -⟩ := window_bound hB rfl hs hr
  have hle := hwindow (by decide) (Instant.ofMillis 1000) (.ofMillis 20)
  exact ⟨hB, rfl, hs, hr, hsorted, hcount, Nat.le_trans (Nat.le_of_eq hcount) hle⟩

end RateLimit

end DelayedQueue
