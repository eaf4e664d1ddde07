import Mathlib.Data.List.Nodup
import Mathlib.Data.List.Perm.Subperm
import DelayedQueue.Proofs.Config.Validity
import DelayedQueue.Proofs.Queue.Pace

/-! # The rate limit

All workers of a queue together take no more often than the rate limit says. The limiter gives
each token an instant of its own, one interval after another once the burst is spent, and nobody
takes before the instant of its token. A sleep that would be longer than thirty years ends early,
so this holds while no wait for a token is that long.
-/

namespace DelayedQueue

theorem countP_set_add {α : Type} {l : List α} {i : Nat} {a : α} (b : α) (f : α → Bool)
    (h : l[i]? = some a) :
    (l.set i b).countP f + (if f a then 1 else 0) = l.countP f + if f b then 1 else 0 := by
  obtain ⟨hi, rfl⟩ := List.getElem?_eq_some_iff.mp h
  have hpos (hf : f l[i] = true) : 0 < l.countP f :=
    List.countP_pos_iff.mpr ⟨l[i], List.getElem_mem hi, hf⟩
  rw [List.countP_set hi]
  split
  · next hf =>
    have := hpos hf
    omega
  · omega

theorem mem_set_of_ne {α : Type} {l : List α} {i : Nat} {a b : α} (c : α) (ha : a ∈ l)
    (hi : l[i]? = some b) (hab : a ≠ b) : a ∈ l.set i c := by
  obtain ⟨j, hj⟩ := List.mem_iff_getElem?.mp ha
  have hij : i ≠ j := by
    rintro rfl
    exact hab (Option.some.inj (hj.symm.trans hi))
  exact List.mem_iff_getElem?.mpr ⟨j, (List.getElem?_set_ne hij).trans hj⟩

theorem exists_some_not_mem {α : Type} {l : List (Option α)} (h : none ∈ l) {f : Nat → α}
    (hf : ∀ j < l.length, ∀ k < l.length, f j = f k → j = k) :
    ∃ j < l.length, some (f j) ∉ l := by
  by_contra hnone
  have hall : ∀ j < l.length, some (f j) ∈ l := fun j hj =>
    by_contra fun hn => hnone ⟨j, hj, hn⟩
  have hnodup : (none :: (List.range l.length).map fun j => some (f j)).Nodup := by
    refine List.nodup_cons.mpr ⟨by simp, ?_⟩
    refine List.Nodup.map_on (fun j hj k hk he => ?_) List.nodup_range
    exact hf j (List.mem_range.mp hj) k (List.mem_range.mp hk) (Option.some.inj he)
  have hsub : (none :: (List.range l.length).map fun j => some (f j)) ⊆ l := by
    refine List.cons_subset.mpr ⟨h, fun d hd => ?_⟩
    obtain ⟨j, hj, rfl⟩ := List.mem_map.mp hd
    exact hall j (List.mem_range.mp hj)
  have hlen := (List.subperm_of_subset hnodup hsub).length_le
  rw [List.length_cons, List.length_map, List.length_range] at hlen
  exact Nat.not_succ_le_self _ hlen

namespace Pace

/-- The tokens that have been taken from the limiter, with those that are waited for. -/
def tokens (p : Pace) : Nat := p.attempts.length + p.dues.countP Option.isSome

/-- Those that have been used by `t`, or can be. -/
def tokensBy (p : Pace) (t : Nat) : Nat :=
  p.attempts.countP (· ≤ t) + p.dues.countP (Option.any (· ≤ t))

theorem ite_any_le (d : Option Nat) (f : Nat → Bool) :
    (if d.any f then 1 else 0) ≤ if d.isSome then 1 else 0 := by
  cases d with
  | none => exact Nat.le_refl _
  | some d => simp only [Option.isSome_some, if_true]; split <;> decide

theorem tokensBy_le_tokens (p : Pace) (t : Nat) : p.tokensBy t ≤ p.tokens := by
  have h : p.dues.countP (Option.any (· ≤ t)) ≤ p.dues.countP Option.isSome :=
    List.countP_mono_left fun d _ hd => by cases d <;> simp_all
  exact Nat.add_le_add List.countP_le_length h

variable (r : RateLimit) (begun workers : Nat)

/-- Each of the workers can wait for a token of its own, and none of them too long. -/
def Uncut : Prop := workers * r.interval.nanos ≤ Instant.thirtyYears.nanos

structure Kept (p : Pace) : Prop where
  begun_le : begun ≤ p.now
  length_dues : p.dues.length = workers
  /-- Each token has cost an interval. -/
  paid : begun + p.tokens * r.interval.nanos ≤ p.nextFree
  /-- Somebody waits for each of the tokens that have been taken and are not there yet. -/
  awaited : p.cancelled = false → Uncut r workers →
    ∀ j, p.now + r.slack + (j + 1) * r.interval.nanos < p.nextFree →
      ∃ d, some d ∈ p.dues ∧ d + r.slack + (j + 1) * r.interval.nanos = p.nextFree
  bounded : ∀ t, begun ≤ t → Uncut r workers ∨ t < begun + Instant.thirtyYears.nanos →
    p.tokensBy t ≤ r.burst.toNat + (t - begun) / r.interval.nanos

variable {r begun workers} {p p' : Pace} {i n t : Nat} {due : Option Nat}

section Put

variable (n due) {old : Option Nat} (hi : p.dues[i]? = some old)

include hi

theorem tokens_put : (p.put i due n).tokens + (if old.isSome then 1 else 0) =
    p.tokens + n + if due.isSome then 1 else 0 := by
  have h := countP_set_add due Option.isSome hi
  simp only [tokens, put, List.length_append, List.length_replicate]
  omega

theorem tokensBy_put (t : Nat) : (p.put i due n).tokensBy t + (if old.any (· ≤ t) then 1 else 0) =
    p.tokensBy t + (if p.now ≤ t then n else 0) + if due.any (· ≤ t) then 1 else 0 := by
  have h := countP_set_add due (Option.any (· ≤ t)) hi
  simp only [tokensBy, put, List.countP_append, List.countP_replicate]
  simp only [decide_eq_true_eq]
  omega

end Put

namespace Kept

variable (h : p.Kept r begun workers)

include h

theorem tokens_lt (hI : 0 < r.interval.nanos) (hB : 0 < r.burst.toNat) (ht : begun ≤ t)
    (hf : p.nextFree ≤ t + r.slack) :
    p.tokens < r.burst.toNat + (t - begun) / r.interval.nanos := by
  have hpaid : p.tokens * r.interval.nanos ≤
      (t - begun) + r.interval.nanos * (r.burst.toNat - 1) := by
    have := h.paid
    change p.nextFree ≤ t + r.interval.nanos * (r.burst.toNat - 1) at hf
    omega
  have hdiv := (Nat.le_div_iff_mul_le hI).mpr hpaid
  rw [Nat.add_mul_div_left _ _ hI] at hdiv
  omega

/-- The tokens that are not there yet are no more than the workers, since a worker that waits for
one of them takes no other. -/
theorem nextFree_le (hI : 0 < r.interval.nanos) (hc : p.cancelled = false)
    (hu : Uncut r workers) (hi : none ∈ p.dues) :
    p.nextFree ≤ p.now + r.slack + workers * r.interval.nanos := by
  by_contra hlt
  have hle {j : Nat} (hj : j < p.dues.length) :
      (j + 1) * r.interval.nanos ≤ workers * r.interval.nanos :=
    Nat.mul_le_mul_right _ (h.length_dues ▸ hj)
  have hinj : ∀ j < p.dues.length, ∀ k < p.dues.length,
      p.nextFree - r.slack - (j + 1) * r.interval.nanos =
        p.nextFree - r.slack - (k + 1) * r.interval.nanos → j = k := by
    intro j hj k hk he
    have hj := hle hj
    have hk := hle hk
    have hjk : (j + 1) * r.interval.nanos = (k + 1) * r.interval.nanos := by omega
    exact Nat.succ.inj (Nat.eq_of_mul_eq_mul_right hI hjk)
  obtain ⟨j, hj, hnot⟩ := exists_some_not_mem hi hinj
  have hj := hle hj
  obtain ⟨d, hd, he⟩ := h.awaited hc hu j (by omega)
  have hdue : p.nextFree - r.slack - (j + 1) * r.interval.nanos = d := by omega
  exact hnot (hdue ▸ hd)

theorem release {old : Option Nat} (hi : p.dues[i]? = some old)
    (hn : ∀ t, p.now ≤ t → n ≤ if old.any (· ≤ t) then 1 else 0)
    (ha : p.cancelled = false → ∀ d, p.now < d → some d ∈ p.dues → some d ∈ p.dues.set i none) :
    (p.put i none n).Kept r begun workers := by
  refine ⟨h.begun_le, List.length_set.trans h.length_dues, ?_, ?_, ?_⟩
  · have hn := hn p.now (Nat.le_refl _)
    have hold := ite_any_le old (· ≤ p.now)
    have htokens : (p.put i none n).tokens ≤ p.tokens := by
      have hput := tokens_put n none hi
      simp only [Option.isSome_none, Bool.false_eq_true, if_false] at hput
      omega
    exact Nat.le_trans (Nat.add_le_add_left (Nat.mul_le_mul_right _ htokens) _) h.paid
  · intro hc hu j hj
    obtain ⟨d, hd, he⟩ := h.awaited hc hu j hj
    change p.now + _ + _ < p.nextFree at hj
    exact ⟨d, ha hc d (by omega) hd, he⟩
  · intro t ht hu
    refine Nat.le_trans ?_ (h.bounded t ht hu)
    have hput := tokensBy_put n none hi t
    simp only [Option.any_none, Bool.false_eq_true, if_false] at hput
    by_cases hnow : p.now ≤ t
    · have hn := hn t hnow
      simp only [hnow, if_true] at hput
      omega
    · simp only [hnow, if_false] at hput
      omega

theorem reserve {nextFree : Nat} (hi : p.dues[i]? = some none)
    (hf : p.nextFree + r.interval.nanos ≤ nextFree) (hn : n + (if due.isSome then 1 else 0) ≤ 1)
    (ha : p.cancelled = false → Uncut r workers →
      ∀ j, p.now + r.slack + (j + 1) * r.interval.nanos < nextFree →
        ∃ d, some d ∈ p.dues.set i due ∧
          d + r.slack + (j + 1) * r.interval.nanos = nextFree)
    (hb : ∀ t, begun ≤ t → Uncut r workers ∨ t < begun + Instant.thirtyYears.nanos →
      p.now ≤ t ∧ 0 < n ∨ due.any (· ≤ t) →
        p.tokens < r.burst.toNat + (t - begun) / r.interval.nanos) :
    ({ p with nextFree }.put i due n).Kept r begun workers := by
  refine ⟨h.begun_le, List.length_set.trans h.length_dues, ?_, ha, ?_⟩
  · have hput := tokens_put (p := { p with nextFree }) n due hi
    simp only [Option.isSome_none, Bool.false_eq_true, if_false] at hput
    change _ = p.tokens + n + _ at hput
    have htokens : ({ p with nextFree }.put i due n).tokens ≤ p.tokens + 1 := by omega
    have hpaid := h.paid
    have := Nat.mul_le_mul_right r.interval.nanos htokens
    rw [Nat.succ_mul] at this
    change _ ≤ nextFree
    omega
  · intro t ht hu
    have hput := tokensBy_put (p := { p with nextFree }) n due hi t
    simp only [Option.any_none, Bool.false_eq_true, if_false] at hput
    change _ = p.tokensBy t + (if p.now ≤ t then n else 0) + _ at hput
    by_cases hby : (p.now ≤ t ∧ 0 < n) ∨ due.any (· ≤ t) = true
    · have hlt := hb t ht hu hby
      have hle := p.tokensBy_le_tokens t
      have hany := ite_any_le due (· ≤ t)
      have hnow : (if p.now ≤ t then n else 0) ≤ n := by split <;> omega
      omega
    · obtain ⟨hnow, hdue⟩ := not_or.mp hby
      have hbounded := h.bounded t ht hu
      have hn : (if p.now ≤ t then n else 0) = 0 := by
        split
        · next hnow' => exact Nat.eq_zero_of_not_pos fun hn => hnow ⟨hnow', hn⟩
        · rfl
      simp only [hdue, Bool.false_eq_true, if_false] at hput
      omega

section Step

variable (hI : 0 < r.interval.nanos) (hB : 0 < r.burst.toNat) (hi : p.dues[i]? = some none)

include hI hB hi

theorem grant (hf : p.nextFree ≤ p.now + r.slack) (hn : n ≤ 1) :
    ({ p with nextFree := max p.nextFree p.now + r.interval.nanos }.put i none n).Kept
      r begun workers := by
  refine h.reserve hi (by omega) hn (fun _ _ j hj => ?_) fun t ht _ hby => ?_
  · have hle := Nat.mul_le_mul_right r.interval.nanos (Nat.le_add_left 1 j)
    have hmax := Nat.max_le.mpr ⟨hf, Nat.le_add_right p.now r.slack⟩
    omega
  · refine h.tokens_lt hI hB ht ?_
    have hnow : p.now ≤ t := hby.elim And.left (by simp)
    omega

theorem wait (hc : p.cancelled = false) (hf : p.now + r.slack < p.nextFree) :
    ({ p with nextFree := p.nextFree + r.interval.nanos }.put i
      (some (p.now + min (p.nextFree - p.now - r.slack) Instant.thirtyYears.nanos)) 0).Kept
        r begun workers := by
  have huncut (hu : Uncut r workers) :
      p.nextFree - p.now - r.slack ≤ Instant.thirtyYears.nanos := by
    have := h.nextFree_le hI hc hu (List.mem_of_getElem? hi)
    unfold Uncut at hu
    omega
  refine h.reserve hi (Nat.le_refl _) (Nat.le_refl _) (fun _ hu j hj => ?_) fun t ht hu hby => ?_
  · cases j with
    | zero =>
      refine ⟨_, List.mem_set (List.getElem?_eq_some_iff.mp hi).1 _, ?_⟩
      rw [Nat.min_eq_left (huncut hu)]
      omega
    | succ j =>
      rw [Nat.succ_mul] at hj ⊢
      obtain ⟨d, hd, he⟩ := h.awaited hc hu j (by omega)
      exact ⟨d, mem_set_of_ne _ hd hi nofun, by omega⟩
  · refine h.tokens_lt hI hB ht ?_
    have hdue :
        p.now + min (p.nextFree - p.now - r.slack) Instant.thirtyYears.nanos ≤ t := by
      simpa using hby
    have hbegun := h.begun_le
    rcases Nat.le_total (p.nextFree - p.now - r.slack) Instant.thirtyYears.nanos with
      hle | hge
    · rw [Nat.min_eq_left hle] at hdue
      omega
    -- a sleep that is cut short lasts until after `t`
    · rw [Nat.min_eq_right hge] at hdue
      rcases hu with hu | hu
      · have := huncut hu
        omega
      · omega

end Step

theorem step (hI : 0 < r.interval.nanos) (hB : 0 < r.burst.toNat) (hs : p.Step r p') :
    p'.Kept r begun workers := by
  cases hs with
  | stay => exact h
  | elapse t =>
    refine ⟨Nat.le_add_right_of_le h.begun_le, h.length_dues, h.paid, ?_, h.bounded⟩
    intro hc hu j hj
    change p.now + t + _ + _ < p.nextFree at hj
    exact h.awaited hc hu j (by omega)
  | cancel => exact ⟨h.begun_le, h.length_dues, h.paid, nofun, h.bounded⟩
  | stop hc hi =>
    exact h.release hi (fun _ _ => Nat.zero_le _) fun hc' => by rw [hc] at hc'; cases hc'
  | wake hi hd hn =>
    refine h.release hi (fun t ht => ?_) fun _ d hlt hmem => mem_set_of_ne _ hmem hi ?_
    · simpa [Nat.le_trans hd ht] using hn
    · rintro ⟨⟩
      omega
  | grant hi hf hn => exact h.grant hI hB hi hf hn
  | wait hc hi hf => exact h.wait hI hB hi hc hf

end Kept

theorem kept_start : Kept r begun workers
    ⟨begun, false, begun, List.replicate workers none, []⟩ where
  begun_le := Nat.le_refl _
  length_dues := List.length_replicate
  paid := by simp [tokens, List.countP_replicate]
  awaited _ _ j hj := by
    change begun + _ + _ < begun at hj
    omega
  bounded t _ _ := by simp [tokensBy, List.countP_replicate]

end Pace

namespace Outline

variable {o o' : Outline} {m : Queue.Move}

theorem Step.attempts_eq_nil (h : o.Step m o') (ha : o.crew = none → o.attempts = []) :
    o'.crew = none → o'.attempts = [] := by
  cases h with
  | stay | elapse | close | closed | late => exact ha
  | consume | publish | daemon => exact nofun
  | shutDown => exact fun hc => ha (Option.map_eq_none_iff.mp hc)
  | worker hc =>
    intro hc'
    rw [Option.map_eq_none_iff.mp hc'] at hc
    cases hc

end Outline

namespace Queue

variable {c : Config} {faults : Faults} {begun : Clocks} {ids : MessageId.Source} {observed : Bool}
  {q p q' : Queue} {ds : List Duration} {r : RateLimit} {base : Handler} {hasExecutor : Bool}
  {before after : List Event}

theorem attempts_live (h : q.outline.Orderly ds)
    (ha : q.outline.crew = none → q.outline.attempts = []) (es : List Event) :
    (q.live es).outline.crew = none → (q.live es).outline.attempts = [] :=
  outline_live (P := fun o => o.crew = none → o.attempts = [])
    (fun _ hs ha => hs.attempts_eq_nil ha) h ha es

theorem kept_live {t workers : Nat} {pace : Pace} (h : q.outline.Orderly ds)
    (hI : 0 < r.interval.nanos) (hB : 0 < r.burst.toNat) (hp : q.Paced r pace)
    (hk : pace.Kept r t workers) (es : List Event) :
    ∃ pace', (q.live es).Paced r pace' ∧ pace'.Kept r t workers := by
  induction es generalizing q ds pace with
  | nil => exact ⟨pace, hp, hk⟩
  | cons e es ih =>
    obtain ⟨ds', h'⟩ := orderly_meet h e
    obtain ⟨pace', hstep, hp'⟩ := meet_pace hp h.fits e
    exact ih h' hp' (hk.step hI hB hstep)

theorem startLimiter_eq (hr : q.config.rateLimit = some r) {l : Option Limiter}
    (h : q.startLimiter = .ok l) : l = some (r.limiter q.now) := by
  unfold startLimiter at h
  simp only [hr] at h
  obtain ⟨l, hl, rfl⟩ := Row.map_eq_ok_iff.mp h
  exact congrArg some (RateLimit.start_eq hl)

theorem limiter?_of_consume_ok (hr : q.config.rateLimit = some r)
    (h : (q.consume base hasExecutor).1 = .ok ()) :
    (q.consume base hasExecutor).2.limiter? = some (r.limiter q.now) := by
  obtain ⟨l, hl, hs⟩ := (consume_ok h).2.limiter
  rw [limiter?, hs]
  exact startLimiter_eq hr hl

theorem paced_consume (hr : q.config.rateLimit = some r)
    (h : (q.consume base hasExecutor).1 = .ok ()) :
    (q.consume base hasExecutor).2.Paced r ⟨q.now, false, q.now,
      List.replicate q.config.workerCount.toNat none, q.outline.attempts⟩ := by
  have ho := (consume_ok h).2.outline
  refine ⟨.fresh q.config.workerCount.toNat, q.now, by rw [ho], limiter?_of_consume_ok hr h, ?_⟩
  rw [ho]
  simp only [Outline.pace, Crew.fresh, List.map_replicate]
  rfl

theorem attempts_new (h : Queue.new c faults begun ids observed = .ok q) :
    q.outline.attempts = [] := by
  obtain rfl := eq_of_new h
  rfl

/-- How often the workers have taken until `t`. -/
def takesBy (q : Queue) (t : Instant) : Nat := q.journal.countP fun e => e.2.isAttempt && e.1 ≤ t

theorem countP_attempts (t : Instant) : q.outline.attempts.countP (· ≤ t) = q.takesBy t := by
  simp only [Outline.attempts, outline, takesBy, List.countP_map, List.countP_filter]
  refine List.countP_congr fun e _ => ?_
  have := @Entry.isDeed_of_isAttempt e.2
  simp only [Function.comp_def, Bool.and_eq_true]
  tauto

/-- However the steps of the workers mix with each other and with what callers and others do: in any
time `t` after a successful consume all workers together have taken no more often than the burst and
once for each interval, if no worker can have to wait for more than thirty years for a token, or
`t` is not as long. -/
theorem rate_bound (hq : Queue.new c faults begun ids observed = .ok q)
    (hr : c.rateLimit = some r) (hp : q.live before = p)
    (hc : (p.consume base hasExecutor).1 = .ok ())
    (hs : (p.consume base hasExecutor).2.live after = q') (t : Duration)
    (hw : c.workerCount.toNat * r.interval.nanos ≤ Instant.thirtyYears.nanos ∨
      t < Instant.thirtyYears) :
    q'.takesBy (p.now + t.nanos) ≤ r.burst.toNat + t.nanos / r.interval.nanos := by
  obtain ⟨hI, hB⟩ := Config.rateLimit_pos (validate_of_new hq) hr
  have hconfig : p.config = c := hp ▸ (follows_true before).config.trans (balanced_new hq).config
  obtain ⟨ds, hop⟩ : ∃ ds, p.outline.Orderly ds := hp ▸ orderly_live (orderly_new hq) before
  have hnone : p.outline.crew = none :=
    hop.fits.crew_eq_none (lifecycle_eq_idle hop.fits (consume_ok hc).1)
  have hattempts : p.outline.attempts = [] := by
    subst hp
    exact attempts_live (orderly_new hq) (fun _ => attempts_new hq) before hnone
  have hpaced := paced_consume (hconfig ▸ hr) hc
  rw [hattempts, hconfig] at hpaced
  obtain ⟨pace, ⟨c', t', -, -, rfl⟩, hk⟩ :=
    kept_live (h := hop.step (consume_step hop.fits base hasExecutor)) hI hB hpaced
      Pace.kept_start after
  rw [← hs, ← countP_attempts]
  have hbounded := hk.bounded (p.now + t.nanos) (Nat.le_add_right _ _)
    (hw.imp_right fun h => Nat.add_lt_add_left h _)
  rw [Nat.add_sub_cancel_left] at hbounded
  exact Nat.le_trans (Nat.le_add_right _ _) hbounded

/-- Two workers, two tokens at once and one more every 20 ms. -/
def sharedQueue : Queue :=
  { soloQueue with config :=
      { workerCount := 2, pollInterval := .ofMillis 1, rateLimit := some ⟨.ofMillis 20, 2⟩ } }

def bothStep (n : Nat) : List Move :=
  List.replicate n (.step (.worker 0)) ++ List.replicate n (.step (.worker 1))

/-- Each worker takes once, both wait for their next tokens, and one of them has it after 20 ms. -/
def sharedMoves : List Move :=
  bothStep 3 ++ .elapse (.ofMillis 1) :: bothStep 2 ++ .elapse (.ofMillis 19) :: bothStep 1

/-- The bound is reached. -/
theorem rate_bound_shared :
    Queue.new sharedQueue.config .none ⟨.epoch, 0⟩ ⟨0, 0⟩ false = .ok sharedQueue ∧
    sharedQueue.config.rateLimit = some ⟨.ofMillis 20, 2⟩ ∧
    (sharedQueue.consume (fun _ => .finish .success) true).1 = .ok () ∧
    sharedQueue.config.workerCount.toNat * (Duration.ofMillis 20).nanos ≤
      Instant.thirtyYears.nanos ∧
    3 = ((sharedQueue.consume (fun _ => .finish .success) true).2.live
      (sharedMoves.map .move)).takesBy (.ofMillis 20) ∧
    3 ≤ 2 + (Duration.ofMillis 20).nanos / (Duration.ofMillis 20).nanos := by
  have hq : Queue.new sharedQueue.config .none ⟨.epoch, 0⟩ ⟨0, 0⟩ false = .ok sharedQueue := rfl
  have hc : (sharedQueue.consume (fun _ => .finish .success) true).1 = .ok () := rfl
  have hw : sharedQueue.config.workerCount.toNat * (Duration.ofMillis 20).nanos ≤
      Instant.thirtyYears.nanos := by decide
  have htakes : 3 = ((sharedQueue.consume (fun _ => .finish .success) true).2.live
      (sharedMoves.map .move)).takesBy (.ofMillis 20) := by decide +kernel
  have h := rate_bound (r := ⟨.ofMillis 20, 2⟩) hq rfl (rfl : Queue.live _ [] = _) hc
    (rfl : Queue.live _ (sharedMoves.map .move) = _) (.ofMillis 20) (.inl hw)
  exact ⟨hq, rfl, hc, hw, htakes, Nat.le_trans (Nat.le_of_eq htakes) h⟩

/-- One token every 33 years. -/
def patientQueue : Queue :=
  { soloQueue with config := { rateLimit := some ⟨.ofSeconds 1040688000, 1⟩ } }

/-- The worker takes at its first tick, and from the second one on it waits. -/
def patientMoves : List Move :=
  List.replicate 3 (.step (.worker 0)) ++ .elapse (.ofMillis 100) ::
    List.replicate 2 (.step (.worker 0)) ++ [.elapse Instant.thirtyYears, .step (.worker 0)]

/-- A worker that has slept for thirty years does not ask whether its token is there. -/
theorem take_before_token : ¬ ∀ (c : Config) (faults : Faults) (begun : Clocks)
    (ids : MessageId.Source) (observed : Bool) (q : Queue) (r : RateLimit) (base : Handler)
    (before after : List Event) (t : Duration),
    Queue.new c faults begun ids observed = .ok q → c.rateLimit = some r →
    ((q.live before).consume base true).1 = .ok () →
    (q.live before).now + t.nanos +
      (r.burst.toNat + c.workerCount.toNat) * r.interval.nanos < Instant.limit →
    (((q.live before).consume base true).2.live after).takesBy ((q.live before).now + t.nanos) ≤
      r.burst.toNat + t.nanos / r.interval.nanos := by
  intro hall
  have h := hall patientQueue.config .none ⟨.epoch, 0⟩ ⟨0, 0⟩ false patientQueue _
    (fun _ => .finish .success) [] (patientMoves.map .move) (.ofSeconds 977616000) rfl rfl rfl
    (by decide)
  revert h
  decide +kernel

end Queue

end DelayedQueue
