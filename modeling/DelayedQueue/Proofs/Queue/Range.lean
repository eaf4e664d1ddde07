import DelayedQueue.Proofs.Limiter.Arrival
import DelayedQueue.Proofs.Limiter.Window
import DelayedQueue.Proofs.Queue.Poll
import DelayedQueue.Proofs.Queue.Rate

/-! # The range of the rate limit

A rate limit that is accepted need not be one that can be kept: the time that a full bucket takes
is a product that may be longer than any duration, and the arrival of a token is a sum that may lie
past the end of the clock. The first keeps the queue from being consumed, the second ends the
worker that asks for the token. Here is when either happens, and that neither does while the
clock lasts for as many more intervals as there are tokens in the bucket and workers.
-/

namespace DelayedQueue

namespace Limiter

variable {l l' : Limiter} {t : Instant} {ts : List Instant} {waits : List Duration}

theorem exists_reserveAll_concat_iff (h : l.reserveAll ts = .ok (waits, l')) :
    (∃ w, l.reserveAll (ts ++ [t]) = .ok w) ↔ ∃ w, l'.reserve t = .ok w := by
  induction ts generalizing l waits with
  | nil =>
    cases h
    simp only [List.nil_append, reserveAll]
    split <;> simp [*]
  | cons u ts ih =>
    simp only [List.cons_append, reserveAll] at h ⊢
    split at h
    · cases h
    · split at h
      · cases h
      · next hrest =>
        cases h
        rw [← ih hrest]
        split <;> simp [*]

end Limiter

/-- A worker that asks for a token has it while the clock lasts for an interval for each token of a
full bucket and each worker. -/
theorem Pace.Kept.exists_reserve {r : RateLimit} {begun workers : Nat} {p : Pace}
    (h : p.Kept r begun workers) (hI : 0 < r.interval.nanos) (hc : p.cancelled = false)
    (hu : Uncut r workers) (hi : none ∈ p.dues)
    (hlt : p.now + r.slack + (workers + 1) * r.interval.nanos < Instant.limit) :
    ∃ w, (r.limiter p.nextFree).reserve p.now = .ok w := by
  have hle := h.nextFree_le hI hc hu hi
  rw [Nat.succ_mul] at hlt
  cases hw : (r.limiter p.nextFree).reserve p.now with
  | ok w => exact ⟨w, rfl⟩
  | error e =>
    refine absurd (RateLimit.reserve_eq_error_iff.mp hw).1 (Nat.not_le.mpr ?_)
    omega

namespace Queue

variable {c : Config} {faults : Faults} {begun : Clocks} {ids : MessageId.Source} {observed : Bool}
  {q p q' : Queue} {s : Session} {w : Worker} {i : Nat} {ds : List Duration} {r : RateLimit}
  {l : Limiter} {base : Handler} {before : List Event}

section Steps

/-- The limiter is left alone, or a token is taken from it now. -/
def Reserves (q q' : Queue) : Prop :=
  q'.limiter? = q.limiter? ∨
    ∃ l wait l', q.limiter? = some l ∧ l.reserve q.now = .ok (wait, l') ∧ q'.limiter? = some l'

theorem limiter?_setPhase (i : Nat) (ph : Worker.Phase) :
    (q.setPhase i ph).limiter? = q.limiter? := congrArg Gear.limiter (gear_setPhase i ph)

theorem reserves_of_gear (h : q'.gear = q.gear) : q.Reserves q' := .inl (congrArg Gear.limiter h)

theorem reserves_acquire (hs : s.limiter = q.limiter?) : q.Reserves (q.acquire s i) := by
  unfold acquire
  split
  · exact reserves_of_gear gear_take
  · next l hl =>
    split
    · exact .inl (limiter?_setPhase i .broken)
    · next wait l' hr =>
      have hset : (q.setSession { s with limiter := some l' }).limiter? = some l' := rfl
      refine .inr ⟨l, wait, l', hs.symm.trans hl, hr, ?_⟩
      simp only
      split
      · exact (congrArg Gear.limiter gear_take).trans hset
      · exact (limiter?_setPhase i _).trans hset

theorem reserves_tickWorker (hs : s.limiter = q.limiter?) : q.Reserves (q.tickWorker s i w) := by
  unfold tickWorker
  split
  · exact .inl (limiter?_setPhase i .broken)
  · next ticker _ =>
    have hset : (q.setSession { s with workers := s.workers.set i { w with ticker } }).limiter? =
        q.limiter? := hs
    have h := reserves_acquire (i := i) (q := q.setSession
      { s with workers := s.workers.set i { w with ticker } }) (s := _) rfl
    unfold Reserves at h ⊢
    rwa [hset] at h

theorem reserves_stepWorker (hs : q.session = some s) : q.Reserves (q.stepWorker s i w) := by
  have hl := limiter?_eq hs
  by_cases hp : w.phase.Waits
  · unfold stepWorker
    generalize w.phase = ph at hp
    cases hp with
    | looping again =>
      simp only
      split
      · exact .inl (limiter?_setPhase i .stopped)
      · split
        · exact reserves_acquire hl
        · exact .inl (limiter?_setPhase i .ticking)
    | ticking =>
      simp only
      split
      · exact .inl (limiter?_setPhase i .stopped)
      · exact reserves_tickWorker hl
    | throttled due =>
      simp only
      split
      · exact .inl (limiter?_setPhase i .stopped)
      · exact reserves_of_gear gear_take
  · exact reserves_of_gear (gear_stepWorker (gear_eq hs) hp)

theorem reserves_step_worker (i : Nat) : q.Reserves (q.step (.worker i)) := by
  simp only [step, advance]
  split
  · split
    · next hs _ => exact reserves_stepWorker hs
    · exact .inl rfl
  · exact .inl rfl

theorem reserves_meet (hi : q.lifecycle.state ≠ .idle) (e : Event) : q.Reserves (q.meet e) := by
  cases e with
  | outside k op => exact .inl rfl
  | move m =>
    by_cases hm : ∃ i, m = .step (.worker i)
    · obtain ⟨i, rfl⟩ := hm
      exact reserves_step_worker i
    · exact .inl (limiter?_move (fun i he => hm ⟨i, he⟩) hi)

/-- What a run makes of the limiter, reservations at some instants of the run make of it. -/
theorem reserves_live (h : q.outline.Orderly ds) (hi : q.lifecycle.state ≠ .idle)
    (hl : q.limiter? = some l) (es : List Event) :
    ∃ ts waits l', (q.now :: (ts ++ [(q.live es).now])).Pairwise (· ≤ ·) ∧
      l.reserveAll ts = .ok (waits, l') ∧ (q.live es).limiter? = some l' := by
  induction es generalizing q ds l with
  | nil => exact ⟨[], [], l, by simp [live], rfl, hl⟩
  | cons e es ih =>
    obtain ⟨ds', h'⟩ := orderly_meet h e
    have hnow : q.now ≤ (q.meet e).now := now_le_live h [e]
    have hi' := state_ne_idle_meet h hi e
    have hle {ts : List Instant} {t : Instant}
        (hs : ((q.meet e).now :: (ts ++ [t])).Pairwise (· ≤ ·)) :
        (q.now :: (ts ++ [t])).Pairwise (· ≤ ·) := by
      obtain ⟨hfirst, hrest⟩ := List.pairwise_cons.mp hs
      exact List.pairwise_cons.mpr ⟨fun u hu => Nat.le_trans hnow (hfirst u hu), hrest⟩
    rcases reserves_meet hi e with hsame | ⟨l₀, wait, l₁, hl₀, hr, hl₁⟩
    · obtain ⟨ts, waits, l', hs, hall, hlast⟩ := ih h' hi' (hsame.trans hl)
      exact ⟨ts, waits, l', hle hs, hall, hlast⟩
    · obtain rfl := Option.some.inj (hl₀.symm.trans hl)
      obtain ⟨ts, waits, l', hs, hall, hlast⟩ := ih h' hi' hl₁
      refine ⟨q.now :: ts, wait :: waits, l', ?_, ?_, hlast⟩
      · rw [List.cons_append, List.pairwise_cons]
        have hs := hle hs
        refine ⟨?_, hs⟩
        rintro u (_ | ⟨_, hu⟩)
        · exact Nat.le_refl _
        · exact List.rel_of_pairwise_cons hs hu
      · simp only [Limiter.reserveAll, hr, hall]

end Steps

theorem makeRoom_eq_ok_iff {workers : UInt64} :
    makeRoom workers = .ok () ↔ 8 * (workers.toNat + 1) < 2 ^ 63 := by
  unfold makeRoom
  split
  · next h =>
    rw [h]
    decide
  · split <;> simp_all [UInt64.size]

theorem spawn_fst (h : Handler) : (q.spawn h).1 =
    (q.startLimiter.bind fun _ => makeRoom q.config.workerCount).mapError .panic := by
  rcases q.spawn_cases h with ⟨f, q', he, hf⟩ | ⟨q', he, hs⟩
  · rw [he]
    cases hf with
    | limiter hp => rw [hp]; rfl
    | room hl hp => rw [hl, Except.bind, hp]; rfl
  · obtain ⟨l, hl, -⟩ := hs.limiter
    rw [he, hl, Except.bind, hs.room]
    rfl

theorem consume_fst_of_idle (base : Handler) (hi : q.lifecycle.state = .idle)
    (hr : q.config.rateLimit = some r) : (q.consume base true).1 =
      if r.slack ≤ longestNanos then (makeRoom q.config.workerCount).mapError .panic
      else .error (.panic .product) := by
  have hstart : q.startLimiter = (Limiter.start r q.now).map some := by
    simp only [startLimiter, hr]
  rw [consume_of_idle hi base, spawn_fst, hstart]
  by_cases hle : r.slack ≤ longestNanos
  · rw [RateLimit.start_of_le hle, if_pos hle]
    rfl
  · rw [RateLimit.start_of_not_le hle, if_neg hle]
    rfl

theorem config_live (hq : Queue.new c faults begun ids observed = .ok q) (es : List Event) :
    (q.live es).config = c := (follows_true es).config.trans (balanced_new hq).config

theorem exists_kept_live (hq : Queue.new c faults begun ids observed = .ok q)
    (hr : c.rateLimit = some r) (hp : q.live before = p)
    (hc : (p.consume base true).1 = .ok ()) (after : List Event) :
    ∃ pace, ((p.consume base true).2.live after).Paced r pace ∧
      pace.Kept r p.now c.workerCount.toNat := by
  obtain ⟨hI, hB⟩ := Config.rateLimit_pos (validate_of_new hq) hr
  have hconfig : p.config = c := hp ▸ config_live hq before
  obtain ⟨ds, hop⟩ : ∃ ds, p.outline.Orderly ds := hp ▸ orderly_live (orderly_new hq) before
  have hnone : p.outline.crew = none :=
    hop.fits.crew_eq_none (lifecycle_eq_idle hop.fits (consume_ok hc).1)
  have hattempts : p.outline.attempts = [] := by
    subst hp
    exact attempts_live (orderly_new hq) (fun _ => attempts_new hq) before hnone
  have hpaced := paced_consume (hconfig ▸ hr) hc
  rw [hattempts, hconfig] at hpaced
  exact kept_live (hop.step (consume_step hop.fits base true)) hI hB hpaced Pace.kept_start after

theorem asks_of_phase? {crew : Crew} {ph : Worker.Phase} {t : Instant}
    (hc : q.outline.crew = some crew) (hph : q.phase? i = some ph) (hdue : ph.due? = none)
    (hcancel : q.isCancelled = false) :
    (q.outline.pace crew t).cancelled = false ∧ none ∈ (q.outline.pace crew t).dues := by
  constructor
  · refine Bool.eq_false_iff.mpr fun hcrew => ?_
    rw [isCancelled_iff.mpr ⟨crew, hc, hcrew⟩] at hcancel
    cases hcancel
  · rw [← outline_phase?, Outline.phase?, hc] at hph
    exact hdue ▸ List.mem_map_of_mem (List.mem_of_getElem? hph)

/-- What becomes of a rate limit in a queue that was made with it: a limiter is made and grants any
reservations that do not go back if a full bucket takes no longer than a duration can, and the
clock lasts for an interval after the arrival of each token; a consume panics if the first is not
so, and else if there are too many workers for their handles, and succeeds otherwise; and the
workers, whose limiter is what reservations at instants of the run have left of it, are ended by it
if the second is not so, which cannot be while the clock lasts for an interval for each token of a
full bucket and each worker, if none has to wait for more than thirty years. -/
theorem rate_limit_range (hq : Queue.new c faults begun ids observed = .ok q)
    (hr : c.rateLimit = some r) :
    (∀ (t : Instant) (ts : List Instant), (t :: ts).Pairwise (· ≤ ·) →
      ((∃ l w, Limiter.start r t = .ok l ∧ l.reserveAll ts = .ok w) ↔
        r.slack ≤ longestNanos ∧
          ∀ i < ts.length, r.arrival ts i + r.interval.nanos < Instant.limit)) ∧
    ∀ before base p, q.live before = p → p.lifecycle.state = .idle →
      ((p.consume base true).1 =
        if r.slack ≤ longestNanos then (makeRoom c.workerCount).mapError .panic
        else .error (.panic .product)) ∧
      ∀ after q', r.slack ≤ longestNanos → 8 * (c.workerCount.toNat + 1) < 2 ^ 63 →
        (p.consume base true).2.live after = q' →
        (p.consume base true).1 = .ok () ∧
        ∃ ts waits l, (p.now :: (ts ++ [q'.now])).Pairwise (· ≤ ·) ∧
          (r.limiter p.now).reserveAll ts = .ok (waits, l) ∧ q'.limiter? = some l ∧
          ((∃ w, l.reserve q'.now = .ok w) ↔ ∀ i < (ts ++ [q'.now]).length,
            r.arrival (ts ++ [q'.now]) i + r.interval.nanos < Instant.limit) ∧
          ∀ i ph, q'.phase? i = some ph → ph.due? = none → q'.isCancelled = false →
            c.workerCount.toNat * r.interval.nanos ≤ Instant.thirtyYears.nanos →
            q'.now + r.slack + (c.workerCount.toNat + 1) * r.interval.nanos <
              Instant.limit →
            ∃ w, l.reserve q'.now = .ok w := by
  obtain ⟨hI, hB⟩ := Config.rateLimit_pos (validate_of_new hq) hr
  refine ⟨fun t ts hs => RateLimit.exists_start_iff hs, fun before base p hp hi => ?_⟩
  have hconfig : p.config = c := hp ▸ config_live hq before
  have hconsume := consume_fst_of_idle base hi (hconfig ▸ hr)
  rw [hconfig] at hconsume
  refine ⟨hconsume, fun after q' hle hroom hq' => ?_⟩
  rw [if_pos hle, makeRoom_eq_ok_iff.mpr hroom] at hconsume
  refine ⟨hconsume, ?_⟩
  obtain ⟨ds, hop⟩ : ∃ ds, p.outline.Orderly ds := hp ▸ orderly_live (orderly_new hq) before
  have hop' := hop.step (consume_step hop.fits base true)
  have hspawned := (consume_ok hconsume).2
  have hrunning : (p.consume base true).2.lifecycle.state ≠ .idle := by
    rw [hspawned.lifecycle]
    decide
  have hnow : (p.consume base true).2.now = p.now := congrArg Outline.now hspawned.outline
  obtain ⟨ts, waits, l, hs, hall, hl⟩ :=
    reserves_live hop' hrunning (limiter?_of_consume_ok (hconfig ▸ hr) hconsume) after
  rw [hq'] at hs hl
  rw [hnow] at hs
  refine ⟨ts, waits, l, hs, hall, hl, ?_, fun i ph hph hdue hcancel hu hlt => ?_⟩
  · rw [← RateLimit.exists_reserveAll_begun_iff hs]
    exact (Limiter.exists_reserveAll_concat_iff hall).symm
  · obtain ⟨pace, ⟨crew, t, hcrew, hl', rfl⟩, hk⟩ := exists_kept_live hq hr hp hconsume after
    rw [hq'] at hcrew hl' hk
    obtain rfl := Option.some.inj (hl.symm.trans hl')
    obtain ⟨hc, hasks⟩ := asks_of_phase? (t := t) hcrew hph hdue hcancel
    exact hk.exists_reserve hI hc hu hasks hlt

/-- One of the workers waits for a token and the other one asks for the next. -/
theorem rate_limit_range_shared :
    Queue.new sharedQueue.config .none ⟨.epoch, 0⟩ ⟨0, 0⟩ false = .ok sharedQueue ∧
    sharedQueue.config.rateLimit = some RateLimit.pairLimit ∧
    (sharedQueue.consume (fun _ => .finish .success) true).1 = .ok () ∧
    ∃ ts waits l, (0 :: (ts ++ [Instant.ofMillis 20])).Pairwise (· ≤ ·) ∧
      (RateLimit.pairLimit.limiter 0).reserveAll ts = .ok (waits, l) ∧
      ((sharedQueue.consume (fun _ => .finish .success) true).2.live
        (sharedMoves.map .move)).limiter? = some l ∧
      ∃ w, l.reserve (.ofMillis 20) = .ok w := by
  have hq : Queue.new sharedQueue.config .none ⟨.epoch, 0⟩ ⟨0, 0⟩ false = .ok sharedQueue := rfl
  have hr : sharedQueue.config.rateLimit = some RateLimit.pairLimit := rfl
  obtain ⟨-, hworkers⟩ := (rate_limit_range hq hr).2 [] (fun _ => .finish .success) _ rfl rfl
  have hle : RateLimit.pairLimit.slack ≤ longestNanos := by decide
  obtain ⟨hconsume, ts, waits, l, hs, hall, hl, -, hreserve⟩ :=
    hworkers (sharedMoves.map .move) _ hle (by decide) rfl
  have hnow : ((sharedQueue.consume (fun _ => .finish .success) true).2.live
      (sharedMoves.map .move)).now = .ofMillis 20 := by decide +kernel
  have hasks : (((sharedQueue.consume (fun _ => .finish .success) true).2.live
      (sharedMoves.map .move)).phase? 0).map Worker.Phase.due? = some none := by decide +kernel
  have hcancel : ((sharedQueue.consume (fun _ => .finish .success) true).2.live
      (sharedMoves.map .move)).isCancelled = false := by decide +kernel
  obtain ⟨ph, hph, hdue⟩ := Option.map_eq_some_iff.mp hasks
  have hw := hreserve 0 ph hph hdue hcancel
  simp only [live, List.foldl_nil] at hs hall hl hnow hw
  rw [hnow] at hs hw
  refine ⟨hq, hr, hconsume, ts, waits, l, hs, hall, hl, hw ?_ ?_⟩
  · decide
  · decide

/-- A bucket of three that gains a token in the longest time that there is. -/
def vastConfig : Config := { rateLimit := some ⟨.longest, 3⟩ }

/-- Once the machine has been on for a second, a token comes when the clock has ended. -/
def lateConfig : Config := { rateLimit := some ⟨.ofSeconds 9223372036854775807, 1⟩ }

/-- A rate limit that is accepted may be one that no limiter can be made of, or whose limiter does
not grant the first reservation. -/
theorem accepted_limit_panics :
    (¬ ∀ (c : Config) (r : RateLimit) (t : Instant), c.validate = .ok () → c.rateLimit = some r →
      ∃ l, Limiter.start r t = .ok l) ∧
    ¬ ∀ (c : Config) (r : RateLimit) (t : Instant) (ts : List Instant) (l : Limiter),
      c.validate = .ok () → c.rateLimit = some r → (t :: ts).Pairwise (· ≤ ·) →
      Limiter.start r t = .ok l → ∃ w, l.reserveAll ts = .ok w := by
  constructor
  · intro hall
    obtain ⟨l, hl⟩ := hall vastConfig _ 0 rfl rfl
    rw [RateLimit.start_of_not_le (by decide)] at hl
    cases hl
  · intro hall
    obtain ⟨w, hw⟩ := hall lateConfig _ (.ofMillis 1000) [.ofMillis 1000] _ rfl rfl (by decide) rfl
    cases hw

end Queue

end DelayedQueue
