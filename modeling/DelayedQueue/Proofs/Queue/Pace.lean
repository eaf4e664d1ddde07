import DelayedQueue.Proofs.Limiter.Reservation
import DelayedQueue.Proofs.Queue.Books
import DelayedQueue.Proofs.Queue.Gear
import DelayedQueue.Proofs.Queue.Lifecycle

/-! # The pace of a queue

What the takes of a queue with a rate limit depend on: the limiter that all workers share, and
when each of them has the token that it waits for. `Pace.Step` lists what one event can do to these;
that events do nothing else is `Queue.meet_pace`. No take is left out of it: a worker that takes
has just had a token, or its wait for one is over.
-/

namespace DelayedQueue

/-- Whether this is a take. -/
def Entry.isAttempt : Entry → Bool
  | .attempted _ => true
  | _ => false

theorem Entry.isDeed_of_isAttempt {e : Entry} (h : e.isAttempt = true) : e.isDeed = true := by
  cases e with
  | attempted => rfl
  | _ => cases h

structure Pace where
  now : Nat
  cancelled : Bool
  /-- When the limiter has its next token, if it has none left over. -/
  nextFree : Nat
  /-- For each worker, when its wait for a token ends, if it waits. -/
  dues : List (Option Nat)
  /-- When there was a take. -/
  attempts : List Nat

namespace Pace

/-- Worker `i` takes `n` times, and then has its next token at `due`. -/
def put (i : Nat) (due : Option Nat) (n : Nat) (p : Pace) : Pace :=
  { p with dues := p.dues.set i due, attempts := List.replicate n p.now ++ p.attempts }

/-- All that one event can do. A worker that cannot read the clock has a token and does not take. -/
inductive Step (r : RateLimit) (p : Pace) : Pace → Prop where

  | stay : Step r p p

  | elapse (t : Nat) : Step r p { p with now := p.now + t }

  | cancel : Step r p { p with cancelled := true }

  | stop {i : Nat} {due : Option Nat} (hc : p.cancelled = true) (hi : p.dues[i]? = some due) :
      Step r p (p.put i none 0)

  | wake {i due n : Nat} (hi : p.dues[i]? = some (some due)) (hd : due ≤ p.now) (hn : n ≤ 1) :
      Step r p (p.put i none n)

  | grant {i n : Nat} (hi : p.dues[i]? = some none) (hf : p.nextFree ≤ p.now + r.slack)
      (hn : n ≤ 1) :
      Step r p ({ p with nextFree := max p.nextFree p.now + r.interval.nanos }.put i none n)

  | wait {i : Nat} (hc : p.cancelled = false) (hi : p.dues[i]? = some none)
      (hf : p.now + r.slack < p.nextFree) :
      Step r p ({ p with nextFree := p.nextFree + r.interval.nanos }.put i
        (some (p.now + min (p.nextFree - p.now - r.slack) Instant.thirtyYears.nanos)) 0)

theorem put_none {p : Pace} {i : Nat} (hi : p.dues[i]? = some none) : p.put i none 0 = p := by
  obtain ⟨hlt, hi⟩ := List.getElem?_eq_some_iff.mp hi
  have hd : p.dues.set i none = p.dues := by rw [← hi, List.set_getElem_self]
  simp only [put, hd, List.replicate_zero, List.nil_append]

end Pace

namespace Outline

def attempts (o : Outline) : List Instant := (o.deeds.filter fun e => e.2.isAttempt).map Prod.fst

def pace (o : Outline) (c : Crew) (nextFree : Instant) : Pace where
  now := o.now
  cancelled := c.cancelled
  nextFree
  dues := c.workers.map Worker.Phase.due?
  attempts := o.attempts

variable {o : Outline} {c : Crew} {i : Nat} {p p' : Worker.Phase} {es : List Entry}

theorem attempts_put : (o.put i p es).attempts =
    List.replicate (es.countP Entry.isAttempt) o.now ++ o.attempts := by
  have h : ((es.map (Prod.mk o.now)).filter fun e => e.2.isAttempt).map Prod.fst =
      List.replicate (es.countP Entry.isAttempt) o.now := by
    simp [List.filter_map, Function.comp_def, List.countP_eq_length_filter]
  simp only [attempts, put, List.filter_append, List.map_append, h]

theorem pace_put (t : Instant) : (o.put i p es).pace (c.setPhase i p) t =
    (o.pace c t).put i p.due? (es.countP Entry.isAttempt) := by
  simp only [pace, Pace.put, attempts_put, Crew.setPhase, List.map_set]
  rfl

theorem Poll.countP_le (h : o.Poll i p es) : es.countP Entry.isAttempt ≤ 1 := by
  cases h with
  | throttled | blind => exact Nat.zero_le _
  | lost | nothing | invoked => exact Nat.le_refl _

theorem Turn.unthrottled {cancelled : Bool} (h : o.Turn i cancelled p p' es) (hp : ¬ p.Waits) :
    p'.due? = none ∧ es.countP Entry.isAttempt = 0 := by
  cases h with
  | stop _ h | poll _ h => exact absurd h hp
  | await => exact absurd (.looping false) hp
  | _ => exact ⟨rfl, rfl⟩

theorem Step.pace {m : Queue.Move} {o' : Outline} (h : o.Step m o')
    (hm : ∀ i, m ≠ .step (.worker i)) (hl : o.lifecycle ≠ .idle) (hc : o.crew = some c)
    (r : RateLimit) (t : Instant) :
    ∃ c', o'.crew = some c' ∧ (o.pace c t).Step r (o'.pace c' t) := by
  cases h with
  | stay | close | closed | late => exact ⟨c, hc, .stay⟩
  | elapse d => exact ⟨c, hc, .elapse d.nanos⟩
  | consume _ _ _ hi => exact absurd hi hl
  | shutDown => exact ⟨c.cancel, congrArg (Option.map Crew.cancel) hc, .cancel⟩
  | publish hc' | daemon hc' =>
    obtain rfl := Option.some.inj (hc.symm.trans hc')
    exact ⟨_, rfl, .stay⟩
  | worker => exact absurd rfl (hm _)

end Outline

namespace Queue

def limiter? (q : Queue) : Option Limiter := q.session.bind Session.limiter

variable {q q' : Queue} {s : Session} {w : Worker} {i : Nat} {c : Crew} {r : RateLimit}
  {t : Instant}

theorem limiter?_eq (hs : q.session = some s) : s.limiter = q.limiter? :=
  congrArg Gear.limiter (gear_eq hs)

theorem limiter?_move {m : Move} (hm : ∀ i, m ≠ .step (.worker i))
    (hi : q.lifecycle.state ≠ .idle) : (q.move m).limiter? = q.limiter? := by
  by_cases hu : ∃ v, m = .use v
  · obtain ⟨v, rfl⟩ := hu
    simp only [move, use, hi, if_false]
  · refine congrArg Gear.limiter (?_ : (q.move m).gear = q.gear)
    by_cases hc : ∃ base hasExecutor, m = .consume base hasExecutor
    · obtain ⟨base, hasExecutor, rfl⟩ := hc
      exact gear_consume base hasExecutor hi
    · exact gear_move hm (fun v he => hu ⟨v, he⟩) fun base x he => hc ⟨base, x, he⟩

/-- The queue has been consumed under the rate limit `r`, and `p` is its pace. -/
def Paced (r : RateLimit) (p : Pace) (q : Queue) : Prop :=
  ∃ c t, q.outline.crew = some c ∧ q.limiter? = some (r.limiter t) ∧ q.outline.pace c t = p

section Workers

variable {ph : Worker.Phase} {due? : Option Instant} {es : List Entry}

theorem paced_put (hc : q.outline.crew = some c) (hl : q'.limiter? = some (r.limiter t))
    (ho : q'.outline = q.outline.put i ph es) :
    q'.Paced r ((q.outline.pace c t).put i ph.due? (es.countP Entry.isAttempt)) := by
  refine ⟨c.setPhase i ph, t, ?_, hl, ?_⟩
  · rw [ho]
    exact congrArg (Option.map _) hc
  · rw [ho, Outline.pace_put]

theorem paced_setPhase (hc : q.outline.crew = some c) (hl : q.limiter? = some (r.limiter t))
    (hd : ph.due? = due?) : (q.setPhase i ph).Paced r ((q.outline.pace c t).put i due? 0) :=
  hd ▸ paced_put hc ((congrArg Gear.limiter (gear_setPhase i ph)).trans hl) outline_setPhase

theorem paced_take (hc : q.outline.crew = some c) (hl : q.limiter? = some (r.limiter t)) :
    ∃ n ≤ 1, (q.take s i).Paced r ((q.outline.pace c t).put i none n) := by
  obtain ⟨ph, es, hpoll, hdue, ho⟩ := take_attempt (q := q) (s := s) (i := i)
  have h := paced_put hc ((congrArg Gear.limiter gear_take).trans hl) ho
  rw [hdue] at h
  exact ⟨_, hpoll.countP_le, h⟩

variable (hc : q.outline.crew = some s.crew) (hl : q.limiter? = some (r.limiter t))
  (hi : (q.outline.pace s.crew t).dues[i]? = some none)

include hc hl hi

theorem setPhase_pace (hd : ph.due? = none) :
    ∃ p, (q.outline.pace s.crew t).Step r p ∧ (q.setPhase i ph).Paced r p := by
  have h := paced_setPhase (i := i) hc hl hd
  rw [Pace.put_none hi] at h
  exact ⟨_, .stay, h⟩

variable (hs : s.limiter = some (r.limiter t)) (hcancel : s.cancelled = false)

include hs hcancel

theorem acquire_pace :
    ∃ p, (q.outline.pace s.crew t).Step r p ∧ (q.acquire s i).Paced r p := by
  unfold acquire
  simp only [hs]
  split
  · exact setPhase_pace hc hl hi rfl
  · next wait l hr =>
    have ho : (q.setSession { s with limiter := some l }).outline = q.outline :=
      outline_setSession_of_crew hc
    rcases RateLimit.reserve_cases hr with ⟨hw, hf, rfl⟩ | ⟨hw, hf, hwait, rfl⟩
    · obtain ⟨n, hn, hp⟩ := paced_take (s := { s with limiter := _ }) (i := i) (ho ▸ hc) rfl
      rw [ho] at hp
      simp only [hw, if_true]
      exact ⟨_, .grant hi hf hn, hp⟩
    · have hdue : (Worker.Phase.throttled (q.now.afterSleep wait)).due? =
          some (q.now + min (t - q.now - r.slack) Instant.thirtyYears.nanos) := by
        rw [Worker.Phase.due?, Instant.afterSleep, hwait]
      have hp := paced_setPhase (i := i) (ho ▸ hc) rfl hdue
      rw [ho] at hp
      simp only [hw, Bool.false_eq_true, if_false]
      exact ⟨_, .wait hcancel hi hf, hp⟩

theorem tickWorker_pace (hw : s.workers[i]? = some w) :
    ∃ p, (q.outline.pace s.crew t).Step r p ∧ (q.tickWorker s i w).Paced r p := by
  unfold tickWorker
  split
  · exact setPhase_pace hc hl hi rfl
  · next ticker _ =>
    have hcrew : s.crew.setPhase i w.phase = s.crew :=
      Crew.setPhase_self (by simp [Session.crew, hw])
    rw [← hcrew, ← Session.crew_setWorker i { w with ticker }] at hc hi ⊢
    have ho := outline_setSession_of_crew hc
    rw [← ho] at hc hi ⊢
    exact acquire_pace hc hs hi hs hcancel

end Workers

theorem stepWorker_pace (hs : q.session = some s) (hl : q.limiter? = some (r.limiter t))
    (hw : s.workers[i]? = some w) (hr : q.workerReady s w = true) :
    ∃ p, (q.outline.pace s.crew t).Step r p ∧ (q.stepWorker s i w).Paced r p := by
  have hc := outline_crew hs
  have hsl := (limiter?_eq hs).trans hl
  have hi : (q.outline.pace s.crew t).dues[i]? = some w.phase.due? := by
    simp [Outline.pace, Session.crew, hw]
  have hstop (hcancel : s.cancelled = true) :
      ∃ p, (q.outline.pace s.crew t).Step r p ∧ (q.stopWorker i).Paced r p :=
    ⟨_, .stop hcancel hi, paced_setPhase hc hl rfl⟩
  by_cases hp : w.phase.Waits
  · unfold stepWorker
    generalize hph : w.phase = ph at hp hi
    cases hp with
    | looping again =>
      simp only
      split
      · next hcancel => exact hstop hcancel
      · next hcancel =>
        split
        · exact acquire_pace hc hl hi hsl (Bool.eq_false_iff.mpr hcancel)
        · exact setPhase_pace hc hl hi rfl
    | ticking =>
      simp only
      split
      · next hcancel => exact hstop hcancel
      · next hcancel => exact tickWorker_pace hc hl hi hsl (Bool.eq_false_iff.mpr hcancel) hw
    | throttled due =>
      simp only
      split
      · next hcancel => exact hstop hcancel
      · next hcancel =>
        obtain ⟨n, hn, hp⟩ := paced_take (s := s) (i := i) hc hl
        have hd : due ≤ q.now := by simpa [workerReady, hph, hcancel] using hr
        exact ⟨_, .wake hi hd hn, hp⟩
  · obtain ⟨p', es, hturn, ho⟩ := stepWorker_turn hc hw hr
    obtain ⟨hd, hes⟩ := hturn.unthrottled hp
    have hi' : w.phase.due? = none := by
      cases hph : w.phase with
      | throttled due => exact absurd (hph ▸ .throttled due) hp
      | _ => rfl
    have hl' := (congrArg Gear.limiter (gear_stepWorker (i := i) (gear_eq hs) hp)).trans hl
    have h := paced_put hc hl' ho
    rw [hi'] at hi
    rw [hd, hes, Pace.put_none hi] at h
    exact ⟨_, .stay, h⟩

/-- Events change the pace as `Pace.Step` says. -/
theorem meet_pace {p : Pace} (h : q.Paced r p) (hf : q.lifecycle.Fits q.outline.crew) (e : Event) :
    ∃ p', p.Step r p' ∧ (q.meet e).Paced r p' := by
  obtain ⟨c, t, hc, hl, rfl⟩ := h
  have hidle : q.lifecycle ≠ .idle := fun hi => by
    rw [hf.crew_eq_none hi] at hc
    cases hc
  have hother {m : Move} (hm : ∀ i, m ≠ .step (.worker i)) :
      ∃ p', (q.outline.pace c t).Step r p' ∧ (q.move m).Paced r p' := by
    obtain ⟨c', hc', hstep⟩ := (move_step hf m).pace hm hidle hc r t
    have hi : q.lifecycle.state ≠ .idle := fun hi => hidle (lifecycle_eq_idle hf hi)
    exact ⟨_, hstep, c', t, hc', (limiter?_move hm hi).trans hl, rfl⟩
  cases e with
  | outside k op => exact ⟨_, .stay, c, t, hc, hl, rfl⟩
  | move m =>
    by_cases hm : ∃ i, m = .step (.worker i)
    · obtain ⟨i, rfl⟩ := hm
      simp only [meet, move, step]
      split
      · next hr =>
        obtain ⟨s, hs, rfl⟩ := exists_session hc
        simp only [advance, isReady, hs] at hr ⊢
        split at hr
        · next w hs' hw =>
          cases hs'
          exact stepWorker_pace hs hl (getElem?_workers hs hw) hr
        · cases hr
      · exact ⟨_, .stay, c, t, hc, hl, rfl⟩
    · exact hother fun i he => hm ⟨i, he⟩

end Queue

end DelayedQueue
