import DelayedQueue.Proofs.Queue.NoLoss
import DelayedQueue.Proofs.Queue.Outline
import DelayedQueue.Proofs.Time.Span

/-! # Due after a delay

A message is made due some time from now when it is produced, and again when it is rescheduled.
Both lead to now and the delay together where there is such a time. Where there is none, a
production stops at the last time and a reschedule is refused, with nothing changed. So no delay
leads to an earlier time than a shorter one.
-/

namespace DelayedQueue

variable {now : Time} {delay : Duration}

theorem Draft.scheduledBy_ok (d : Draft) :
    d.scheduledBy (.ok now) delay = .ok (d.scheduledAt (now.addOrLatest delay)) := by
  unfold scheduledBy
  split
  · next h =>
    -- the clock is not read, and would have led to the last time as well
    have hlatest : now.addOrLatest delay = .latest := by
      rw [Time.addOrLatest, Time.addSpan, if_pos h]
    rw [hlatest]
  · rfl

section Spaces

variable {s : Space} {x : String} {t : Time}

theorem Space.reschedule_fst : (s.reschedule x t).1 = (s.row? x).isSome := by
  cases hr : s.row? x with
  | none => rw [reschedule_of_none hr, Option.isSome_none]
  | some row => rw [reschedule_of_some hr, Option.isSome_some]

theorem Space.score?_of_rescheduled (h : (s.reschedule x t).1 = true) :
    (s.reschedule x t).2.score? x = some t.millis := by
  obtain ⟨row, hr⟩ := Option.isSome_iff_exists.mp (reschedule_fst.symm.trans h)
  have hplace : (s.reschedule x t).2.place x = _ := place_reschedule_self hr
  exact congrArg Place.due hplace

end Spaces

namespace Queue

variable {q : Queue} {x : String}

theorem redeliverAfter_eq (hnow : q.wall = .ok now) :
    q.redeliverAfter x delay = .ok (match now.addSpan delay with
      | .error f => (.error (delayFault x delay f), q)
      | .ok t => q.redeliverAt x t) := by
  unfold redeliverAfter
  split
  · next h =>
    have hspan : now.addSpan delay = .error .span := if_pos h
    rw [hspan]
  · rw [hnow]
    rfl

theorem redeliverAfter_of_le (hnow : q.wall = .ok now)
    (h : now.nanos + delay.nanos ≤ latestNanos) :
    q.redeliverAfter x delay = .ok (q.redeliverAt x (now.addOrLatest delay)) := by
  rw [redeliverAfter_eq hnow, Time.addSpan_of_le (leap_of_wall hnow) h]

theorem exists_delayFault_eq (x : String) (delay : Duration) (f : Time.AddFault) :
    ∃ reason, delayFault x delay f = .rescheduleFailed x reason := by
  cases f <;> exact ⟨_, rfl⟩

theorem redeliverAfter_of_lt (hnow : q.wall = .ok now)
    (h : latestNanos < now.nanos + delay.nanos) :
    ∃ reason, q.redeliverAfter x delay = .ok (.error (.rescheduleFailed x reason), q) := by
  obtain ⟨reason, hreason⟩ :=
    exists_delayFault_eq x delay (if Time.longestSpan < delay then .span else .sum)
  refine ⟨reason, ?_⟩
  have hfault := (Time.addSpan_eq_error_iff (leap_of_wall hnow)).mpr ⟨h, rfl⟩
  rw [redeliverAfter_eq hnow, hfault, ← hreason]

theorem redeliverAt_of_unfailing (hf : ∀ n, (.reschedule, n) ∉ q.faults.plan) (t : Time) :
    ∃ q', q.redeliverAt x t = (.ok (q.store.reschedule q.keys x t).1, q') ∧
      q'.store = (q.store.reschedule q.keys x t).2 ∧ q'.keys = q.keys := by
  have hstruck : (q.strike .reschedule).1 = false :=
    Bool.eq_false_iff.mpr fun h => (mem_plan_of_strike h).elim fun n hn => hf n hn
  refine ⟨(redeliverAt q x t).2, ?_, ?_, ?_⟩ <;>
    simp only [redeliverAt, hstruck, Bool.false_eq_true, if_false] <;> rfl

theorem redeliverAfter_eq_ok_iff (hnow : q.wall = .ok now) {r : Bool} {q' : Queue} :
    q.redeliverAfter x delay = .ok (.ok r, q') ↔ now.nanos + delay.nanos ≤ latestNanos ∧
      q.redeliverAt x (now.addOrLatest delay) = (.ok r, q') := by
  by_cases hle : now.nanos + delay.nanos ≤ latestNanos
  · simp only [redeliverAfter_of_le hnow hle, hle, Except.ok.injEq, true_and]
  · obtain ⟨reason, hreason⟩ := redeliverAfter_of_lt (x := x) hnow (Int.not_le.mp hle)
    simp [hreason, hle]

section Unfailing

variable (hf : ∀ n, (.reschedule, n) ∉ q.faults.plan) (hnow : q.wall = .ok now)

include hf hnow

theorem exists_error_redeliverAfter_iff :
    (∃ e q', q.redeliverAfter x delay = .ok (.error e, q')) ↔
      (now.addOrLatest delay).nanos ≠ now.nanos + delay.nanos := by
  have hsum : (now.addOrLatest delay).nanos = min (now.nanos + delay.nanos) latestNanos :=
    Time.nanos_addOrLatest (leap_of_wall hnow)
  by_cases hle : now.nanos + delay.nanos ≤ latestNanos
  · obtain ⟨q', hq', -⟩ := redeliverAt_of_unfailing (x := x) hf (now.addOrLatest delay)
    rw [redeliverAfter_of_le hnow hle, hq']
    simp only [Except.ok.injEq, Prod.mk.injEq, reduceCtorEq, false_and, exists_false, false_iff]
    omega
  · obtain ⟨reason, hreason⟩ := redeliverAfter_of_lt (x := x) hnow (Int.not_le.mp hle)
    exact ⟨fun _ => by omega, fun _ => ⟨_, _, hreason⟩⟩

theorem store_of_redeliverAfter {r : Bool} {q' : Queue}
    (h : q.redeliverAfter x delay = .ok (.ok r, q')) :
    (r, q'.store) = q.store.reschedule q.keys x (now.addOrLatest delay) ∧ q'.keys = q.keys := by
  obtain ⟨p, hp, hstore, hkeys⟩ := redeliverAt_of_unfailing (x := x) hf (now.addOrLatest delay)
  cases hp.symm.trans ((redeliverAfter_eq_ok_iff hnow).mp h).2
  exact ⟨Prod.ext rfl hstore, hkeys⟩

theorem exists_redeliverAfter_of_le (hle : now.nanos + delay.nanos ≤ latestNanos) :
    ∃ q', q.redeliverAfter x delay = .ok (.ok (q.space.row? x).isSome, q') := by
  obtain ⟨q', hq', -⟩ := redeliverAt_of_unfailing (x := x) hf (now.addOrLatest delay)
  have hfound : (q.store.reschedule q.keys x (now.addOrLatest delay)).1 =
      (q.space.row? x).isSome := (Store.onSpace_fst _).trans Space.reschedule_fst
  exact ⟨q', (redeliverAfter_eq_ok_iff hnow).mpr ⟨hle, hfound ▸ hq'⟩⟩

theorem score?_of_redeliverAfter {q' : Queue}
    (h : q.redeliverAfter x delay = .ok (.ok true, q')) :
    q'.space.score? x = some (now.addOrLatest delay).millis := by
  obtain ⟨hstore, hkeys⟩ := store_of_redeliverAfter hf hnow h
  have hfound : (q.space.reschedule x (now.addOrLatest delay)).1 = true :=
    (Store.onSpace_fst _).symm.trans (congrArg Prod.fst hstore).symm
  have hspace : q'.space = (q.space.reschedule x (now.addOrLatest delay)).2 := by
    rw [space, hkeys, show q'.store = _ from congrArg Prod.snd hstore]
    exact Store.space_apply (.reschedule x (now.addOrLatest delay))
  rw [hspace]
  exact Space.score?_of_rescheduled hfound

theorem exists_redeliverAfter_of_shorter {a b : Duration} {p : Queue} (hab : a ≤ b)
    (h : q.redeliverAfter x b = .ok (.ok true, p)) :
    ∃ q', q.redeliverAfter x a = .ok (.ok true, q') ∧
      ∃ s t, q'.space.score? x = some s ∧ p.space.score? x = some t ∧ s ≤ t := by
  have hab' : a.nanos ≤ b.nanos := hab
  have hle := ((redeliverAfter_eq_ok_iff hnow).mp h).1
  obtain ⟨q', hq'⟩ := exists_redeliverAfter_of_le (x := x) hf hnow
    (show now.nanos + a.nanos ≤ latestNanos by omega)
  obtain ⟨p', hp'⟩ := exists_redeliverAfter_of_le (x := x) hf hnow hle
  have hfound : (q.space.row? x).isSome = true :=
    (Except.ok.inj (Prod.mk.inj (Except.ok.inj (h.symm.trans hp'))).1).symm
  rw [hfound] at hq'
  refine ⟨q', hq', _, _, score?_of_redeliverAfter hf hnow hq',
    score?_of_redeliverAfter hf hnow h, ?_⟩
  have hl := leap_of_wall hnow
  refine Int.ediv_le_ediv (by decide) ?_
  exact (Time.le_iff_nanos (Time.leap_addOrLatest hl) (Time.leap_addOrLatest hl)).mp
    (Time.addOrLatest_mono hl hab)

end Unfailing

/-- At an instant at which the clock can be read, a production with a delay is scheduled for now and
the delay together, or for the last time if that is past it, and so the later the longer the delay.
A redelivery after the same delay is a redelivery at that very time if it is not past the last one,
and is refused for its id otherwise, with nothing changed. So where the store does not fail by
itself, the delays that are refused are those that a production has to cut; the store is asked for
the exact time; and a message for which a delay is granted is granted every shorter one, for no
later a time. -/
theorem delays_alike (hnow : q.wall = .ok now) (d : Draft) (id : String) :
    (∀ delay,
      d.scheduledBy q.wall delay = .ok { d with deliverAt := some (now.addOrLatest delay) } ∧
      (now.addOrLatest delay).nanos = min (now.nanos + delay.nanos) latestNanos ∧
      (now.addOrLatest delay).leap = false ∧ now ≤ now.addOrLatest delay ∧
      (now.nanos + delay.nanos ≤ latestNanos →
        q.redeliverAfter id delay = .ok (q.redeliverAt id (now.addOrLatest delay))) ∧
      (latestNanos < now.nanos + delay.nanos →
        ∃ reason, q.redeliverAfter id delay = .ok (.error (.rescheduleFailed id reason), q))) ∧
    (∀ a b, a ≤ b → now.addOrLatest a ≤ now.addOrLatest b) ∧
    ((∀ n, (.reschedule, n) ∉ q.faults.plan) →
      (∀ delay, (∃ e q', q.redeliverAfter id delay = .ok (.error e, q')) ↔
        (now.addOrLatest delay).nanos ≠ now.nanos + delay.nanos) ∧
      (∀ delay r q', q.redeliverAfter id delay = .ok (.ok r, q') →
        (r, q'.store) = q.store.reschedule q.keys id (now.addOrLatest delay)) ∧
      ∀ a b p, a ≤ b → q.redeliverAfter id b = .ok (.ok true, p) →
        ∃ q', q.redeliverAfter id a = .ok (.ok true, q') ∧
          ∃ s t, q'.space.score? id = some s ∧ p.space.score? id = some t ∧ s ≤ t) := by
  have hl := leap_of_wall hnow
  refine ⟨fun delay => ⟨?_, Time.nanos_addOrLatest hl, Time.leap_addOrLatest hl,
    Time.le_addOrLatest hl delay, redeliverAfter_of_le hnow, redeliverAfter_of_lt hnow⟩,
    fun a b => Time.addOrLatest_mono hl, fun hf =>
      ⟨fun delay => exists_error_redeliverAfter_iff hf hnow,
        fun delay r q' h => (store_of_redeliverAfter hf hnow h).1,
        fun a b p => exists_redeliverAfter_of_shorter hf hnow⟩⟩
  rw [hnow, d.scheduledBy_ok]
  rfl

/-- Its first message waits to be taken. -/
def readyQueue : Queue := soloQueue.run [.produce (.new [1])]

/-- A delay of some hundred thousand years, and two short ones. -/
theorem delays_alike_ready :
    let x := MessageId.Source.id ⟨0, 0⟩ 0
    readyQueue.wall = .ok .epoch ∧
    (Draft.new [2]).scheduledBy readyQueue.wall (.ofSeconds 10000000000000) =
      .ok ⟨[2], some .latest⟩ ∧
    (∃ reason, readyQueue.redeliverAfter x (.ofSeconds 10000000000000) =
      .ok (.error (.rescheduleFailed x reason), readyQueue)) ∧
    ∃ q', readyQueue.redeliverAfter x (.ofMillis 250) = .ok (.ok true, q') ∧
      q'.space.score? x = some 250 := by
  intro x
  have hnow : readyQueue.wall = .ok .epoch := rfl
  have hf : ∀ n, (.reschedule, n) ∉ readyQueue.faults.plan := fun n => List.not_mem_nil
  obtain ⟨hdelays, -, hunfailing⟩ := delays_alike hnow (.new [2]) x
  obtain ⟨hdraft, -, -, -, -, hrefused⟩ := hdelays (.ofSeconds 10000000000000)
  obtain ⟨-, -, hshorter⟩ := hunfailing hf
  have hlatest : Time.epoch.addOrLatest (.ofSeconds 10000000000000) = .latest := by decide
  rw [hlatest] at hdraft
  have hfound : (readyQueue.space.row? x).isSome = true := by decide +kernel
  obtain ⟨p, hp⟩ := exists_redeliverAfter_of_le (x := x) hf hnow
    (show Time.epoch.nanos + (Duration.ofMillis 3000).nanos ≤ latestNanos by decide)
  rw [hfound] at hp
  obtain ⟨q', hq', -⟩ := hshorter (.ofMillis 250) (.ofMillis 3000) p (by decide) hp
  have hdue : (Time.epoch.addOrLatest (.ofMillis 250)).millis = 250 := by decide
  exact ⟨hnow, hdraft, hrefused (by decide), q', hq', hdue ▸ score?_of_redeliverAfter hf hnow hq'⟩

end Queue

end DelayedQueue
