import DelayedQueue.Proofs.Queue.Timely

/-! # A deadline that is long enough

Once the token is cancelled a worker waits for nothing but a handler at work, and a handler is given
up when its timeout has passed. So a close that is given more than that timeout, and what a timer
can be late, comes to its end without an error, however long the waits for ticks and for tokens that
it cuts short would have been.
-/

namespace DelayedQueue

/-- The handlers at work run out of time at `t` or before. -/
def Crew.DueBy (t : Instant) (c : Crew) : Prop := ∀ d, .handling d ∈ c.workers → d.deadline ≤ t

namespace Outline

variable {o o' : Outline} {m : Queue.Move} {c c' : Crew} {i j : Nat} {p p' : Worker.Phase}
  {es : List Entry} {d : Delivery} {t e : Instant}

theorem Turn.of_handling {cancelled : Bool} (h : o.Turn i cancelled p (.handling d) es) :
    (∃ d', p = .handling d' ∧ d'.deadline = d.deadline) ∨
      cancelled = false ∧ d.deadline = o.now.deadline o.config.consumeTimeout := by
  cases h with
  | poll hc _ h => cases h with
    | invoked => exact .inr ⟨hc, rfl⟩
  | goOn => exact .inl ⟨_, rfl, rfl⟩

theorem Turn.dueBy (h : o.Turn i c.cancelled p p' es) (hi : c.workers[i]? = some p)
    (hd : c.DueBy t) (hn : c.cancelled = false → o.now.deadline o.config.consumeTimeout ≤ t) :
    (c.setPhase i p').DueBy t := by
  intro d hm
  rcases List.mem_or_eq_of_mem_set hm with hm | rfl
  · exact hd d hm
  · rcases h.of_handling with ⟨d', rfl, he⟩ | ⟨hc, he⟩
    · exact he ▸ hd d' (List.mem_of_getElem? hi)
    · exact he ▸ hn hc

/-- No handler has more than the timeout left. -/
structure InTime (config : Config) (o : Outline) : Prop where
  config_eq : o.config = config
  due : ∀ c, o.crew = some c → c.DueBy (o.now.deadline config.consumeTimeout)

theorem InTime.step {config : Config} (h : o.InTime config) (hs : o.Step m o') :
    o'.InTime config := by
  cases hs with
  | stay | close | closed | late => exact ⟨h.config_eq, h.due⟩
  | elapse δ =>
    refine ⟨h.config_eq, fun c hc d hm => Nat.le_trans (h.due c hc d hm) ?_⟩
    exact Nat.add_le_add_right (Nat.le_add_right _ _) _
  | consume base x workers =>
    refine ⟨h.config_eq, fun c hc d hm => ?_⟩
    cases hc
    cases List.eq_of_mem_replicate hm
  | shutDown δ =>
    refine ⟨h.config_eq, fun c' hc' => ?_⟩
    obtain ⟨c, hc, rfl⟩ := Option.map_eq_some_iff.mp hc'
    exact h.due c hc
  | @publish c hc | @daemon c _ hc =>
    refine ⟨h.config_eq, fun c' hc' => ?_⟩
    cases hc'
    exact h.due c hc
  | worker hc hi ht =>
    refine ⟨h.config_eq, fun c' hc' => ?_⟩
    simp only [put, hc, Option.map_some, Option.some.injEq] at hc'
    subst hc'
    exact ht.dueBy hi (h.due _ hc) fun _ => by rw [h.config_eq]; exact Nat.le_refl _

/-- The token is cancelled, the handlers at work have until `e`, and close `j` has longer than that.
Later on all tasks have ended, and the close has returned without an error. -/
structure Closing (e : Instant) (j : Nat) (o : Outline) : Prop where
  cancelled : ∃ c, o.crew = some c ∧ c.cancelled = true
  due : ∀ c, o.crew = some c → c.DueBy e
  closer : o.closers[j]? = some (.returned (.ok ())) ∨
    ∃ d due, o.closers[j]? = some (.waiting d due) ∧ e + Queue.timerResolution.nanos < due
  settled : e + Queue.timerResolution.nanos < o.now →
    (∀ c, o.crew = some c → c.AllEnded ∧ c.done = true) ∧
      o.closers[j]? = some (.returned (.ok ()))

namespace Closing

variable {closers : List Closer} {lifecycle : Lifecycle}

theorem setClosers (h : o.Closing e j)
    (hj : closers[j]? = o.closers[j]? ∨ closers[j]? = some (.returned (.ok ()))) :
    ({ o with lifecycle, closers } : Outline).Closing e j := by
  refine ⟨h.cancelled, h.due, ?_, fun ht => ⟨(h.settled ht).1, ?_⟩⟩
  · rcases hj with hj | hj
    · exact hj ▸ h.closer
    · exact .inl hj
  · exact hj.elim (fun hj => hj.trans (h.settled ht).2) id

theorem setCrew (h : o.Closing e j) (hc : c.cancelled = true) (hd : c.DueBy e)
    (ht : e + Queue.timerResolution.nanos < o.now → c.AllEnded ∧ c.done = true) {deeds} :
    ({ o with crew := some c, deeds } : Outline).Closing e j where
  cancelled := ⟨c, rfl, hc⟩
  due c' hc' := by cases hc'; exact hd
  closer := h.closer
  settled hlt := ⟨fun c' hc' => by cases hc'; exact ht hlt, (h.settled hlt).2⟩

theorem lt_length (h : o.Closing e j) : j < o.closers.length := by
  rcases h.closer with hj | ⟨d, due, hj, -⟩
  · exact (List.getElem?_eq_some_iff.mp hj).1
  · exact (List.getElem?_eq_some_iff.mp hj).1

theorem step {ds : List Duration} (h : o.Closing e j) (ho : o.Orderly ds) (hs : o.Step m o')
    (hm : ∀ δ, m ≠ .elapse δ) : o'.Closing e j := by
  obtain ⟨c, hcrew, hc⟩ := h.cancelled
  have happend (cl : Closer) : (o.closers ++ [cl])[j]? = o.closers[j]? :=
    List.getElem?_append_left h.lt_length
  cases hs with
  | stay => exact h
  | elapse δ => exact absurd rfl (hm δ)
  | consume base x workers hl => rw [ho.fits.crew_eq_none hl] at hcrew; cases hcrew
  | close => exact h.setClosers (.inl (happend _))
  | shutDown =>
    have hsame : o.crew.map Crew.cancel = o.crew := by
      rw [hcrew, Option.map_some, Crew.cancel, ← hc]
    rw [hsame]
    exact h.setClosers (.inl (happend _))
  | @closed j' d due =>
    refine h.setClosers ?_
    by_cases hj : j' = j
    · subst hj
      exact .inr (List.getElem?_set_self h.lt_length)
    · exact .inl (List.getElem?_set_ne hj)
  | @late j' d due hj' _ ht =>
    refine h.setClosers (.inl (List.getElem?_set_ne ?_))
    rintro rfl
    -- This close waits for longer than any handler can.
    rcases h.closer with hok | ⟨d', due', hwait, hlt⟩
    · rw [hj'] at hok
      cases hok
    · rw [hj'] at hwait
      cases hwait
      have hok := (h.settled (Nat.lt_of_lt_of_le hlt ht)).2
      rw [hj'] at hok
      cases hok
  | publish hc' he =>
    rw [hcrew] at hc'
    cases hc'
    exact h.setCrew (c := { c with done := true }) hc (h.due c hcrew) fun _ =>
      ⟨⟨he.daemon, he.workers⟩, rfl⟩
  | @daemon _ p hc' ht =>
    rw [hcrew] at hc'
    cases hc'
    refine h.setCrew (c := { c with daemon := p }) hc (h.due c hcrew) fun hlt => ?_
    exact absurd ((h.settled hlt).1 c hcrew).1.daemon ht.not_hasEnded
  | @worker _ i _ p' es hc' hi ht =>
    rw [hcrew] at hc'
    cases hc'
    simp only [put, hcrew, Option.map_some]
    refine h.setCrew (c := c.setPhase i p') hc (ht.dueBy hi (h.due c hcrew) ?_) fun hlt => ?_
    · intro hn
      rw [hc] at hn
      cases hn
    · have hends := ((h.settled hlt).1 c hcrew).1.workers _ (List.mem_of_getElem? hi)
      exact absurd hends ht.not_hasEnded

end Closing

end Outline

namespace Queue

variable {c : Config} {faults : Faults} {begun : Clocks} {ids : MessageId.Source} {observed : Bool}
  {q p r : Queue} {ds : List Duration} {d : Duration} {e : Instant} {j : Nat}
  {before after : List Event}

theorem inTime_new (h : Queue.new c faults begun ids observed = .ok q) : q.outline.InTime c := by
  obtain rfl := eq_of_new h
  exact ⟨rfl, nofun⟩

theorem inTime_live (h : q.outline.Orderly ds) (hi : q.outline.InTime c) (es : List Event) :
    (q.live es).outline.InTime c :=
  outline_live (fun _ hs hi => hi.step hs) h hi es

theorem closing_beginClose (h : p.outline.Orderly ds) (hi : p.outline.InTime c)
    (hs : p.lifecycle.state = .running ∨ p.lifecycle.state = .shuttingDown)
    (hd : c.consumeTimeout.nanos + timerResolution.nanos < d.nanos) :
    (p.beginClose d).outline.Closing (p.now.deadline c.consumeTimeout) p.closers.length := by
  obtain ⟨o', ho, hstep⟩ : ∃ o', (p.beginClose d).outline = o' ∧ p.outline.Step (.close d) o' :=
    ⟨_, rfl, beginClose_step h.fits⟩
  rw [ho]
  cases hstep with
  | stay hm => exact absurd rfl (hm d)
  | close _ hl =>
    have hl : p.lifecycle = .idle ∨ p.lifecycle = .stopped := hl
    rcases hl with hl | hl <;> rw [hl] at hs <;> exact absurd hs (by decide)
  | shutDown =>
    obtain ⟨crew, hc⟩ := h.fits.exists_crew (h.fits.holdsToken_iff.mpr hs)
    refine ⟨⟨crew.cancel, congrArg (Option.map Crew.cancel) hc, rfl⟩, fun crew' hc' => ?_, ?_, ?_⟩
    · obtain ⟨crew, hc, rfl⟩ := Option.map_eq_some_iff.mp hc'
      exact hi.due crew hc
    · refine .inr ⟨d, _, List.getElem?_concat_length, ?_⟩
      change p.now + c.consumeTimeout.nanos + timerResolution.nanos < p.now + d.nanos
      rw [Nat.add_assoc]
      exact Nat.add_lt_add_left hd _
    · intro hlt
      have hlt : p.now + c.consumeTimeout.nanos + timerResolution.nanos < p.now := hlt
      rw [Nat.add_assoc] at hlt
      exact absurd hlt (Nat.not_lt.mpr (Nat.le_add_right _ _))

/-- Time cannot pass `e` by more than a timer can be late while there is anything left to do. -/
theorem closing_elapse (h : q.outline.Closing e j) (ht : q.AwaitsTime (q.now + d.nanos)) :
    (q.elapse d).outline.Closing e j := by
  refine ⟨h.cancelled, h.due, h.closer, fun hlt => ?_⟩
  have hidle (task : Task) : ({ q with now := e } : Queue).isReady task ≠ true :=
    Bool.eq_false_iff.mp (ht task e hlt)
  obtain ⟨crew, hcrew, hc⟩ := h.cancelled
  have hcrew' : ({ q with now := e } : Queue).outline.crew = some crew := hcrew
  have hended : crew.AllEnded := by
    constructor
    · by_contra hn
      exact hidle .daemon (isReady_daemon hcrew' hc hn)
    · intro ph hph
      obtain ⟨i, hi⟩ := List.mem_iff_getElem?.mp hph
      by_contra hn
      refine hidle (.worker i) (isReady_worker hcrew' hc hi hn ?_)
      rintro dl rfl
      exact h.due crew hcrew dl hph
  have hdone : crew.done = true := by
    by_contra hn
    exact hidle .supervisor (isReady_supervisor hcrew' hended (Bool.eq_false_iff.mpr hn))
  refine ⟨fun crew' hcrew' => ?_, ?_⟩
  · have hcrew' : q.outline.crew = some crew' := hcrew'
    rw [hcrew] at hcrew'
    cases hcrew'
    exact ⟨hended, hdone⟩
  · rcases h.closer with hok | ⟨d', due, hj, -⟩
    · exact hok
    · exact absurd (isReady_closer hcrew' hdone hj) (hidle (.closer j))

theorem closing_meet (h : q.outline.Closing e j) (ho : q.outline.Orderly ds) {ev : Event}
    (ha : q.Allows ev) : (q.meet ev).outline.Closing e j := by
  cases ev with
  | outside k op => exact h
  | move m =>
    by_cases hm : ∃ δ, m = .elapse δ
    · obtain ⟨δ, rfl⟩ := hm
      exact closing_elapse h ha
    · exact h.step ho (move_step ho.fits m) fun δ he => hm ⟨δ, he⟩

theorem closing_live (h : q.outline.Closing e j) (ho : q.outline.Orderly ds) {es : List Event}
    (ht : q.Timely es) : (q.live es).outline.Closing e j := by
  induction es generalizing q ds with
  | nil => exact h
  | cons ev es ih =>
    obtain ⟨ds', ho'⟩ := orderly_meet ho ev
    exact ih (closing_meet h ho ht.1) ho' ht.2

theorem eventually_closed (h : q.outline.Closing e j) (ho : q.outline.Orderly ds) :
    q.Eventually fun q => q.closers[j]? = some (.returned (.ok ())) := by
  refine eventually_of_invariant (e + timerResolution.nanos)
    (fun q => q.outline.Closing e j ∧ ∃ ds, q.outline.Orderly ds) ?_ ?_ ?_ ⟨h, ds, ho⟩
  · rintro q m ⟨h, ds, ho⟩ hm
    exact ⟨closing_meet h ho hm.allows, orderly_meet ho (.move m)⟩
  · exact fun h => h.1.cancelled
  · exact fun h hlt => (h.1.settled hlt).2

/-- In a run of a new queue that has come to a state `p` in which it runs or shuts down, wherever
its workers are, let a close begin that is given more than the timeout of handlers and what a timer
can be late; and let `r` be any later state of a run in which time waits for the tasks, whatever
is called meanwhile. When more time than that timeout and the lateness of a timer has passed
since the close began, all workers and the daemon have ended and the close has returned without an
error. It never returns with one. And when nobody calls it does return, whichever task goes on
first and as far as time may go each time. -/
theorem sufficient_deadline (hq : Queue.new c faults begun ids observed = .ok q)
    (hp : q.live before = p)
    (hs : p.lifecycle.state = .running ∨ p.lifecycle.state = .shuttingDown)
    (hd : c.consumeTimeout.nanos + timerResolution.nanos < d.nanos)
    (ht : (p.beginClose d).Timely after) (hr : (p.beginClose d).live after = r) :
    (p.now + c.consumeTimeout.nanos + timerResolution.nanos < r.now →
      (∃ s, r.session = some s ∧ s.daemon.hasEnded = true ∧
        ∀ w ∈ s.workers, w.hasEnded = true) ∧
      r.closers[p.closers.length]? = some (.returned (.ok ()))) ∧
    (∀ err, r.closers[p.closers.length]? ≠ some (.returned (.error err))) ∧
    r.Eventually fun r' => r'.closers[p.closers.length]? = some (.returned (.ok ())) := by
  obtain ⟨ds, hop⟩ : ∃ ds, p.outline.Orderly ds := hp ▸ orderly_live (orderly_new hq) before
  have hip : p.outline.InTime c := hp ▸ inTime_live (orderly_new hq) (inTime_new hq) before
  have hop' : (p.beginClose d).outline.Orderly (ds ++ closeDeadlines [.close d]) :=
    hop.step (beginClose_step hop.fits)
  have hclosing := hr ▸ closing_live (closing_beginClose hop hip hs hd) hop' ht
  obtain ⟨ds', hor⟩ : ∃ ds, r.outline.Orderly ds := hr ▸ orderly_live hop' after
  refine ⟨fun hlt => ?_, fun err he => ?_, eventually_closed hclosing hor⟩
  · obtain ⟨hcrew, hok⟩ := hclosing.settled hlt
    obtain ⟨crew, hc, -⟩ := hclosing.cancelled
    obtain ⟨s, hs, rfl⟩ := exists_session hc
    obtain ⟨hdaemon, hworkers⟩ :=
      Bool.and_eq_true_iff.mp (Session.allEnded_iff.mpr (hcrew _ hc).1)
    exact ⟨⟨s, hs, hdaemon, List.all_eq_true.mp hworkers⟩, hok⟩
  · have he : r.outline.closers[p.closers.length]? = some (.returned (.error err)) := he
    rcases hclosing.closer with hok | ⟨d', due, hwait, -⟩
    · rw [he] at hok
      cases hok
    · rw [he] at hwait
      cases hwait

/-- Two workers that look for messages once an hour, and give a handler twenty milliseconds. -/
def sleepyQueue : Queue :=
  { soloQueue with
    config :=
      { workerCount := 2
        pollInterval := .ofSeconds 3600
        daemonInterval := .ofSeconds 3600
        consumeTimeout := .ofMillis 20 } }

/-- One worker has given its message to a handler that hangs, the other one and the daemon wait for
their next tick. -/
def asleep : List Event :=
  ([.produce (.new [1]), .consume (fun _ => .hang) true] ++
    List.replicate 3 (.step (.worker 0)) ++ List.replicate 4 (.step (.worker 1)) ++
    List.replicate 3 (.step .daemon) : List Move).map .move

/-- The handler is given up as late as a timer can be, and then all tasks end. -/
def awoken : List Event :=
  ([.step .daemon, .step (.worker 1), .elapse (.ofMillis 21)] ++
    List.replicate 3 (.step (.worker 0)) ++
    [.step .supervisor, .step (.closer 0), .elapse (.ofNanos 1)] : List Move).map .move

theorem sufficient_deadline_asleep :
    Queue.new sleepyQueue.config .none ⟨.epoch, 0⟩ ⟨0, 0⟩ false = .ok sleepyQueue ∧
    (sleepyQueue.live asleep).lifecycle.state = .running ∧
    sleepyQueue.config.consumeTimeout.nanos + timerResolution.nanos < (Duration.ofMillis 22).nanos ∧
    ((sleepyQueue.live asleep).beginClose (.ofMillis 22)).Timely awoken ∧
    (sleepyQueue.live asleep).now + sleepyQueue.config.consumeTimeout.nanos +
      timerResolution.nanos <
        (((sleepyQueue.live asleep).beginClose (.ofMillis 22)).live awoken).now ∧
    (((sleepyQueue.live asleep).beginClose (.ofMillis 22)).live awoken).closers[0]? =
      some (.returned (.ok ())) := by
  have hq : Queue.new sleepyQueue.config .none ⟨.epoch, 0⟩ ⟨0, 0⟩ false = .ok sleepyQueue := rfl
  have h : (sleepyQueue.live asleep).lifecycle.state = .running ∧
      (sleepyQueue.live asleep).closers.length = 0 ∧
      sleepyQueue.config.consumeTimeout.nanos + timerResolution.nanos <
        (Duration.ofMillis 22).nanos ∧
      ((sleepyQueue.live asleep).beginClose (.ofMillis 22)).Timely awoken ∧
      (sleepyQueue.live asleep).now + sleepyQueue.config.consumeTimeout.nanos +
        timerResolution.nanos <
          (((sleepyQueue.live asleep).beginClose (.ofMillis 22)).live awoken).now := by
    decide +kernel
  obtain ⟨hs, hj, hd, ht, hlt⟩ := h
  obtain ⟨hclosed, -, -⟩ := sufficient_deadline hq rfl (.inl hs) hd ht rfl
  refine ⟨hq, hs, hd, ht, hlt, ?_⟩
  rw [← hj]
  exact (hclosed hlt).2

end Queue

end DelayedQueue
