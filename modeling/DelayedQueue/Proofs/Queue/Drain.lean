import DelayedQueue.Proofs.Queue.Steps

/-! # A queue that shuts down comes to its end

Once its token is cancelled each task ends after some of its own steps, if handlers are given
their time, whatever they do with it. So from every state of a queue that shuts down some quiet
moves lead to one in which all tasks have ended and a close returns at once.
-/

namespace DelayedQueue

/-- No handler takes infinitely many steps. -/
theorem Activity.acc_leads (a : Activity) : Acc (fun b a => Activity.Leads a b) a := by
  have hfinish (e : Ending) : Acc (fun b a => Activity.Leads a b) (.finish e) :=
    ⟨_, fun b h => nomatch h⟩
  induction a with
  | finish e => exact hfinish e
  | hang => exact ⟨_, fun b h => nomatch h⟩
  | pause d rest ih => exact ⟨_, fun b h => by cases h; exact ih⟩
  | report r rest ih => exact ⟨_, fun b h => by cases h; exact ih⟩
  | notify n rest ih => exact ⟨_, fun b h => by cases h; exact ih⟩
  | redeliverAfter id delay next ih =>
    refine ⟨_, fun b h => ?_⟩
    cases h with
    | redeliverAfter r => exact ih r
    | redeliverAfter_panic text => exact hfinish _
  | redeliverAt id t next ih => exact ⟨_, fun b h => by cases h with | redeliverAt r => exact ih r⟩
  | produce d next ih =>
    refine ⟨_, fun b h => ?_⟩
    cases h with
    | produce r => exact ih r
    | produce_panic text => exact hfinish _
  | store op next ih => exact ⟨_, fun b h => by cases h with | store r => exact ih r⟩

namespace Queue

/-- Tasks go on or time passes, and nobody calls. -/
def Move.IsQuiet : Move → Prop
  | .step _ | .elapse _ => True
  | _ => False

/-- Some quiet moves lead to the crew `c` in the same part of the queue's life. -/
def Reaches (q : Queue) (c : Crew) : Prop :=
  ∃ ms : List Move, (∀ m ∈ ms, m.IsQuiet) ∧ (q.run ms).lifecycle = q.lifecycle ∧
    (q.run ms).outline.crew = some c

variable {q : Queue} {c c' : Crew} {i : Nat}

theorem run_append (ms ms' : List Move) : q.run (ms ++ ms') = (q.run ms).run ms' :=
  List.foldl_append

namespace Reaches

theorem refl (h : q.outline.crew = some c) : q.Reaches c :=
  ⟨[], fun _ hm => absurd hm List.not_mem_nil, rfl, h⟩

theorem of_run (ms : List Move) (hms : ∀ m ∈ ms, m.IsQuiet)
    (hl : (q.run ms).lifecycle = q.lifecycle) (h : (q.run ms).Reaches c) : q.Reaches c := by
  obtain ⟨ms', hms', hl', hc⟩ := h
  refine ⟨ms ++ ms', fun m hm => (List.mem_append.mp hm).elim (hms m) (hms' m), ?_, ?_⟩
  · rw [run_append, hl', hl]
  · rw [run_append, hc]

theorem of_elapse {d : Duration} (h : (q.elapse d).Reaches c) : q.Reaches c :=
  .of_run [.elapse d] (fun _ hm => List.mem_singleton.mp hm ▸ trivial) rfl h

theorem of_step {t : Task} (hl : (q.step t).lifecycle = q.lifecycle)
    (hc : (q.step t).outline.crew = some c) : q.Reaches c :=
  .of_run [.step t] (fun _ hm => List.mem_singleton.mp hm ▸ trivial) hl (.refl hc)

/-- From any state with the crew `c` some quiet moves lead to a good crew. -/
theorem exists_trans {P : Crew → Prop} (h : q.Reaches c)
    (h' : ∀ q' : Queue, q'.outline.crew = some c → ∃ c', P c' ∧ q'.Reaches c') :
    ∃ c', P c' ∧ q.Reaches c' := by
  obtain ⟨ms, hms, hl, hc⟩ := h
  obtain ⟨c', hp, hr⟩ := h' _ hc
  exact ⟨c', hp, .of_run ms hms hl hr⟩

end Reaches

section Readiness

theorem exists_session (h : q.outline.crew = some c) : ∃ s, q.session = some s ∧ s.crew = c :=
  Option.map_eq_some_iff.mp h

theorem workerReady_of_cancelled {s : Session} {w : Worker} (hc : s.cancelled = true)
    (hw : ¬ w.phase.HasEnded) (hd : ∀ d, w.phase = .handling d → d.deadline ≤ q.now) :
    q.workerReady s w = true := by
  unfold workerReady
  split
  · rfl
  · rfl
  · rfl
  · simp [hc]
  · simp [hc]
  · next d he => simp [hd d he]
  · next he => exact absurd (.inl he) hw
  · next he => exact absurd (.inr he) hw

theorem exists_worker_of_crew {s : Session} {p : Worker.Phase} (hs : q.session = some s)
    (hi : s.crew.workers[i]? = some p) :
    ∃ w, q.worker? i = some w ∧ w.phase = p := by
  obtain ⟨w, hw, hp⟩ : ∃ w, s.workers[i]? = some w ∧ w.phase = p := by
    simpa [Session.crew] using hi
  exact ⟨w, by simp only [worker?, hs, hw], hp⟩

theorem isReady_worker {p : Worker.Phase} (h : q.outline.crew = some c) (hc : c.cancelled = true)
    (hi : c.workers[i]? = some p) (hp : ¬ p.HasEnded)
    (hd : ∀ d, p = .handling d → d.deadline ≤ q.now) : q.isReady (.worker i) = true := by
  obtain ⟨s, hs, rfl⟩ := exists_session h
  obtain ⟨w, hw, rfl⟩ := exists_worker_of_crew hs hi
  simp only [isReady, hs, hw]
  exact workerReady_of_cancelled hc hp hd

theorem isReady_daemon (h : q.outline.crew = some c) (hc : c.cancelled = true)
    (hp : ¬ c.daemon.HasEnded) : q.isReady .daemon = true := by
  obtain ⟨s, hs, rfl⟩ := exists_session h
  have hc : s.cancelled = true := hc
  simp only [isReady, hs, Option.any_some]
  unfold daemonReady
  split
  · rfl
  · rfl
  · simp [hc]
  · next he => exact absurd (.inl he) hp
  · next he => exact absurd (.inr he) hp

theorem isReady_supervisor (h : q.outline.crew = some c) (he : c.AllEnded)
    (hd : c.done = false) : q.isReady .supervisor = true := by
  obtain ⟨s, hs, rfl⟩ := exists_session h
  have hd : s.done = false := hd
  simp only [isReady, hs, Option.any_some, Session.allEnded_iff.mpr he, hd]
  rfl

theorem isReady_closer {j : Nat} {d : Duration} {due : Instant} (h : q.outline.crew = some c)
    (hd : c.done = true) (hj : q.closers[j]? = some (.waiting d due)) :
    q.isReady (.closer j) = true := by
  have hdone : q.isDone = true := isDone_iff.mpr ⟨c, h, hd⟩
  simp only [isReady, hj, Option.any_some, closerReady, hdone, Bool.true_or]

theorem step_worker (h : q.outline.crew = some c) (hr : q.isReady (.worker i) = true) :
    ∃ p p' es, c.workers[i]? = some p ∧ q.outline.Turn i c.cancelled p p' es ∧
      (q.step (.worker i)).outline = q.outline.put i p' es := by
  obtain ⟨s, hs, rfl⟩ := exists_session h
  cases hw : q.worker? i with
  | none => simp [isReady, hs, hw] at hr
  | some w =>
    have hw' : s.workers[i]? = some w := by simpa only [worker?, hs] using hw
    have hready : q.workerReady s w = true := by simpa only [isReady, hs, hw] using hr
    obtain ⟨p', es, hturn, ho⟩ := stepWorker_turn h hw' hready
    refine ⟨w.phase, p', es, by simp [Session.crew, hw'], hturn, ?_⟩
    simp only [step, hr, if_true, advance, hs, hw]
    exact ho

theorem step_daemon (h : q.outline.crew = some c) (hr : q.isReady .daemon = true) :
    ∃ p, Daemon.Phase.Turn c.cancelled c.daemon p ∧
      (q.step .daemon).outline = q.outline.setCrew { c with daemon := p } := by
  obtain ⟨s, hs, rfl⟩ := exists_session h
  have hready : q.daemonReady s = true := by simpa only [isReady, hs, Option.any_some] using hr
  obtain ⟨p, hturn, ho⟩ := stepDaemon_turn hready
  refine ⟨p, hturn, ?_⟩
  simp only [step, hr, if_true, advance, hs]
  exact ho

theorem step_supervisor (h : q.outline.crew = some c) (hr : q.isReady .supervisor = true) :
    c.done = false ∧
      (q.step .supervisor).outline = q.outline.setCrew { c with done := true } := by
  obtain ⟨s, hs, rfl⟩ := exists_session h
  have hd : s.allEnded = true ∧ s.done = false := by
    simpa only [isReady, hs, Option.any_some, Bool.and_eq_true, Bool.not_eq_true'] using hr
  refine ⟨hd.2, ?_⟩
  simp only [step, hr, if_true, advance, hs]
  exact outline_publishEnd

theorem Reaches.of_later (n : Nat) (h : ({ q with now := q.now + n } : Queue).Reaches c) :
    q.Reaches c := by
  induction n generalizing q with
  | zero => exact h
  | succ n ih =>
    -- one nanosecond after the other, since no single move need be long enough
    refine .of_elapse (d := .ofNanos 1) (ih ?_)
    have hnow : q.now + 1 + n = q.now + (n + 1) := Nat.add_right_comm q.now 1 n
    exact (congrArg (fun t => ({ q with now := t } : Queue).Reaches c) hnow).mpr h

theorem exists_turn {p : Worker.Phase} (h : q.outline.crew = some c) (hc : c.cancelled = true)
    (hi : c.workers[i]? = some p) (hp : ¬ p.HasEnded) :
    ∃ o p' es, Outline.Turn o i true p p' es ∧ q.Reaches (c.setPhase i p') := by
  obtain ⟨t, ht⟩ : ∃ t : Nat, ∀ d, p = .handling d → d.deadline ≤ q.now + t := by
    cases p with
    | handling d => exact ⟨d.deadline, fun d' he => by cases he; exact Nat.le_add_left _ _⟩
    | _ => exact ⟨0, fun d he => by cases he⟩
  have hr : ({ q with now := q.now + t } : Queue).isReady (.worker i) = true :=
    isReady_worker h hc hi hp ht
  obtain ⟨p₀, p', es, hi', hturn, ho⟩ := step_worker (q := { q with now := q.now + t }) h hr
  rw [hi, Option.some.injEq] at hi'
  subst hi'
  rw [hc] at hturn
  refine ⟨_, p', es, hturn, .of_later t (.of_step (t := .worker i) ?_ ?_)⟩
  · exact congrArg Outline.lifecycle ho
  · rw [ho]
    exact congrArg (Option.map _) h

end Readiness

end Queue

section Workers

namespace Worker.Phase

variable {p : Worker.Phase}

/-- What a worker can come to in its next step when the token is cancelled. -/
def Leads (p p' : Worker.Phase) : Prop := ∃ o i es, Outline.Turn o i true p p' es

theorem acc_of_hasEnded (hp : p.HasEnded) : Acc (fun p' p => Leads p p') p := by
  refine ⟨_, ?_⟩
  rintro p' ⟨o, i, es, ht⟩
  exact absurd hp ht.not_hasEnded

theorem acc_of_waits (hp : p.Waits) : Acc (fun p' p => Leads p p') p := by
  refine ⟨_, ?_⟩
  rintro p' ⟨o, i, es, ht⟩
  cases ht with
  | stop => exact acc_of_hasEnded (.inl rfl)
  | await hc => cases hc
  | poll hc => cases hc
  | _ => cases hp

theorem acc_settling (m : Message) (latency : Duration) (o : Outcome) :
    Acc (fun p' p => Leads p p') (settling m latency o) := by
  refine ⟨_, ?_⟩
  rintro p' ⟨o, i, es, ht⟩
  cases ht with
  | stop _ hp => cases hp
  | poll _ hp => cases hp
  | leave | commit | commit_fails => exact acc_of_waits (.looping true)

theorem acc_handling (d : Delivery) : Acc (fun p' p => Leads p p') (handling d) := by
  obtain ⟨m, a, wake, deadline⟩ := d
  induction a.acc_leads generalizing wake with
  | intro a _ ih =>
    refine ⟨_, ?_⟩
    rintro p' ⟨o, i, es, ht⟩
    cases ht with
    | stop _ hp => cases hp
    | poll _ hp => cases hp
    | goOn h => exact ih _ h _
    | ended => exact acc_settling _ _ _
    | ended_blind => exact acc_of_hasEnded (.inr rfl)

/-- No worker takes infinitely many steps once the token is cancelled. -/
theorem acc_leads (p : Worker.Phase) : Acc (fun p' p => Leads p p') p := by
  cases p with
  | fresh =>
    refine ⟨_, ?_⟩
    rintro p' ⟨o, i, es, ht⟩
    cases ht with
    | start => exact acc_of_waits (.looping false)
    | stop _ hp => cases hp
    | poll _ hp => cases hp
  | looping again => exact acc_of_waits (.looping again)
  | ticking => exact acc_of_waits .ticking
  | throttled due => exact acc_of_waits (.throttled due)
  | handling d => exact acc_handling d
  | settling m latency o => exact acc_settling m latency o
  | stopped => exact acc_of_hasEnded (.inl rfl)
  | broken => exact acc_of_hasEnded (.inr rfl)

/-- From this phase a cancelled worker comes to its end, and all other tasks stay as they are. -/
def Stops (p : Worker.Phase) : Prop :=
  ∀ (q : Queue) (c : Crew) (i : Nat), q.outline.crew = some c → c.cancelled = true →
    c.workers[i]? = some p → ∃ c', (∃ p', p'.HasEnded ∧ c' = c.setPhase i p') ∧ q.Reaches c'

theorem stops (p : Worker.Phase) : p.Stops := by
  induction p.acc_leads with
  | intro p _ ih =>
    intro q c i hq hc hi
    by_cases hp : p.HasEnded
    · exact ⟨c, ⟨p, hp, (Crew.setPhase_self hi).symm⟩, .refl hq⟩
    · obtain ⟨o, p', es, ht, hr⟩ := Queue.exists_turn hq hc hi hp
      refine hr.exists_trans fun q' hq' => ?_
      have hi' : (c.setPhase i p').workers[i]? = some p' :=
        List.getElem?_set_self (List.getElem?_eq_some_iff.mp hi).1
      obtain ⟨c', ⟨p'', hp'', rfl⟩, hr'⟩ := ih p' ⟨o, _, es, ht⟩ q' _ i hq' hc hi'
      refine ⟨_, ⟨p'', hp'', ?_⟩, hr'⟩
      simp only [Crew.setPhase, List.set_set]

end Worker.Phase

end Workers

namespace Queue

variable {q : Queue} {c : Crew}

theorem exists_workers_ended (h : q.outline.crew = some c) (hc : c.cancelled = true) (n : Nat) :
    ∃ c', (c'.cancelled = true ∧ c'.workers.length = c.workers.length ∧
      ∀ i < n, ∀ p, c'.workers[i]? = some p → p.HasEnded) ∧ q.Reaches c' := by
  induction n with
  | zero => exact ⟨c, ⟨hc, rfl, fun i hi => absurd hi (Nat.not_lt_zero i)⟩, .refl h⟩
  | succ n ih =>
    obtain ⟨c₁, ⟨hc₁, hlen, hn⟩, hr⟩ := ih
    refine hr.exists_trans fun q' hq' => ?_
    cases hi : c₁.workers[n]? with
    | none =>
      refine ⟨c₁, ⟨hc₁, hlen, fun i hlt p hp => ?_⟩, .refl hq'⟩
      rcases Nat.lt_succ_iff_lt_or_eq.mp hlt with hlt | rfl
      · exact hn i hlt p hp
      · rw [hi] at hp; cases hp
    | some p₁ =>
      obtain ⟨c₂, ⟨p', hp', rfl⟩, hr'⟩ := p₁.stops q' c₁ n hq' hc₁ hi
      have hlen' : (c₁.setPhase n p').workers.length = c.workers.length :=
        List.length_set.trans hlen
      refine ⟨c₁.setPhase n p', ⟨hc₁, hlen', fun i hlt p hp => ?_⟩, hr'⟩
      rcases Nat.lt_succ_iff_lt_or_eq.mp hlt with hlt | rfl
      · rw [Crew.setPhase, List.getElem?_set_ne (Nat.ne_of_gt hlt)] at hp
        exact hn i hlt p hp
      · rw [Crew.setPhase, List.getElem?_set_self (List.getElem?_eq_some_iff.mp hi).1] at hp
        exact Option.some.inj hp ▸ hp'

theorem exists_daemon_turn (h : q.outline.crew = some c) (hc : c.cancelled = true)
    (hp : ¬ c.daemon.HasEnded) :
    ∃ p, Daemon.Phase.Turn true c.daemon p ∧ q.Reaches { c with daemon := p } := by
  obtain ⟨p, ht, ho⟩ := step_daemon h (isReady_daemon h hc hp)
  rw [hc] at ht
  refine ⟨p, ht, .of_step (t := .daemon) ?_ ?_⟩
  · exact congrArg Outline.lifecycle ho
  · rw [ho]
    rfl

theorem exists_daemon_ended (h : q.outline.crew = some c) (hc : c.cancelled = true) :
    ∃ c', (c'.daemon.HasEnded ∧ c'.workers = c.workers) ∧ q.Reaches c' := by
  have hwaiting {q : Queue} {c : Crew} (h : q.outline.crew = some c) (hc : c.cancelled = true)
      (hd : c.daemon = .waiting) :
      ∃ c', (c'.daemon.HasEnded ∧ c'.workers = c.workers) ∧ q.Reaches c' := by
    obtain ⟨p, ht, hr⟩ := exists_daemon_turn h hc (by rw [hd]; rintro (h | h) <;> cases h)
    rw [hd] at ht
    cases ht with
    | stop => exact ⟨{ c with daemon := .stopped }, ⟨.inl rfl, rfl⟩, hr⟩
    | tick hc => cases hc
    | tick_panic hc => cases hc
  by_cases hd : c.daemon.HasEnded
  · exact ⟨c, ⟨hd, rfl⟩, .refl h⟩
  · obtain ⟨p, ht, hr⟩ := exists_daemon_turn h hc hd
    generalize c.daemon = p₀ at ht
    cases ht with
    | start | endPass =>
      exact hr.exists_trans fun q' hq' => hwaiting (c := { c with daemon := .waiting }) hq' hc rfl
    | stop => exact ⟨{ c with daemon := .stopped }, ⟨.inl rfl, rfl⟩, hr⟩
    | promote_panic => exact ⟨{ c with daemon := .broken }, ⟨.inr rfl, rfl⟩, hr⟩
    | tick hc => cases hc
    | tick_panic hc => cases hc
    | goOn _ _ hc => cases hc

theorem exists_allEnded (h : q.outline.crew = some c) (hc : c.cancelled = true) :
    ∃ c', c'.AllEnded ∧ q.Reaches c' := by
  obtain ⟨c₁, ⟨hc₁, hlen, hw⟩, hr⟩ := exists_workers_ended h hc c.workers.length
  refine hr.exists_trans fun q' hq' => ?_
  obtain ⟨c₂, ⟨hd, he⟩, hr'⟩ := exists_daemon_ended hq' hc₁
  refine ⟨c₂, ⟨hd, fun p hp => ?_⟩, hr'⟩
  rw [he] at hp
  obtain ⟨i, hi⟩ := List.mem_iff_getElem?.mp hp
  have hlt : i < c₁.workers.length := (List.getElem?_eq_some_iff.mp hi).1
  exact hw i (hlen ▸ hlt) p hi

theorem exists_done (h : q.outline.crew = some c) (hc : c.cancelled = true) :
    ∃ c', c'.done = true ∧ q.Reaches c' := by
  obtain ⟨c₁, he, hr⟩ := exists_allEnded h hc
  refine hr.exists_trans fun q' hq' => ?_
  by_cases hd : c₁.done = true
  · exact ⟨c₁, hd, .refl hq'⟩
  · obtain ⟨-, ho⟩ := step_supervisor hq' (isReady_supervisor hq' he (Bool.eq_false_iff.mpr hd))
    refine ⟨{ c₁ with done := true }, rfl, .of_step (t := .supervisor) ?_ ?_⟩
    · exact congrArg Outline.lifecycle ho
    · rw [ho]
      rfl

section Close

/-- A close that is begun now returns at its first step, and without an error. -/
def ClosesAtOnce (q : Queue) : Prop :=
  ∀ deadline, ((q.beginClose deadline).step (.closer q.closers.length)).closers[q.closers.length]? =
    some (.returned (.ok ()))

theorem closesAtOnce_of_stopped (h : q.lifecycle = .stopped) : q.ClosesAtOnce := by
  intro deadline
  have hc : (q.addCloser (.returned (.ok ()))).closers[q.closers.length]? =
      some (.returned (.ok ())) := List.getElem?_concat_length
  have hr : (q.addCloser (.returned (.ok ()))).isReady (.closer q.closers.length) = false := by
    simp only [isReady, hc, Option.any_some, closerReady]
  rw [beginClose_of_stopped h, step, hr]
  exact hc

theorem closesAtOnce_of_isDone (h : q.lifecycle = .shuttingDown) (hd : q.isDone = true) :
    q.ClosesAtOnce := by
  intro deadline
  rw [beginClose_of_shuttingDown h]
  generalize hc : Closer.waiting deadline (q.now.deadline deadline) = cl
  have hd' : (q.addCloser cl).isDone = true := hd
  have hcl : (q.addCloser cl).closers[q.closers.length]? = some cl := List.getElem?_concat_length
  subst hc
  have hr : (q.addCloser (.waiting deadline (q.now.deadline deadline))).isReady
      (.closer q.closers.length) = true := by
    simp only [isReady, hcl, Option.any_some, closerReady, hd', Bool.true_or]
  simp only [step, hr, if_true, advance, hcl, finishClose, hd']
  exact List.getElem?_set_self (by simp [addCloser])

/-- Once a close has asked the tasks to stop, a close can succeed later if nobody calls. -/
theorem exists_closesAtOnce (h : q.lifecycle.Fits q.outline.crew)
    (hs : LifeState.running.rank < q.lifecycle.state.rank) :
    ∃ ms : List Move, (∀ m ∈ ms, m.IsQuiet) ∧ (q.run ms).ClosesAtOnce := by
  generalize hl : q.lifecycle = l, hcrew : q.outline.crew = crew at h hs
  cases h with
  | idle => exact absurd hs (by decide)
  | running => exact absurd hs (by decide)
  | unused | stopped =>
    exact ⟨[], fun _ hm => absurd hm List.not_mem_nil, closesAtOnce_of_stopped hl⟩
  | shuttingDown hc =>
    obtain ⟨c', hd, ms, hms, hl', hc'⟩ := exists_done hcrew hc
    exact ⟨ms, hms, closesAtOnce_of_isDone (hl'.trans hl) (isDone_iff.mpr ⟨c', hc', hd⟩)⟩

end Close

end Queue

end DelayedQueue
