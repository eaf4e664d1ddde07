import DelayedQueue.Proofs.Queue.Outline

/-! # The steps of a queue

Each function of a queue, by what it does to the outline: calls on messages are not seen in it,
a step of a task is a turn of that task, and `move_step` has all moves together.
-/

namespace DelayedQueue.Queue

variable {q : Queue} {s : Session} {i : Nat} {p : Worker.Phase} {m : Message} {d : Delivery}

section Calls

theorem outline_produceAt (d : Draft) (now : Time) : (q.produceAt d now).2.outline = q.outline := by
  unfold produceAt
  simp only
  split
  · rfl
  · rfl

theorem outline_redeliverAt (id : String) (t : Time) :
    (q.redeliverAt id t).2.outline = q.outline := by
  unfold redeliverAt
  simp only
  split
  · rfl
  · rfl

theorem outline_produce {d : Draft} {r : Except QueueError String} {q' : Queue}
    (h : q.produce d = .ok (r, q')) : q'.outline = q.outline := by
  unfold produce at h
  cases hw : q.wall with
  | error e => rw [hw] at h; cases h
  | ok now =>
    rw [hw] at h
    have hp : q.produceAt d now = (r, q') := Except.ok.inj h
    have hq := outline_produceAt (q := q) d now
    rwa [hp] at hq

theorem outline_redeliverAfter {id : String} {delay : Duration} {r : Except QueueError Bool}
    {q' : Queue} (h : q.redeliverAfter id delay = .ok (r, q')) : q'.outline = q.outline := by
  unfold redeliverAfter at h
  split at h
  · cases h; rfl
  · cases hw : q.wall with
    | error e => rw [hw] at h; cases h
    | ok now =>
      rw [hw] at h
      have hr := Except.ok.inj h
      simp only at hr
      split at hr
      · cases hr; rfl
      · next t _ =>
        have hq := outline_redeliverAt (q := q) id t
        rwa [hr] at hq

theorem outline_afterCall {α : Type} {r : Except Panic (α × Queue)}
    (hr : ∀ a q', r = .ok (a, q') → q'.outline = q.outline) :
    (q.afterCall r).outline = q.outline := by
  match r with
  | .ok (a, q') => exact hr a q' rfl
  | .error _ => rfl

end Calls

section Workers

variable {o : Outline} {r : Outcome} {w : Worker}

/-- A take that has been noted. No take ends in a wait for a token. -/
theorem receive_attempt (h : q.outline = o.log (.attempted i)) (t : Take) :
    ∃ p es, o.Poll i p es ∧ p.due? = none ∧ (q.receive s i t).outline = o.put i p es := by
  cases t with
  | empty =>
    refine ⟨_, _, .nothing false, rfl, ?_⟩
    simp only [receive, outline_setPhase, h, Outline.put_log, List.nil_append]
  | exhausted id n =>
    refine ⟨_, _, .nothing true, rfl, ?_⟩
    simp only [receive, outline_setPhase, outline_notify, h, Outline.put_log, List.nil_append]
  | taken row =>
    simp only [receive]
    split
    · refine ⟨_, _, .nothing false, rfl, ?_⟩
      simp only [outline_setPhase, outline_notify, h, Outline.put_log, List.nil_append]
    · next m _ =>
      have hn : q.now = o.now := congrArg Outline.now h
      have hc : q.config = o.config := congrArg Outline.config h
      refine ⟨_, _, .invoked m (s.handler m), rfl, ?_⟩
      simp only [invoke, outline_setPhase, outline_note (e := .invoked i m) rfl, h,
        Outline.put_log, List.nil_append, List.cons_append, hn, hc]

theorem takeFromStore_attempt (h : q.outline = o.log (.attempted i)) (now : Time) :
    ∃ p es, o.Poll i p es ∧ p.due? = none ∧
      (q.takeFromStore s i now).outline = o.put i p es := by
  unfold takeFromStore
  simp only
  refine receive_attempt ?_ _
  split
  · exact h
  · exact h

theorem takeAt_attempt (now : Time) :
    ∃ p es, q.outline.Poll i p es ∧ p.due? = none ∧
      (q.takeAt s i now).outline = q.outline.put i p es := by
  have hn : (q.note (.attempted i)).outline = q.outline.log (.attempted i) := outline_note rfl
  unfold takeAt
  simp only
  split
  · refine ⟨_, _, .nothing false, rfl, ?_⟩
    simp only [outline_setPhase, outline_notify, outline_strike, hn, Outline.put_log,
      List.nil_append]
  · split
    · refine ⟨_, _, .lost, rfl, ?_⟩
      simp only [breakWorker, outline_setPhase, outline_strike, hn, Outline.put_log,
        List.nil_append]
    · refine takeFromStore_attempt ?_ now
      exact hn

theorem take_attempt : ∃ p es, q.outline.Poll i p es ∧ p.due? = none ∧
    (q.take s i).outline = q.outline.put i p es := by
  unfold take
  split
  · exact ⟨_, _, .blind, rfl, outline_setPhase⟩
  · exact takeAt_attempt _

theorem take_poll : ∃ p es, q.outline.Poll i p es ∧
    (q.take s i).outline = q.outline.put i p es := by
  obtain ⟨p, es, hp, -, ho⟩ := take_attempt (q := q) (s := s) (i := i)
  exact ⟨p, es, hp, ho⟩

theorem acquire_poll (hs : q.outline.crew = some s.crew) :
    ∃ p es, q.outline.Poll i p es ∧ (q.acquire s i).outline = q.outline.put i p es := by
  unfold acquire
  split
  · exact take_poll
  · split
    · exact ⟨_, _, .blind, outline_setPhase⟩
    · next wait l _ =>
      have h : (q.setSession { s with limiter := some l }).outline = q.outline :=
        outline_setSession_of_crew hs
      simp only
      split
      · rw [← h]; exact take_poll
      · exact ⟨_, _, .throttled _, outline_setPhase.trans (by rw [h])⟩

theorem tickWorker_poll (hs : q.outline.crew = some s.crew) (hw : s.workers[i]? = some w) :
    ∃ p es, q.outline.Poll i p es ∧ (q.tickWorker s i w).outline = q.outline.put i p es := by
  unfold tickWorker
  split
  · exact ⟨_, _, .blind, outline_setPhase⟩
  · next ticker _ =>
    have hc : s.crew.setPhase i w.phase = s.crew := Crew.setPhase_self (by simp [Session.crew, hw])
    rw [← hc, ← Session.crew_setWorker i { w with ticker }] at hs
    have h := outline_setSession_of_crew hs
    rw [← h] at hs ⊢
    exact acquire_poll hs

/-- The outcome of a handler is noted before the clock is looked at. -/
theorem endHandler_turn {c : Bool} (h : q.outline.Ends d r) (ns : List Notice) :
    ∃ p es, q.outline.Turn i c (.handling d) p es ∧
      (q.endHandler i d.message r ns).outline = q.outline.put i p es := by
  have hn : ((ns.foldl notify q).note (.ended i d.message r)).outline =
      q.outline.log (.ended i d.message r) := by
    rw [outline_note rfl]
    exact congrArg _ (outline_foldl_notify id ns)
  have hw : ((ns.foldl notify q).note (.ended i d.message r)).wall =
      WallClock.readAt q.outline.begun q.outline.now :=
    (congrArg (fun o : Outline => WallClock.readAt o.begun o.now) hn :)
  unfold endHandler
  simp only
  split
  · next e he =>
    refine ⟨_, _, .ended_blind h (hw ▸ he), ?_⟩
    simp only [breakWorker, outline_setPhase, hn, Outline.put_log, List.nil_append]
  · next now he =>
    refine ⟨_, _, .ended h (hw ▸ he), ?_⟩
    simp only [outline_setPhase, hn, Outline.put_log, List.nil_append]

theorem setPhase_leads {a b : Activity} {wake : Instant} {q' : Queue} (h : b.Leads a)
    (hq : q'.outline = q.outline) : ∃ a' wake', b.Leads a' ∧
      (q'.setPhase i (.handling { d with activity := a, wake })).outline =
        q.outline.put i (.handling { d with activity := a', wake := wake' }) [] :=
  ⟨a, wake, h, outline_setPhase.trans (by rw [hq])⟩

theorem proceed_leads (hf : ∀ e, d.activity ≠ .finish e) (hh : d.activity ≠ .hang) :
    ∃ a wake, d.activity.Leads a ∧ (q.proceed i d).outline =
      q.outline.put i (.handling { d with activity := a, wake }) [] := by
  cases ha : d.activity with
  | finish e => exact absurd ha (hf e)
  | hang => exact absurd ha hh
  | pause t rest =>
    simp only [proceed, ha]
    split
    · exact setPhase_leads .pause rfl
    · exact setPhase_leads .pause rfl
  | report r rest =>
    simp only [proceed, ha]
    exact setPhase_leads .report rfl
  | notify n rest =>
    simp only [proceed, ha]
    exact setPhase_leads .notify rfl
  | redeliverAfter id delay next =>
    simp only [proceed, ha]
    split
    · exact setPhase_leads (.redeliverAfter_panic _) rfl
    · next r q' hq => exact setPhase_leads (.redeliverAfter r) (outline_redeliverAfter hq)
  | redeliverAt id t next =>
    simp only [proceed, ha]
    exact setPhase_leads (.redeliverAt _) (outline_redeliverAt id t)
  | produce draft next =>
    simp only [proceed, ha]
    split
    · exact setPhase_leads (.produce_panic _) rfl
    · next r q' hq => exact setPhase_leads (.produce r) (outline_produce hq)
  | store op next =>
    simp only [proceed, ha]
    exact setPhase_leads (.store _) rfl

theorem proceed_turn {c : Bool} (h : d.activity ≠ .hang) :
    ∃ p es, q.outline.Turn i c (.handling d) p es ∧
      (q.proceed i d).outline = q.outline.put i p es := by
  by_cases hf : ∃ e, d.activity = .finish e
  · obtain ⟨e, he⟩ := hf
    simp only [proceed, he]
    exact endHandler_turn (.finished he) _
  · obtain ⟨a, wake, hl, ho⟩ := proceed_leads (q := q) (i := i) (fun e he => hf ⟨e, he⟩) h
    exact ⟨_, _, .goOn hl, ho⟩

theorem handle_turn {c : Bool} (h : (q.canProceed d || d.deadline ≤ q.now) = true) :
    ∃ p es, q.outline.Turn i c (.handling d) p es ∧
      (q.handle i d).outline = q.outline.put i p es := by
  unfold handle
  split
  · next hp =>
    refine proceed_turn fun he => ?_
    simp [canProceed, he] at hp
  · next hp =>
    have hd : d.deadline ≤ q.now := by simpa [hp] using h
    exact endHandler_turn (.late hd) _

theorem settle_turn {c : Bool} {latency : Duration} :
    ∃ p es, q.outline.Turn i c (.settling m latency r) p es ∧
      (q.settle i m latency r).outline = q.outline.put i p es := by
  have ho (q' : Queue) :
      (if q'.observed then q'.note (.observed latency m.deliveries r) else q').outline =
        q'.outline := by
    split
    · rfl
    · rfl
  unfold settle
  simp only [outline_setPhase, ho]
  cases r with
  | failed f => exact ⟨_, _, .leave, rfl⟩
  | success =>
    simp only [commit]
    split
    · next hf =>
      obtain ⟨n, hn⟩ := mem_plan_of_strike hf
      exact ⟨_, _, .commit_fails hn, rfl⟩
    · refine ⟨_, _, .commit, ?_⟩
      rw [outline_note rfl, Outline.put_log]
      rfl

theorem startWorker_turn {c : Bool} (hs : q.outline.crew = some s.crew) :
    ∃ p es, q.outline.Turn i c .fresh p es ∧
      (q.startWorker s i).outline = q.outline.put i p es := by
  refine ⟨_, _, .start, ?_⟩
  simp only [startWorker, outline_setSession, Session.crew_setWorker, Outline.put, hs]
  rfl

theorem stepWorker_turn (hs : q.outline.crew = some s.crew) (hw : s.workers[i]? = some w)
    (hr : q.workerReady s w = true) :
    ∃ p es, q.outline.Turn i s.cancelled w.phase p es ∧
      (q.stepWorker s i w).outline = q.outline.put i p es := by
  have hstop {p : Worker.Phase} (hc : s.cancelled = true) (hp : p.Waits) :
      ∃ p' es, q.outline.Turn i s.cancelled p p' es ∧
        (q.stopWorker i).outline = q.outline.put i p' es :=
    ⟨_, _, .stop hc hp, outline_setPhase⟩
  have hpoll {p : Worker.Phase} {q' : Queue} (hc : ¬ s.cancelled = true) (hp : p.Waits)
      (h : ∃ p' es, q.outline.Poll i p' es ∧ q'.outline = q.outline.put i p' es) :
      ∃ p' es, q.outline.Turn i s.cancelled p p' es ∧ q'.outline = q.outline.put i p' es := by
    obtain ⟨p', es, hp', hq⟩ := h
    exact ⟨p', es, .poll (Bool.eq_false_iff.mpr hc) hp hp', hq⟩
  cases hw' : w.phase with
  | fresh =>
    simp only [stepWorker, hw']
    exact startWorker_turn hs
  | looping again =>
    simp only [stepWorker, hw']
    split
    · next hc => exact hstop hc (.looping again)
    · next hc =>
      cases again with
      | true => exact hpoll hc (.looping true) (acquire_poll hs)
      | false => exact ⟨_, _, .await (Bool.eq_false_iff.mpr hc), outline_setPhase⟩
  | ticking =>
    simp only [stepWorker, hw']
    split
    · next hc => exact hstop hc .ticking
    · next hc => exact hpoll hc .ticking (tickWorker_poll hs hw)
  | throttled due =>
    simp only [stepWorker, hw']
    split
    · next hc => exact hstop hc (.throttled due)
    · next hc => exact hpoll hc (.throttled due) take_poll
  | handling d =>
    simp only [stepWorker, workerReady, hw'] at hr ⊢
    exact handle_turn hr
  | settling m latency r =>
    simp only [stepWorker, hw']
    exact settle_turn
  | stopped | broken => simp [workerReady, hw'] at hr

end Workers

section Daemon

variable {total : Nat}

theorem outline_endPass : (q.endPass s total).outline =
    q.outline.setCrew { s.crew with daemon := .waiting } := by
  unfold endPass
  simp only
  split
  · rfl
  · rfl

theorem promote_turn : ∃ p, Daemon.Phase.Turn s.cancelled (.promoting total) p ∧
    (q.promote s total).outline = q.outline.setCrew { s.crew with daemon := p } := by
  unfold promote
  split
  · exact ⟨_, .promote_panic total, rfl⟩
  · unfold promoteAt
    simp only
    split
    · exact ⟨_, .endPass total, outline_endPass⟩
    · split
      · exact ⟨_, .endPass total, outline_endPass⟩
      · next hc =>
        simp only [Bool.or_eq_true, not_or, Bool.not_eq_true] at hc
        exact ⟨_, .goOn total _ hc.2, rfl⟩

theorem stepDaemon_turn (hr : q.daemonReady s = true) :
    ∃ p, Daemon.Phase.Turn s.cancelled s.daemon.phase p ∧
      (q.stepDaemon s).outline = q.outline.setCrew { s.crew with daemon := p } := by
  cases hp : s.daemon.phase with
  | fresh =>
    simp only [stepDaemon, hp]
    exact ⟨_, .start, rfl⟩
  | waiting =>
    simp only [stepDaemon, hp]
    split
    · next hc => exact ⟨_, .stop hc, rfl⟩
    · next hc =>
      rw [Bool.not_eq_true] at hc
      split
      · exact ⟨_, .tick_panic hc, rfl⟩
      · exact ⟨_, .tick hc, rfl⟩
  | promoting total =>
    simp only [stepDaemon, hp]
    exact promote_turn
  | stopped | broken => simp [daemonReady, hp] at hr

end Daemon

section Supervision

theorem outline_publishEnd : (q.publishEnd s).outline =
    q.outline.setCrew { s.crew with done := true } := by
  simp only [publishEnd, outline_setSession, outline_notify, outline_foldl_notify]
  rfl

end Supervision

section Life

theorem use_step (w : Middleware) : q.outline.Step (.use w) (q.use w).2.outline := by
  unfold use
  split
  · exact .stay nofun
  · exact .stay nofun

theorem lifecycle_eq_idle (h : q.lifecycle.Fits q.outline.crew) (hi : q.lifecycle.state = .idle) :
    q.lifecycle = .idle := by
  generalize q.lifecycle = l, q.outline.crew = c at h hi ⊢
  cases h with
  | idle => rfl
  | running | shuttingDown | unused | stopped => cases hi

@[simp] theorem crew_startSession (h : Handler) (l : Option Limiter) :
    (q.startSession h l).crew = .fresh q.config.workerCount.toNat := by
  simp only [startSession, Session.crew, Crew.fresh, List.map_replicate]
  rfl

/-- What is left of a queue whose tasks cannot be started: all of it, but that the attempt may have
been logged. -/
inductive Unspawned (q : Queue) : Panic → Queue → Prop where

  | limiter {p : Panic} (hp : q.startLimiter = .error p) : Unspawned q p q

  | room {p : Panic} {l : Option Limiter} (hl : q.startLimiter = .ok l)
      (hp : makeRoom q.config.workerCount = .error p) :
      Unspawned q p (q.notify (.spawning q.config.workerCount.toNat))

theorem Unspawned.eq_or {f : Panic} {q' : Queue} (h : q.Unspawned f q') :
    q' = q ∨ q' = q.notify (.spawning q.config.workerCount.toNat) := by
  cases h with
  | limiter => exact .inl rfl
  | room => exact .inr rfl

/-- The tasks that have been started. -/
structure Spawned (q : Queue) (h : Handler) (q' : Queue) : Prop where
  room : makeRoom q.config.workerCount = .ok ()
  limiter : ∃ l, q.startLimiter = .ok l ∧ q'.session = some (q.startSession h l)
  middleware : q'.middleware = q.middleware
  outline : q'.outline = { q.outline with
    lifecycle := .running, crew := some (.fresh q.config.workerCount.toNat) }

theorem spawn_cases (q : Queue) (h : Handler) :
    (∃ f q', q.spawn h = (.error (.panic f), q') ∧ q.Unspawned f q') ∨
      ∃ q', q.spawn h = (.ok (), q') ∧ q.Spawned h q' := by
  unfold spawn
  split
  · next hl => exact .inl ⟨_, _, rfl, .limiter hl⟩
  · next l hl =>
    simp only
    split
    · next hp => exact .inl ⟨_, _, rfl, .room hl hp⟩
    · next hr =>
      have hs := crew_startSession (q := q) h l
      refine .inr ⟨_, rfl, hr, ⟨l, hl, rfl⟩, rfl, ?_⟩
      rw [← hs]
      rfl

theorem consume_of_idle (hi : q.lifecycle.state = .idle) (base : Handler) :
    q.consume base true = q.spawn (Handler.compose base q.middleware) := by
  simp only [consume, hi, ne_eq, not_true_eq_false, if_false, Bool.not_true, Bool.false_eq_true]

theorem consume_cases (q : Queue) (base : Handler) (hasExecutor : Bool) :
    (∃ e, q.consume base hasExecutor = (.error (.refused e), q)) ∨
      q.lifecycle.state = .idle ∧
        ((∃ f q', q.consume base hasExecutor = (.error (.panic f), q') ∧ q.Unspawned f q') ∨
          ∃ q', q.consume base hasExecutor = (.ok (), q') ∧
            q.Spawned (Handler.compose base q.middleware) q') := by
  unfold consume
  split
  · exact .inl ⟨_, rfl⟩
  · next hi =>
    split
    · exact .inl ⟨_, rfl⟩
    · exact .inr ⟨Decidable.not_not.mp hi, q.spawn_cases _⟩

theorem consume_step (h : q.lifecycle.Fits q.outline.crew) (base : Handler) (hasExecutor : Bool) :
    q.outline.Step (.consume base hasExecutor) (q.consume base hasExecutor).2.outline := by
  rcases q.consume_cases base hasExecutor with
    ⟨e, he⟩ | ⟨hi, ⟨f, q', he, hf⟩ | ⟨q', he, hs⟩⟩
  · rw [he]
    exact .stay nofun
  · rw [he]
    cases hf <;> exact .stay nofun
  · rw [he, hs.outline]
    exact .consume base hasExecutor _ (lifecycle_eq_idle h hi)

section Close

variable {deadline : Duration}

theorem beginClose_of_idle (h : q.lifecycle = .idle) : q.beginClose deadline =
    ({ q with lifecycle := .stopped } : Queue).addCloser (.returned (.ok ())) := by
  simp only [beginClose, h]
  rfl

theorem beginClose_of_stopped (h : q.lifecycle = .stopped) :
    q.beginClose deadline = q.addCloser (.returned (.ok ())) := by
  simp only [beginClose, h]
  rfl

theorem beginClose_of_running (h : q.lifecycle = .running) : q.beginClose deadline =
    q.requestShutdown.addCloser (.waiting deadline (q.now.deadline deadline)) := by
  have hs : q.requestShutdown.lifecycle.holdsSignal = true := congrArg Lifecycle.holdsSignal h
  simp only [beginClose, awaitTasks, hs, h]
  rfl

theorem beginClose_of_shuttingDown (h : q.lifecycle = .shuttingDown) : q.beginClose deadline =
    q.addCloser (.waiting deadline (q.now.deadline deadline)) := by
  simp only [beginClose, awaitTasks, h]
  rfl

theorem outline_addCloser (c : Closer) : (q.addCloser c).outline = q.outline.addCloser c := rfl

theorem outline_requestShutdown (h : q.lifecycle = .running) : q.requestShutdown.outline =
    { q.outline with lifecycle := .shuttingDown, crew := q.outline.crew.map Crew.cancel } := by
  have hc : (q.session.map Session.cancel).map Session.crew =
      (q.session.map Session.crew).map Crew.cancel := by
    simp only [Option.map_map, Function.comp_def, Session.crew_cancel]
  simp only [requestShutdown, outline_notify]
  simp only [outline, hc, h]
  rfl

theorem beginClose_step (h : q.lifecycle.Fits q.outline.crew) :
    q.outline.Step (.close deadline) (q.beginClose deadline).outline := by
  generalize hl : q.lifecycle = l, hc : q.outline.crew = c at h
  cases h with
  | idle =>
    rw [beginClose_of_idle hl]
    exact .close deadline (.inl hl)
  | unused | stopped =>
    have ho : (q.addCloser (.returned (.ok ()))).outline =
        { q.outline with lifecycle := .stopped }.addCloser (.returned (.ok ())) := by
      rw [outline_addCloser, ← hl]
      rfl
    rw [beginClose_of_stopped hl, ho]
    exact .close deadline (.inr hl)
  | running =>
    rw [beginClose_of_running hl, outline_addCloser, outline_requestShutdown hl]
    exact .shutDown deadline (.inl hl)
  | @shuttingDown c hcancel =>
    have hs : q.outline.crew.map Crew.cancel = q.outline.crew := by
      rw [hc, Option.map_some, Crew.cancel, ← hcancel]
    have hstep : q.outline.Step (.close deadline) _ := .shutDown deadline (.inr hl)
    rw [hs, ← hl] at hstep
    rw [beginClose_of_shuttingDown hl, outline_addCloser]
    exact hstep

theorem isDone_iff : q.isDone = true ↔ ∃ c, q.outline.crew = some c ∧ c.done = true := by
  cases hs : q.session with
  | none => simp [isDone, outline, hs]
  | some s => simp [isDone, outline, hs, Session.crew]

theorem finishClose_step {j : Nat} {due : Instant}
    (hj : q.outline.closers[j]? = some (.waiting deadline due))
    (hr : (q.isDone || due ≤ q.now) = true) :
    q.outline.Step (.step (.closer j)) (q.finishClose j deadline).outline := by
  unfold finishClose
  split
  · next hd =>
    obtain ⟨c, hc, hd⟩ := isDone_iff.mp hd
    exact .closed hj hc hd
  · next hd =>
    have ht : due ≤ q.now := by simpa [hd] using hr
    refine .late hj (fun c hc => ?_) ht
    exact Bool.eq_false_iff.mpr fun hd' => hd (isDone_iff.mpr ⟨c, hc, hd'⟩)

end Close

theorem getElem?_workers {w : Worker} (hs : q.session = some s) (hw : q.worker? i = some w) :
    s.workers[i]? = some w := by
  simpa only [worker?, hs] using hw

theorem outline_crew (hs : q.session = some s) : q.outline.crew = some s.crew := by
  simp only [outline, hs, Option.map_some]

theorem advance_step {t : Task} (hr : q.isReady t = true) :
    q.outline.Step (.step t) (q.advance t).outline := by
  cases t with
  | daemon =>
    simp only [advance]
    split
    · next s hs =>
      simp only [isReady, hs, Option.any_some] at hr
      obtain ⟨p, hp, ho⟩ := stepDaemon_turn hr
      exact ho ▸ .daemon (outline_crew hs) hp
    · exact .stay_step
  | worker i =>
    simp only [advance]
    split
    · next s w hs hw =>
      simp only [isReady, hs, hw] at hr
      have hw := getElem?_workers hs hw
      obtain ⟨p, es, hp, ho⟩ := stepWorker_turn (outline_crew hs) hw hr
      refine ho ▸ .worker (outline_crew hs) ?_ hp
      simp only [Session.crew, List.getElem?_map, hw, Option.map_some]
    · exact .stay_step
  | supervisor =>
    simp only [advance]
    split
    · next s hs =>
      simp only [isReady, hs, Option.any_some, Bool.and_eq_true] at hr
      exact outline_publishEnd ▸ .publish (outline_crew hs) (Session.allEnded_iff.mp hr.1)
    · exact .stay_step
  | closer j =>
    simp only [advance]
    split
    · next deadline due hj =>
      simp only [isReady, hj, Option.any_some, closerReady] at hr
      exact finishClose_step hj hr
    · exact .stay_step

theorem move_step (h : q.lifecycle.Fits q.outline.crew) (m : Move) :
    q.outline.Step m (q.move m).outline := by
  have hstay {q' : Queue} (hm : ∀ d, m ≠ .close d) (hq : q'.outline = q.outline) :
      q.outline.Step m q'.outline := hq ▸ .stay hm
  cases m with
  | produce d => exact hstay nofun (outline_afterCall fun _ _ he => outline_produce he)
  | redeliverAt id t => exact hstay nofun (outline_redeliverAt id t)
  | redeliverAfter id delay =>
    exact hstay nofun (outline_afterCall fun _ _ he => outline_redeliverAfter he)
  | use w => exact use_step w
  | consume base hasExecutor => exact consume_step h base hasExecutor
  | close d => exact beginClose_step h
  | step t =>
    change q.outline.Step _ (q.step t).outline
    unfold step
    split
    · next hr => exact advance_step hr
    · exact .stay_step
  | elapse d => exact .elapse d

end Life

end DelayedQueue.Queue
