import DelayedQueue.Proofs.Message.Grammar
import DelayedQueue.Proofs.Queue.Steps

/-! # What the workers of a queue share

The middleware that a queue has, the handler that all workers call, and the limiter that they
share. Nothing but a registration changes the first, nothing but the consume that begins a session
sets the second, and only workers that look for a message take tokens from the third.
-/

namespace DelayedQueue

structure Gear where
  middleware : List Middleware
  handler : Option Handler
  limiter : Option Limiter

/-- What the workers of a session share, in a queue with this middleware. -/
def Session.gear (s : Session) (ms : List Middleware) : Gear := ⟨ms, some s.handler, s.limiter⟩

namespace Queue

def gear (q : Queue) : Gear :=
  ⟨q.middleware, q.session.map Session.handler, q.session.bind Session.limiter⟩

variable {q q' : Queue} {s : Session} {w : Worker} {i : Nat} {m : Message} {d : Delivery} {t : Time}
  {total : Nat} {o : Outcome} {latency : Duration}

theorem gear_foldl_notify {α : Type} (f : α → Notice) (as : List α) :
    (as.foldl (fun q a => q.notify (f a)) q).gear = q.gear := by
  induction as generalizing q with
  | nil => rfl
  | cons a as ih => exact ih

theorem gear_setPhase (i : Nat) (p : Worker.Phase) :
    (q.setPhase i p).gear = q.gear := by
  simp only [gear, setPhase]
  cases q.session with
  | none => rfl
  | some s => rfl

section Calls

theorem gear_produceAt (d : Draft) : (q.produceAt d t).2.gear = q.gear := by
  unfold produceAt
  simp only
  split
  · rfl
  · rfl

theorem gear_redeliverAt (id : String) : (q.redeliverAt id t).2.gear = q.gear := by
  unfold redeliverAt
  simp only
  split
  · rfl
  · rfl

theorem gear_produce {d : Draft} {r : Except QueueError String}
    (h : q.produce d = .ok (r, q')) : q'.gear = q.gear := by
  obtain ⟨now, -, hp⟩ := Row.map_eq_ok_iff.mp h
  have hq := gear_produceAt (q := q) (t := now) d
  rwa [hp] at hq

theorem gear_redeliverAfter {id : String} {delay : Duration} {r : Except QueueError Bool}
    (h : q.redeliverAfter id delay = .ok (r, q')) : q'.gear = q.gear := by
  unfold redeliverAfter at h
  split at h
  · cases h; rfl
  · obtain ⟨now, -, hr⟩ := Row.map_eq_ok_iff.mp h
    split at hr
    · cases hr; rfl
    · next t _ =>
      have hq := gear_redeliverAt (q := q) (t := t) id
      rwa [hr] at hq

theorem gear_afterCall {α : Type} {r : Except Panic (α × Queue)}
    (hr : ∀ a q', r = .ok (a, q') → q'.gear = q.gear) :
    (q.afterCall r).gear = q.gear := by
  match r with
  | .ok (a, q') => exact hr a q' rfl
  | .error _ => rfl

theorem gear_requestShutdown : q.requestShutdown.gear = q.gear := by
  simp only [gear, requestShutdown, notify, note]
  cases q.session with
  | none => rfl
  | some s => rfl

theorem gear_awaitTasks (deadline : Duration) :
    (q.awaitTasks deadline).gear = q.gear := by
  unfold awaitTasks
  split
  · rfl
  · rfl

theorem gear_beginClose (deadline : Duration) :
    (q.beginClose deadline).gear = q.gear := by
  unfold beginClose
  split
  · rfl
  · rfl
  · rw [gear_awaitTasks, gear_requestShutdown]
  · exact gear_awaitTasks deadline

theorem gear_finishClose (j : Nat) (deadline : Duration) :
    (q.finishClose j deadline).gear = q.gear := by
  unfold finishClose
  split
  · rfl
  · rfl

theorem gear_consume (base : Handler) (hasExecutor : Bool) (hi : q.lifecycle.state ≠ .idle) :
    (q.consume base hasExecutor).2.gear = q.gear := by
  rcases q.consume_cases base hasExecutor with ⟨e, he⟩ | ⟨hi', -⟩
  · rw [he]
  · exact absurd hi' hi

theorem Spawned.gear {h : Handler} (hs : q.Spawned h q') :
    ∃ l, q'.gear = ⟨q.middleware, some h, l⟩ := by
  obtain ⟨l, -, hl⟩ := hs.limiter
  refine ⟨l, ?_⟩
  simp only [Queue.gear, hl, hs.middleware]
  rfl

end Calls

section Workers

theorem gear_receive (k : Take) : (q.receive s i k).gear = q.gear := by
  cases k with
  | empty => exact gear_setPhase _ _
  | exhausted id n => exact gear_setPhase _ _
  | taken row =>
    simp only [receive]
    split
    · exact gear_setPhase _ _
    · exact gear_setPhase _ _

theorem gear_takeAt : (q.takeAt s i t).gear = q.gear := by
  unfold takeAt
  simp only
  split
  · exact gear_setPhase _ _
  · split
    · exact gear_setPhase _ _
    · unfold takeFromStore
      simp only
      rw [gear_receive]
      split
      · rfl
      · rfl

theorem gear_take : (q.take s i).gear = q.gear := by
  unfold take
  split
  · exact gear_setPhase _ _
  · exact gear_takeAt

theorem gear_endHandler (ns : List Notice) :
    (q.endHandler i m o ns).gear = q.gear := by
  unfold endHandler
  simp only
  split <;> exact (gear_setPhase _ _).trans (gear_foldl_notify id ns)

theorem gear_proceed : (q.proceed i d).gear = q.gear := by
  unfold proceed
  cases d.activity with
  | finish e => exact gear_endHandler _
  | hang => rfl
  | pause p rest =>
    simp only
    split
    · exact gear_setPhase _ _
    · exact gear_setPhase _ _
  | report r rest => exact gear_setPhase _ _
  | notify n rest => exact gear_setPhase _ _
  | redeliverAfter id delay next =>
    simp only
    split
    · exact gear_setPhase _ _
    · next h => exact (gear_setPhase _ _).trans (gear_redeliverAfter h)
  | redeliverAt id t next => exact (gear_setPhase _ _).trans (gear_redeliverAt id)
  | produce draft next =>
    simp only
    split
    · exact gear_setPhase _ _
    · next h => exact (gear_setPhase _ _).trans (gear_produce h)
  | store op next => exact gear_setPhase _ _

theorem gear_handle : (q.handle i d).gear = q.gear := by
  unfold handle
  split
  · exact gear_proceed
  · exact gear_endHandler _

theorem gear_commit (id : String) : (q.commit i id).gear = q.gear := by
  unfold commit
  simp only
  split
  · rfl
  · rfl

theorem gear_settle : (q.settle i m latency o).gear = q.gear := by
  have hobserved (q' : Queue) :
      (if q'.observed then q'.note (.observed latency m.deliveries o) else q').gear =
        q'.gear := by
    split
    · rfl
    · rfl
  unfold settle
  simp only [gear_setPhase, hobserved]
  cases o with
  | success => exact gear_commit m.id
  | failed f => rfl

end Workers

section Tasks

variable (hl : s.gear q.middleware = q.gear)

include hl

theorem gear_endPass : (q.endPass s total).gear = q.gear := by
  unfold endPass
  simp only
  split
  · exact hl
  · exact hl

theorem gear_promote : (q.promote s total).gear = q.gear := by
  unfold promote
  split
  · exact hl
  · unfold promoteAt
    simp only
    split
    · refine (gear_endPass ?_).trans ?_
      · exact hl
      · rfl
    · split
      · refine (gear_endPass ?_).trans ?_
        · exact hl
        · rfl
      · exact hl

theorem gear_stepDaemon : (q.stepDaemon s).gear = q.gear := by
  unfold stepDaemon
  split
  · exact hl
  · split
    · exact hl
    · split
      · exact hl
      · exact hl
  · exact gear_promote hl
  · rfl
  · rfl

theorem gear_publishEnd : (q.publishEnd s).gear = q.gear := by
  have hm := congrArg Gear.middleware
    (gear_foldl_notify (q := q) (fun task => .taskBroken task) (brokenTasks s))
  rw [← hl]
  exact congrArg s.gear hm

end Tasks

theorem gear_eq (hs : q.session = some s) : s.gear q.middleware = q.gear := by
  simp only [gear, hs, Option.map_some, Option.bind_some, Session.gear]

theorem gear_stepWorker (hl : s.gear q.middleware = q.gear) (hp : ¬ w.phase.Waits) :
    (q.stepWorker s i w).gear = q.gear := by
  unfold stepWorker
  cases hph : w.phase with
  | fresh => exact hl
  | looping again => exact absurd (hph ▸ .looping again) hp
  | ticking => exact absurd (hph ▸ .ticking) hp
  | throttled due => exact absurd (hph ▸ .throttled due) hp
  | handling d => exact gear_handle
  | settling m latency o => exact gear_settle
  | stopped | broken => rfl

section Tokens

theorem gear_acquire (hl : s.gear q.middleware = q.gear) :
    ∃ l, (q.acquire s i).gear = { q.gear with limiter := l } := by
  unfold acquire
  split
  · exact ⟨_, gear_take⟩
  · split
    · exact ⟨_, gear_setPhase _ _⟩
    · next wait l _ =>
      have hset : (q.setSession { s with limiter := some l }).gear =
          { q.gear with limiter := some l } := by rw [← hl]; rfl
      simp only
      split
      · exact ⟨_, gear_take.trans hset⟩
      · exact ⟨_, (gear_setPhase _ _).trans hset⟩

theorem gear_tickWorker (hl : s.gear q.middleware = q.gear) :
    ∃ l, (q.tickWorker s i w).gear = { q.gear with limiter := l } := by
  unfold tickWorker
  split
  · exact ⟨_, gear_setPhase _ _⟩
  · have hset {ticker : Ticker} : (q.setSession
        { s with workers := s.workers.set i { w with ticker } }).gear = q.gear := hl
    obtain ⟨l, ha⟩ := gear_acquire (i := i) (q := q.setSession _) (s := _) rfl
    exact ⟨l, ha.trans (by rw [hset])⟩

/-- All that a worker does to what it shares with the others is to take a token. -/
theorem gear_step_worker (i : Nat) :
    ∃ l, (q.step (.worker i)).gear = { q.gear with limiter := l } := by
  simp only [step, advance]
  split
  · split
    · next s w hs hw =>
      have hl := gear_eq hs
      by_cases hp : w.phase.Waits
      · have hset (p : Worker.Phase) : ∃ l, (q.setPhase i p).gear = { q.gear with limiter := l } :=
          ⟨_, gear_setPhase _ _⟩
        unfold stepWorker
        generalize w.phase = p at hp ⊢
        cases hp with
        | looping again =>
          simp only
          split
          · exact hset _
          · split
            · exact gear_acquire hl
            · exact hset _
        | ticking =>
          simp only
          split
          · exact hset _
          · exact gear_tickWorker hl
        | throttled due =>
          simp only
          split
          · exact hset _
          · exact ⟨_, gear_take⟩
      · exact ⟨_, gear_stepWorker hl hp⟩
    · exact ⟨_, rfl⟩
  · exact ⟨_, rfl⟩

end Tokens

theorem gear_move {m : Move} (hw : ∀ i, m ≠ .step (.worker i)) (hu : ∀ v, m ≠ .use v)
    (hc : ∀ base hasExecutor, m ≠ .consume base hasExecutor) : (q.move m).gear = q.gear := by
  cases m with
  | produce d => exact gear_afterCall fun _ _ he => gear_produce he
  | redeliverAt id t => exact gear_redeliverAt id
  | redeliverAfter id delay => exact gear_afterCall fun _ _ he => gear_redeliverAfter he
  | use v => exact absurd rfl (hu v)
  | consume base hasExecutor => exact absurd rfl (hc base hasExecutor)
  | close d => exact gear_beginClose d
  | elapse d => rfl
  | step t =>
    simp only [move, step]
    split
    · cases t with
      | worker i => exact absurd rfl (hw i)
      | daemon | supervisor =>
        simp only [advance]
        split
        · next s hs =>
          first
          | exact gear_stepDaemon (gear_eq hs)
          | exact gear_publishEnd (gear_eq hs)
        · rfl
      | closer j =>
        simp only [advance]
        split
        · exact gear_finishClose j _
        · rfl
    · rfl

end Queue

end DelayedQueue
