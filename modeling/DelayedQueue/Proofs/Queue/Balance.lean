import DelayedQueue.Proofs.Handler.Mannered
import DelayedQueue.Proofs.Message.Id
import DelayedQueue.Proofs.Store.Ledger
import DelayedQueue.Queue.Tasks

/-! # The balance of a queue

What a queue's journal says of handlers and what its store says of messages agree after every
step of every task: each delivery that a row counts has been handed to a handler, and what a
worker is about to commit has succeeded.
-/

namespace DelayedQueue

namespace Entry

/-- Whether this is the invocation of a handler for message `x`. -/
def invokes (x : String) : Entry → Bool
  | .invoked _ m => m.id == x
  | _ => false

end Entry

section Journal

variable {j : List (Instant × Entry)} {e : Instant × Entry} {x : String}

/-- How often a handler has been invoked for message `x`. -/
def invocations (j : List (Instant × Entry)) (x : String) : Nat := j.countP fun e => e.2.invokes x

/-- A handler has returned for message `x` without an error. -/
def HasSucceeded (j : List (Instant × Entry)) (x : String) : Prop :=
  ∃ e ∈ j, ∃ i m, e.2 = .ended i m .success ∧ m.id = x

theorem invocations_cons : invocations (e :: j) x =
    if e.2.invokes x then invocations j x + 1 else invocations j x := by
  simp only [invocations, List.countP_cons]
  split <;> rfl

theorem HasSucceeded.cons (h : HasSucceeded j x) : HasSucceeded (e :: j) x := by
  obtain ⟨e', he, h⟩ := h
  exact ⟨e', List.mem_cons_of_mem _ he, h⟩

end Journal

/-- What a worker in this phase relies on. -/
def Worker.Phase.Sound (j : List (Instant × Entry)) : Worker.Phase → Prop
  | .handling d => d.activity.Mannered
  | .settling m _ .success => HasSucceeded j m.id
  | _ => True

structure Session.Sound (j : List (Instant × Entry)) (s : Session) : Prop where
  handler : Handler.Mannered s.handler
  workers : ∀ w ∈ s.workers, w.phase.Sound j

namespace Session.Sound

variable {j : List (Instant × Entry)} {e : Instant × Entry} {s : Session}

theorem cons (h : s.Sound j) : s.Sound (e :: j) where
  handler := h.handler
  workers w hw := by
    have hp := h.workers w hw
    cases hph : w.phase with
    | handling d => rw [hph] at hp; exact hp
    | settling m l o =>
      rw [hph] at hp
      cases o with
      | success => exact HasSucceeded.cons hp
      | failed => trivial
    | _ => trivial

theorem setPhase {p : Worker.Phase} (h : s.Sound j) (hp : p.Sound j) (i : Nat) :
    (s.setPhase i p).Sound j where
  handler := h.handler
  workers w hw := by
    obtain ⟨n, hn⟩ := List.mem_iff_getElem?.mp hw
    simp only [Session.setPhase, List.getElem?_modify] at hn
    split at hn
    · obtain ⟨w', -, rfl⟩ := Option.map_eq_some_iff.mp hn
      exact hp
    · exact h.workers w (List.mem_of_getElem? (by simpa using hn))

theorem setWorker {w : Worker} (h : s.Sound j) (hw : w.phase.Sound j) (i : Nat) :
    ({ s with workers := s.workers.set i w } : Session).Sound j where
  handler := h.handler
  workers v hv := (List.mem_or_eq_of_mem_set hv).elim (h.workers v) fun he => he ▸ hw

end Session.Sound

namespace Queue

variable {c : Config} {ids : MessageId.Source} {q : Queue}

/-- The ids of the first `serial` messages of a source. -/
def Issued (ids : MessageId.Source) (serial : Nat) (x : String) : Prop := ∃ n < serial, x = ids.id n

/-- The journal and the store of a queue agree, and all that is under way keeps it so. -/
structure Balanced (c : Config) (ids : MessageId.Source) (q : Queue) : Prop where
  config : q.config = c
  source : q.ids = ids
  ledger : (q.store.space (.ofName c.name)).Ledger (Issued ids q.serial) (invocations q.journal)
    (HasSucceeded q.journal) c.maxDeliveries.toNat
  middleware : ∀ w ∈ q.middleware, Middleware.Mannered w
  session : ∀ s, q.session = some s → s.Sound q.journal

theorem not_issued (serial : Nat) : ¬ Issued ids serial (ids.id serial) := by
  rintro ⟨n, hn, he⟩
  exact Nat.ne_of_gt hn (ids.id_injective he)

theorem issued_succ (serial : Nat) : Issued ids (serial + 1) =
    fun x => Issued ids serial x ∨ x = ids.id serial := by
  funext x
  refine propext ⟨?_, ?_⟩
  · rintro ⟨n, hn, rfl⟩
    rcases Nat.lt_succ_iff_lt_or_eq.mp hn with hn | rfl
    · exact .inl ⟨n, hn, rfl⟩
    · exact .inr rfl
  · rintro (⟨n, hn, rfl⟩ | rfl)
    · exact ⟨n, Nat.lt_succ_of_lt hn, rfl⟩
    · exact ⟨serial, Nat.lt_succ_self _, rfl⟩

namespace Balanced

section Parts

variable {e : Entry} {s : Session} {p : Worker.Phase}

theorem keys (h : q.Balanced c ids) : q.keys = .ofName c.name := by rw [Queue.keys, h.config]

theorem note (h : q.Balanced c ids) (he : ∀ x, e.invokes x = false) :
    (q.note e).Balanced c ids where
  config := h.config
  source := h.source
  ledger := by
    have hi : invocations (q.note e).journal = invocations q.journal := by
      funext x
      exact invocations_cons.trans (by rw [he x]; rfl)
    rw [hi]
    exact h.ledger.mono fun _ hx => hx.cons
  middleware := h.middleware
  session s hs := (h.session s hs).cons

theorem notify (h : q.Balanced c ids) (n : Notice) : (q.notify n).Balanced c ids :=
  h.note fun _ => rfl

theorem strike (h : q.Balanced c ids) (k : StoreCall) : (q.strike k).2.Balanced c ids :=
  ⟨h.config, h.source, h.ledger, h.middleware, h.session⟩

theorem setSession (h : q.Balanced c ids) (hs : s.Sound q.journal) :
    (q.setSession s).Balanced c ids :=
  ⟨h.config, h.source, h.ledger, h.middleware, fun _ he => Option.some.inj he ▸ hs⟩

theorem setPhase (h : q.Balanced c ids) (hp : p.Sound q.journal) (i : Nat) :
    (q.setPhase i p).Balanced c ids := by
  refine ⟨h.config, h.source, h.ledger, h.middleware, fun s hs => ?_⟩
  obtain ⟨s', hs', rfl⟩ := Option.map_eq_some_iff.mp hs
  exact (h.session s' hs').setPhase hp i

theorem breakWorker (h : q.Balanced c ids) (i : Nat) : (q.breakWorker i).Balanced c ids :=
  h.setPhase (p := .broken) trivial i

theorem stopWorker (h : q.Balanced c ids) (i : Nat) : (q.stopWorker i).Balanced c ids :=
  (h.notify _).setPhase (p := .stopped) trivial i

theorem apply (h : q.Balanced c ids) {op : StoreOp}
    (ha : Space.Admits (HasSucceeded q.journal) c.maxDeliveries.toNat op)
    (hn : ∀ retry cap now, op ≠ .take retry cap now) :
    ({ q with store := (q.store.apply q.keys op).2 } : Queue).Balanced c ids where
  config := h.config
  source := h.source
  ledger := by
    rw [h.keys]
    simp only [Store.space_apply]
    exact h.ledger.apply_of_none ha (Space.handedOut?_eq_none hn)
  middleware := h.middleware
  session := h.session

theorem applyTiming (h : q.Balanced c ids) (op : StoreOp) (ho : op.isTiming = true) :
    ({ q with store := (q.store.apply q.keys op).2 } : Queue).Balanced c ids :=
  h.apply (.timing ho) (by rintro _ _ _ rfl; cases ho)

theorem applyCommit (h : q.Balanced c ids) {x : String} (hx : HasSucceeded q.journal x) :
    ({ q with store := (q.store.apply q.keys (.commit x)).2 } : Queue).Balanced c ids :=
  h.apply (.commit hx) fun _ _ _ he => nomatch he

end Parts

section Calls

variable {d : Draft} {id : String} {t : Time} {delay : Duration} {q' : Queue}

theorem store (h : q.Balanced c ids) {m : Message} (hm : m.id = ids.id q.serial)
    (h0 : m.deliveries = 0) (now : Time) :
    ({ q with store := q.store.produce q.keys m now, serial := q.serial + 1 } : Queue).Balanced
      c ids where
  config := h.config
  source := h.source
  ledger := by
    have hl := h.ledger.produce (by rw [hm]; exact not_issued _) h0 now
    simp only [hm] at hl
    simp only [h.keys, Store.produce, Store.space_setSpace, issued_succ]
    exact hl
  middleware := h.middleware
  session := h.session

theorem produceAt (h : q.Balanced c ids) (now : Time) : (q.produceAt d now).2.Balanced c ids := by
  unfold Queue.produceAt
  have hs := h.strike .produce
  simp only
  split
  · exact hs
  · refine (hs.store ?_ rfl now).notify _
    rw [h.source]; rfl

theorem produce {r : Except QueueError String} (h : q.Balanced c ids)
    (he : q.produce d = .ok (r, q')) : q'.Balanced c ids := by
  obtain ⟨now, -, hp⟩ := Row.map_eq_ok_iff.mp he
  have hq := h.produceAt (d := d) now
  rwa [hp] at hq

theorem redeliverAt (h : q.Balanced c ids) (id : String) (t : Time) :
    (q.redeliverAt id t).2.Balanced c ids := by
  unfold Queue.redeliverAt
  have hs := h.strike .reschedule
  simp only
  split
  · exact hs
  · exact (hs.applyTiming (.reschedule id t) rfl).notify _

theorem redeliverAfter {r : Except QueueError Bool} (h : q.Balanced c ids)
    (he : q.redeliverAfter id delay = .ok (r, q')) : q'.Balanced c ids := by
  unfold Queue.redeliverAfter at he
  split at he
  · cases he; exact h
  · obtain ⟨now, -, hr⟩ := Row.map_eq_ok_iff.mp he
    split at hr
    · cases hr; exact h
    · next t _ =>
      have hq := h.redeliverAt id t
      rwa [hr] at hq

theorem afterCall {α : Type} {r : Except Panic (α × Queue)} (h : q.Balanced c ids)
    (hr : ∀ a q', r = .ok (a, q') → q'.Balanced c ids) : (q.afterCall r).Balanced c ids := by
  match r with
  | .ok (a, q') => exact hr a q' rfl
  | .error _ => exact h

theorem use (h : q.Balanced c ids) {w : Middleware} (hw : Middleware.Mannered w) :
    (q.use w).2.Balanced c ids := by
  unfold Queue.use
  split
  · refine ⟨h.config, h.source, h.ledger, fun v hv => ?_, h.session⟩
    rcases List.mem_append.mp hv with hv | hv
    · exact h.middleware v hv
    · obtain rfl := List.mem_singleton.mp hv; exact hw
  · exact h

theorem spawn (h : q.Balanced c ids) {f : Handler} (hf : Handler.Mannered f) :
    (q.spawn f).2.Balanced c ids := by
  unfold Queue.spawn
  split
  · exact h
  · simp only
    split
    · exact h.notify _
    · refine notify ?_ _
      refine ⟨h.config, h.source, (h.notify _).ledger, h.middleware, fun s hs => ?_⟩
      cases hs
      refine ⟨hf, fun w hw => ?_⟩
      obtain rfl := List.eq_of_mem_replicate hw
      trivial

theorem consume (h : q.Balanced c ids) {base : Handler} (hb : Handler.Mannered base)
    (hasExecutor : Bool) : (q.consume base hasExecutor).2.Balanced c ids := by
  unfold Queue.consume
  split
  · exact h
  · split
    · exact h
    · exact h.spawn (Handler.mannered_compose hb h.middleware)

theorem addCloser (h : q.Balanced c ids) (cl : Closer) : (q.addCloser cl).Balanced c ids :=
  ⟨h.config, h.source, h.ledger, h.middleware, h.session⟩

theorem setLifecycle (h : q.Balanced c ids) (l : Lifecycle) :
    ({ q with lifecycle := l } : Queue).Balanced c ids :=
  ⟨h.config, h.source, h.ledger, h.middleware, h.session⟩

theorem awaitTasks (h : q.Balanced c ids) (deadline : Duration) :
    (q.awaitTasks deadline).Balanced c ids := by
  unfold Queue.awaitTasks
  split
  · exact h.addCloser _
  · exact (h.setLifecycle _).addCloser _

theorem requestShutdown (h : q.Balanced c ids) : q.requestShutdown.Balanced c ids := by
  unfold Queue.requestShutdown
  refine notify ?_ _
  refine ⟨h.config, h.source, h.ledger, h.middleware, fun s hs => ?_⟩
  obtain ⟨s', hs', rfl⟩ := Option.map_eq_some_iff.mp hs
  exact ⟨(h.session s' hs').handler, (h.session s' hs').workers⟩

theorem beginClose (h : q.Balanced c ids) (deadline : Duration) :
    (q.beginClose deadline).Balanced c ids := by
  unfold Queue.beginClose
  split
  · exact (h.setLifecycle _).addCloser _
  · exact h.addCloser _
  · exact h.requestShutdown.awaitTasks deadline
  · exact h.awaitTasks deadline

theorem finishClose (h : q.Balanced c ids) (j : Nat) (deadline : Duration) :
    (q.finishClose j deadline).Balanced c ids := by
  unfold Queue.finishClose
  split <;>
  · refine notify ?_ _
    exact ⟨h.config, h.source, h.ledger, h.middleware, h.session⟩

end Calls

section Workers

variable {s : Session} {i : Nat} {m : Message} {o : Outcome} {now : Time} {d : Delivery}
  {w : Worker}

theorem invoke (h : q.Balanced c ids) (hs : s.Sound q.journal) {store : Store}
    (hl : (store.space (.ofName c.name)).Ledger (Issued ids q.serial)
      (fun x => if m.id = x then invocations q.journal x + 1 else invocations q.journal x)
      (HasSucceeded q.journal) c.maxDeliveries.toNat) :
    (Queue.invoke { q with store } s i m).Balanced c ids := by
  have hn : (Queue.note { q with store } (.invoked i m)).Balanced c ids := by
    refine ⟨h.config, h.source, ?_, h.middleware, fun s' hs' => (h.session s' hs').cons⟩
    have hi : invocations ((q.now, Entry.invoked i m) :: q.journal) =
        fun x => if m.id = x then invocations q.journal x + 1 else invocations q.journal x := by
      funext x
      simp [invocations_cons, Entry.invokes]
    change ((store.space _).Ledger _ (invocations ((q.now, Entry.invoked i m) :: q.journal)) _ _)
    rw [hi]
    exact hl.mono fun _ hx => hx.cons
  refine hn.setPhase (p := .handling ⟨m, s.handler m, _, _⟩) ?_ i
  exact hs.handler m

theorem receive (h : q.Balanced c ids) {t : Take} (ht : ∀ row, t ≠ .taken row) :
    (q.receive s i t).Balanced c ids := by
  cases t with
  | empty => exact h.setPhase (p := .looping false) trivial i
  | exhausted id n => exact (h.notify _).setPhase (p := .looping true) trivial i
  | taken row => exact absurd rfl (ht row)

theorem receiveTake (h : q.Balanced c ids) (hs : s.Sound q.journal) {r : Take × Store}
    (hr : q.store.takeOne q.keys q.config.retryInterval q.config.maxDeliveries now = r) :
    (Queue.receive { q with store := r.2 } s i r.1).Balanced c ids := by
  obtain ⟨t, store⟩ := r
  have hfst := Store.apply_fst (s := q.store) (k := q.keys)
    (.take q.config.retryInterval q.config.maxDeliveries now)
  have hspace := Store.space_apply (s := q.store) (k := q.keys)
    (.take q.config.retryInterval q.config.maxDeliveries now)
  simp only [Store.apply, Space.apply, StoreResult.took.injEq, hr] at hfst hspace
  have hl := h.ledger.take (congrArg (fun c => c.maxDeliveries.toNat) h.config)
    q.config.retryInterval now
  rw [← h.keys, ← hfst, ← hspace, h.keys] at hl
  rcases hl with ⟨row, m, rfl, hm, hl⟩ | ⟨ht, hl⟩
  · simp only [Queue.receive, hm]
    exact h.invoke hs hl
  · have hb : ({ q with store } : Queue).Balanced c ids :=
      ⟨h.config, h.source, hl, h.middleware, h.session⟩
    exact hb.receive ht

theorem takeFromStore (h : q.Balanced c ids) (hs : s.Sound q.journal) :
    (q.takeFromStore s i now).Balanced c ids := by
  unfold Queue.takeFromStore
  simp only
  refine receiveTake ?_ ?_ rfl <;> split
  · exact h.notify _
  · exact h
  · exact hs.cons
  · exact hs

theorem takeAt (h : q.Balanced c ids) (hs : s.Sound q.journal) :
    (q.takeAt s i now).Balanced c ids := by
  unfold Queue.takeAt
  have h₁ := (h.note (e := .attempted i) fun _ => rfl).strike .take
  simp only
  split
  · exact (h₁.notify _).setPhase (p := .looping false) trivial i
  · have h₂ := h₁.strike .takePanic
    split
    · exact h₂.breakWorker i
    · exact h₂.takeFromStore hs.cons

theorem take (h : q.Balanced c ids) (hs : s.Sound q.journal) : (q.take s i).Balanced c ids := by
  unfold Queue.take
  split
  · exact h.breakWorker i
  · exact h.takeAt hs

theorem acquire (h : q.Balanced c ids) (hs : s.Sound q.journal) :
    (q.acquire s i).Balanced c ids := by
  unfold Queue.acquire
  split
  · exact h.take hs
  · split
    · exact h.breakWorker i
    · next wait l _ =>
      have hs' : ({ s with limiter := some l } : Session).Sound q.journal :=
        ⟨hs.handler, hs.workers⟩
      have h' := h.setSession hs'
      simp only
      split
      · exact h'.take hs'
      · exact h'.setPhase (p := .throttled _) trivial i

theorem startWorker (h : q.Balanced c ids) (hs : s.Sound q.journal) :
    (q.startWorker s i).Balanced c ids :=
  (h.notify _).setSession
    (hs.cons.setWorker (w := ⟨.looping false, .start q.config.pollInterval q.now⟩) trivial i)

theorem tickWorker (h : q.Balanced c ids) (hs : s.Sound q.journal) (hw : w.phase.Sound q.journal) :
    (q.tickWorker s i w).Balanced c ids := by
  unfold Queue.tickWorker
  split
  · exact h.breakWorker i
  · next ticker _ =>
    have hs' := hs.setWorker (w := { w with ticker }) hw i
    exact (h.setSession hs').acquire hs'

theorem foldl_notify {α : Type} (f : α → Notice) (l : List α) (h : q.Balanced c ids) :
    (l.foldl (fun q a => q.notify (f a)) q).Balanced c ids ∧ ∀ s : Session, s.Sound q.journal →
      s.Sound (l.foldl (fun q a => q.notify (f a)) q).journal := by
  induction l generalizing q with
  | nil => exact ⟨h, fun _ hs => hs⟩
  | cons a l ih => exact (ih (h.notify (f a))).imp_right fun hs s h => hs s h.cons

/-- A handler that is done with success is noted before its outcome is dealt with. -/
theorem endHandler (h : q.Balanced c ids) (ns : List Notice) :
    (q.endHandler i m o ns).Balanced c ids := by
  unfold Queue.endHandler
  have hn := (foldl_notify id ns h).1.note (e := .ended i m o) fun _ => rfl
  simp only
  split
  · exact hn.breakWorker i
  · refine hn.setPhase ?_ i
    cases o with
    | success => exact ⟨_, List.mem_cons_self, i, m, rfl, rfl⟩
    | failed => trivial

theorem goOn (h : q.Balanced c ids) {a : Activity} (ha : a.Mannered) :
    (q.setPhase i (.handling { d with activity := a })).Balanced c ids :=
  h.setPhase (p := .handling { d with activity := a }) ha i

theorem proceed (h : q.Balanced c ids) (hd : d.activity.Mannered) :
    (q.proceed i d).Balanced c ids := by
  unfold Queue.proceed
  cases ha : d.activity with
  | finish e => exact h.endHandler _
  | hang => exact h
  | pause p rest =>
    rw [ha] at hd
    simp only
    split
    · exact h.goOn hd
    · exact h.setPhase
        (p := .handling { d with activity := rest, wake := q.now.afterSleep p }) hd i
  | report r rest => rw [ha] at hd; exact (h.note fun _ => rfl).goOn hd
  | notify n rest => rw [ha] at hd; exact (h.notify n).goOn hd
  | redeliverAfter id delay next =>
    rw [ha] at hd
    simp only
    split
    · exact h.goOn trivial
    · next r q' he => exact (h.redeliverAfter he).goOn (hd r)
  | redeliverAt id t next => rw [ha] at hd; exact (h.redeliverAt id t).goOn (hd _)
  | produce draft next =>
    rw [ha] at hd
    simp only
    split
    · exact h.goOn trivial
    · next r q' he => exact (h.produce he).goOn (hd r)
  | store op next => rw [ha] at hd; exact (h.applyTiming op hd.1).goOn (hd.2 _)

theorem handle (h : q.Balanced c ids) (hd : d.activity.Mannered) :
    (q.handle i d).Balanced c ids := by
  unfold Queue.handle
  split
  · exact h.proceed hd
  · exact h.endHandler _

theorem commit (h : q.Balanced c ids) {x : String} (hx : HasSucceeded q.journal x) :
    (q.commit i x).Balanced c ids := by
  unfold Queue.commit
  have hs := h.strike .commit
  simp only
  split
  · exact hs.notify _
  · exact (hs.applyCommit hx).note fun _ => rfl

theorem observe (h : q.Balanced c ids) {latency : Duration} {n : UInt64} :
    (if q.observed then q.note (.observed latency n o) else q).Balanced c ids := by
  split
  · exact h.note fun _ => rfl
  · exact h

theorem settle (h : q.Balanced c ids) {latency : Duration}
    (hp : (Worker.Phase.settling m latency o).Sound q.journal) :
    (q.settle i m latency o).Balanced c ids := by
  unfold Queue.settle
  refine setPhase (p := .looping true) (observe ?_) trivial i
  cases o with
  | success => exact h.commit hp
  | failed f => exact h.notify _

theorem stepWorker (h : q.Balanced c ids) (hs : s.Sound q.journal) (hw : w.phase.Sound q.journal) :
    (q.stepWorker s i w).Balanced c ids := by
  unfold Queue.stepWorker
  split
  · exact h.startWorker hs
  · split
    · exact h.stopWorker i
    · split
      · exact h.acquire hs
      · exact h.setPhase (p := .ticking) trivial i
  · split
    · exact h.stopWorker i
    · exact h.tickWorker hs hw
  · split
    · exact h.stopWorker i
    · exact h.take hs
  · next he => rw [he] at hw; exact h.handle hw
  · next he => rw [he] at hw; exact h.settle hw
  · exact h
  · exact h

end Workers

section Daemon

variable {s : Session} {total : Nat} {d : Daemon}

theorem setDaemon (h : q.Balanced c ids) (hs : s.Sound q.journal) :
    (q.setDaemon s d).Balanced c ids :=
  h.setSession ⟨hs.handler, hs.workers⟩

theorem endPass (h : q.Balanced c ids) (hs : s.Sound q.journal) :
    (q.endPass s total).Balanced c ids := by
  unfold Queue.endPass
  simp only
  split
  · exact h.setDaemon hs
  · exact (h.notify _).setDaemon hs.cons

theorem promoteAt (h : q.Balanced c ids) (hs : s.Sound q.journal) {now : Time} :
    (q.promoteAt s total now).Balanced c ids := by
  unfold Queue.promoteAt
  have hst := h.strike .promote
  simp only
  split
  · exact (hst.notify _).endPass hs.cons
  · have hp := hst.applyTiming
      (.promote now (q.strike .promote).2.config.promoteBatchSize.toNat) rfl
    split
    · exact hp.endPass hs
    · exact hp.setDaemon hs

theorem promote (h : q.Balanced c ids) (hs : s.Sound q.journal) :
    (q.promote s total).Balanced c ids := by
  unfold Queue.promote
  split
  · exact h.setDaemon hs
  · exact h.promoteAt hs

theorem stepDaemon (h : q.Balanced c ids) (hs : s.Sound q.journal) :
    (q.stepDaemon s).Balanced c ids := by
  unfold Queue.stepDaemon
  split
  · exact (h.notify _).setDaemon hs.cons
  · split
    · exact (h.notify _).setDaemon hs.cons
    · split
      · exact h.setDaemon hs
      · exact h.setDaemon hs
  · exact h.promote hs
  · exact h
  · exact h

end Daemon

section Moves

theorem publishEnd (h : q.Balanced c ids) {s : Session} (hs : s.Sound q.journal) :
    (q.publishEnd s).Balanced c ids := by
  obtain ⟨hb, hsound⟩ := foldl_notify Notice.taskBroken (brokenTasks s) h
  have hs' := hsound s hs
  exact (hb.notify _).setSession ⟨hs'.handler, hs'.cons.workers⟩

theorem advance (h : q.Balanced c ids) (t : Task) : (q.advance t).Balanced c ids := by
  cases t with
  | daemon =>
    simp only [Queue.advance]
    split
    · next s hs => exact h.stepDaemon (h.session s hs)
    · exact h
  | worker i =>
    simp only [Queue.advance]
    split
    · next s w hs hw =>
      have hsound := h.session s hs
      simp only [Queue.worker?, hs] at hw
      exact h.stepWorker hsound (hsound.workers w (List.mem_of_getElem? hw))
    · exact h
  | supervisor =>
    simp only [Queue.advance]
    split
    · next s hs => exact h.publishEnd (h.session s hs)
    · exact h
  | closer j =>
    simp only [Queue.advance]
    split
    · exact h.finishClose _ _
    · exact h

theorem step (h : q.Balanced c ids) (t : Task) : (q.step t).Balanced c ids := by
  unfold Queue.step
  split
  · exact h.advance t
  · exact h

end Moves

end Balanced

end Queue

end DelayedQueue
