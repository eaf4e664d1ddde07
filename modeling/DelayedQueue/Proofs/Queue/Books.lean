import Mathlib.Logic.Relation
import DelayedQueue.Proofs.Queue.Balance

/-! # The books of a queue

What a queue's journal and its space have to do with each other. `Books.Step` lists the ways in
which the two can change, and `Queue.move_follows` has every move as a course of such steps.
Others may use the store too: an event is a move of the queue or an operation from outside.
-/

namespace DelayedQueue

/-- Whether this tells of a message that came into a handler's hands or was committed. -/
def Entry.isPassage : Entry → Bool
  | .invoked .. | .committed .. => true
  | _ => false

theorem Entry.invokes_of_isPassage {e : Entry} (he : e.isPassage = false) (x : String) :
    e.invokes x = false := by
  cases e with
  | invoked | committed => cases he
  | _ => rfl

/-- What has happened, what is stored, and how many messages have been produced. -/
structure Books where
  journal : List (Instant × Entry)
  space : Space
  serial : Nat

namespace Books

variable (c : Config) (ids : MessageId.Source) (direct : StoreOp → Prop)

/-- The steps of a queue, if only such operations as in `direct` go to the store past it. -/
inductive Step : Books → Books → Prop where

  | noted {b : Books} (t : Instant) {e : Entry} (he : e.isPassage = false) :
      Step b { b with journal := (t, e) :: b.journal }

  | produced {b : Books} {m : Message} (now : Time) (hm : m.id = ids.id b.serial)
      (h0 : m.deliveries = 0) :
      Step b { b with space := b.space.produce m now, serial := b.serial + 1 }

  | timed {b : Books} {op : StoreOp} (ho : op.isTiming = true) :
      Step b { b with space := (b.space.apply op).2 }

  | direct {b : Books} {op : StoreOp} (ho : direct op) :
      Step b { b with space := (b.space.apply op).2 }

  | took {b : Books} {now : Time} (h : ∀ row m, Row.decode row = .ok m →
        (b.space.takeOne c.retryInterval c.maxDeliveries now).1 ≠ .taken row) :
      Step b { b with space := (b.space.takeOne c.retryInterval c.maxDeliveries now).2 }

  | handed {b : Books} {now : Time} (t : Instant) (i : Nat) {row : Bytes} {m : Message}
      (h : (b.space.takeOne c.retryInterval c.maxDeliveries now).1 = .taken row)
      (hm : Row.decode row = .ok m) :
      Step b { b with
        journal := (t, .invoked i m) :: b.journal
        space := (b.space.takeOne c.retryInterval c.maxDeliveries now).2 }

  | committed {b : Books} (t : Instant) (i : Nat) (x : String) :
      Step b { b with
        journal := (t, .committed i x) :: b.journal, space := (b.space.commit x).2 }

variable {c ids direct}

theorem Step.mono {direct' : StoreOp → Prop} {b b' : Books} (h : Step c ids direct b b')
    (hd : ∀ op, direct op → direct' op) : Step c ids direct' b b' := by
  cases h with
  | noted t he => exact .noted t he
  | produced now hm h0 => exact .produced now hm h0
  | timed ho => exact .timed ho
  | direct ho => exact .direct (hd _ ho)
  | took h => exact .took h
  | handed t i h hm => exact .handed t i h hm
  | committed t i x => exact .committed t i x

theorem Step.suffix {b b' : Books} (h : Step c ids direct b b') : b.journal <:+ b'.journal := by
  cases h with
  | noted | handed | committed => exact List.suffix_cons _ _
  | produced | timed | direct | took => exact List.suffix_rfl

theorem suffix_of_steps {b b' : Books} (h : Relation.ReflTransGen (Step c ids direct) b b') :
    b.journal <:+ b'.journal := by
  induction h with
  | refl => exact List.suffix_rfl
  | tail _ hs ih => exact ih.trans hs.suffix

theorem Step.indexed {b b' : Books} (h : Step c ids direct b b') (hi : b.space.Indexed) :
    b'.space.Indexed := by
  cases h with
  | noted => exact hi
  | produced now => exact hi.produce _ now
  | timed | direct => exact hi.apply _
  | took | handed => exact hi.takeOne _ _ _
  | committed t i x => exact hi.apply (.commit x)

theorem indexed_of_steps {b b' : Books} (h : Relation.ReflTransGen (Step c ids direct) b b')
    (hi : b.space.Indexed) : b'.space.Indexed := by
  induction h with
  | refl => exact hi
  | tail _ hs ih => exact hs.indexed ih

end Books

namespace Queue

def books (q : Queue) : Books := ⟨q.journal, q.space, q.serial⟩

/-- What a queue is opened with. -/
structure Setting where
  config : Config
  plan : List (StoreCall × Nat)
  begun : Clocks
  ids : MessageId.Source
  observed : Bool

def setting (q : Queue) : Setting := ⟨q.config, q.faults.plan, q.begun, q.ids, q.observed⟩

theorem keys_of_setting {q q' : Queue} (h : q'.setting = q.setting) : q'.keys = q.keys := by
  have hc : q'.config = q.config := congrArg Setting.config h
  rw [keys, keys, hc]

/-- The queue gets from one state to the other in steps of its books. -/
structure Follows (direct : StoreOp → Prop) (q q' : Queue) : Prop where
  setting : q'.setting = q.setting
  steps : Relation.ReflTransGen (Books.Step q.config q.ids direct) q.books q'.books

namespace Follows

variable {direct : StoreOp → Prop} {q₀ q q' : Queue} {s : Session} {w : Worker} {i : Nat}
  {m : Message} {d : Delivery} {o : Outcome} {now : Time} {total : Nat}

theorem config (h : q.Follows direct q') : q'.config = q.config :=
  congrArg Setting.config h.setting

theorem ids (h : q.Follows direct q') : q'.ids = q.ids := congrArg Setting.ids h.setting

theorem refl (q : Queue) : q.Follows direct q := ⟨rfl, .refl⟩

theorem trans (h : q₀.Follows direct q) (h' : q.Follows direct q') : q₀.Follows direct q' where
  setting := h'.setting.trans h.setting
  steps := by
    have hs := h'.steps
    rw [h.config, h.ids] at hs
    exact h.steps.trans hs

theorem mono {direct' : StoreOp → Prop} (h : q₀.Follows direct q)
    (hd : ∀ op, direct op → direct' op) : q₀.Follows direct' q :=
  ⟨h.setting, Relation.ReflTransGen.mono (fun _ _ hs => hs.mono hd) _ _ h.steps⟩

theorem step {b : Books} (h : q₀.Follows direct q)
    (hs : Books.Step q.config q.ids direct q.books b) (hq : q'.setting = q.setting)
    (hb : q'.books = b) : q₀.Follows direct q' :=
  h.trans ⟨hq, hb ▸ .single hs⟩

theorem still (h : q₀.Follows direct q) (hq : q'.setting = q.setting)
    (hb : q'.books = q.books) : q₀.Follows direct q' :=
  h.trans ⟨hq, hb ▸ .refl⟩

section Parts

theorem note {e : Entry} (h : q₀.Follows direct q) (he : e.isPassage = false) :
    q₀.Follows direct (q.note e) :=
  h.step (.noted q.now he) rfl rfl

theorem notify (h : q₀.Follows direct q) (n : Notice) : q₀.Follows direct (q.notify n) := h.note rfl

theorem foldl_notify {α : Type} (h : q₀.Follows direct q) (f : α → Notice) (l : List α) :
    q₀.Follows direct (l.foldl (fun q a => q.notify (f a)) q) := by
  induction l generalizing q with
  | nil => exact h
  | cons a l ih => exact ih (h.notify (f a))

theorem setSession (h : q₀.Follows direct q) (s : Session) : q₀.Follows direct (q.setSession s) :=
  h.still rfl rfl

theorem setPhase (h : q₀.Follows direct q) (i : Nat) (p : Worker.Phase) :
    q₀.Follows direct (q.setPhase i p) :=
  h.still rfl rfl

theorem strike (h : q₀.Follows direct q) (k : StoreCall) : q₀.Follows direct (q.strike k).2 :=
  h.still rfl rfl

theorem books_apply (op : StoreOp) :
    ({ q with store := (q.store.apply q.keys op).2 } : Queue).books =
      ⟨q.journal, (q.space.apply op).2, q.serial⟩ :=
  congrArg (fun sp => Books.mk q.journal sp q.serial) (Store.space_apply op)

theorem applyTiming (h : q₀.Follows direct q) (op : StoreOp) (ho : op.isTiming = true) :
    q₀.Follows direct { q with store := (q.store.apply q.keys op).2 } :=
  h.step (.timed ho) rfl (books_apply op)

theorem applyDirect (h : q₀.Follows direct q) {op : StoreOp} (ho : direct op) :
    q₀.Follows direct { q with store := (q.store.apply q.keys op).2 } :=
  h.step (.direct ho) rfl (books_apply op)

end Parts

section Calls

variable {draft : Draft} {delay : Duration}

theorem produceAt (h : q₀.Follows direct q) (draft : Draft) (now : Time) :
    q₀.Follows direct (q.produceAt draft now).2 := by
  unfold Queue.produceAt
  simp only
  split
  · exact h.strike .produce
  · refine notify ?_ _
    refine (h.strike .produce).step
      (.produced (m := draft.toMessage (q.ids.id q.serial) now) now rfl rfl) rfl ?_
    exact congrArg (fun sp => Books.mk q.journal sp (q.serial + 1)) Store.space_setSpace

theorem produce {r : Except QueueError String} (h : q₀.Follows direct q)
    (he : q.produce draft = .ok (r, q')) : q₀.Follows direct q' := by
  obtain ⟨now, -, hp⟩ := Row.map_eq_ok_iff.mp he
  have hq := h.produceAt draft now
  rwa [hp] at hq

theorem redeliverAt (h : q₀.Follows direct q) (id : String) (t : Time) :
    q₀.Follows direct (q.redeliverAt id t).2 := by
  unfold Queue.redeliverAt
  simp only
  split
  · exact h.strike .reschedule
  · exact ((h.strike .reschedule).applyTiming (.reschedule id t) rfl).notify _

theorem redeliverAfter {id : String} {r : Except QueueError Bool} (h : q₀.Follows direct q)
    (he : q.redeliverAfter id delay = .ok (r, q')) : q₀.Follows direct q' := by
  unfold Queue.redeliverAfter at he
  split at he
  · cases he; exact h
  · obtain ⟨now, -, hr⟩ := Row.map_eq_ok_iff.mp he
    split at hr
    · cases hr; exact h
    · next t _ =>
      have hq := h.redeliverAt id t
      rwa [hr] at hq

theorem afterCall {α : Type} {r : Except Panic (α × Queue)} (h : q₀.Follows direct q)
    (hr : ∀ a q', r = .ok (a, q') → q₀.Follows direct q') :
    q₀.Follows direct (q.afterCall r) := by
  match r with
  | .ok (a, q') => exact hr a q' rfl
  | .error _ => exact h

theorem use (h : q₀.Follows direct q) (v : Middleware) : q₀.Follows direct (q.use v).2 := by
  unfold Queue.use
  split
  · exact h.still rfl rfl
  · exact h

theorem spawn (h : q₀.Follows direct q) (f : Handler) : q₀.Follows direct (q.spawn f).2 := by
  unfold Queue.spawn
  split
  · exact h
  · simp only
    split
    · exact h.notify _
    · refine notify ?_ _
      exact (h.notify _).still rfl rfl

theorem consume (h : q₀.Follows direct q) (base : Handler) (hasExecutor : Bool) :
    q₀.Follows direct (q.consume base hasExecutor).2 := by
  unfold Queue.consume
  split
  · exact h
  · split
    · exact h
    · exact h.spawn _

theorem requestShutdown (h : q₀.Follows direct q) : q₀.Follows direct q.requestShutdown := by
  refine notify ?_ _
  exact h.still rfl rfl

theorem awaitTasks (h : q₀.Follows direct q) (deadline : Duration) :
    q₀.Follows direct (q.awaitTasks deadline) := by
  unfold Queue.awaitTasks
  split
  · exact h.still rfl rfl
  · exact h.still rfl rfl

theorem beginClose (h : q₀.Follows direct q) (deadline : Duration) :
    q₀.Follows direct (q.beginClose deadline) := by
  unfold Queue.beginClose
  split
  · exact h.still rfl rfl
  · exact h.still rfl rfl
  · exact h.requestShutdown.awaitTasks deadline
  · exact h.awaitTasks deadline

theorem finishClose (h : q₀.Follows direct q) (j : Nat) (deadline : Duration) :
    q₀.Follows direct (q.finishClose j deadline) := by
  unfold Queue.finishClose
  split <;>
  · refine notify ?_ _
    exact h.still rfl rfl

end Calls

section Workers

theorem receiveTake {r : Take × Store} (h : q₀.Follows direct q)
    (hr : q.store.takeOne q.keys q.config.retryInterval q.config.maxDeliveries now = r) :
    q₀.Follows direct (Queue.receive { q with store := r.2 } s i r.1) := by
  have hb : ({ q with store := r.2 } : Queue).books = ⟨q.journal,
      (q.space.takeOne q.config.retryInterval q.config.maxDeliveries now).2, q.serial⟩ := by
    rw [← hr]
    exact books_apply (.take q.config.retryInterval q.config.maxDeliveries now)
  have ht : (q.space.takeOne q.config.retryInterval q.config.maxDeliveries now).1 = r.1 := by
    rw [← hr]
    exact (Store.takeOne_fst ..).symm
  obtain ⟨k, store⟩ := r
  have took (hk : ∀ row m, Row.decode row = .ok m → k ≠ .taken row) :
      q₀.Follows direct { q with store } :=
    h.step (.took fun row m hm he => hk row m hm (ht.symm.trans he)) rfl hb
  cases k with
  | empty => exact (took fun _ _ _ => nofun).setPhase i (.looping false)
  | exhausted id n =>
    exact ((took fun _ _ _ => nofun).notify (.exhausted i id n.toNat)).setPhase i (.looping true)
  | taken row =>
    simp only [Queue.receive]
    split
    · next f hf =>
      refine ((took fun row' m hm he => ?_).notify _).setPhase _ _
      cases he
      rw [hf] at hm; cases hm
    · next m hm =>
      unfold Queue.invoke
      refine setPhase ?_ _ _
      refine h.step (.handed q.now i ht hm) rfl ?_
      exact congrArg (fun b : Books => { b with journal := (q.now, .invoked i m) :: b.journal }) hb

theorem takeFromStore (h : q₀.Follows direct q) :
    q₀.Follows direct (q.takeFromStore s i now) := by
  unfold Queue.takeFromStore
  simp only
  split
  · exact (h.notify _).receiveTake rfl
  · exact h.receiveTake rfl

theorem takeAt (h : q₀.Follows direct q) : q₀.Follows direct (q.takeAt s i now) := by
  unfold Queue.takeAt
  have h₁ := (h.note (e := .attempted i) rfl).strike .take
  simp only
  split
  · exact (h₁.notify _).setPhase _ _
  · split
    · exact (h₁.strike .takePanic).setPhase _ _
    · exact (h₁.strike .takePanic).takeFromStore

theorem take (h : q₀.Follows direct q) : q₀.Follows direct (q.take s i) := by
  unfold Queue.take
  split
  · exact h.setPhase _ _
  · exact h.takeAt

theorem acquire (h : q₀.Follows direct q) : q₀.Follows direct (q.acquire s i) := by
  unfold Queue.acquire
  split
  · exact h.take
  · split
    · exact h.setPhase _ _
    · simp only
      split
      · exact (h.setSession _).take
      · exact (h.setSession _).setPhase _ _

theorem tickWorker (h : q₀.Follows direct q) : q₀.Follows direct (q.tickWorker s i w) := by
  unfold Queue.tickWorker
  split
  · exact h.setPhase _ _
  · exact (h.setSession _).acquire

theorem endHandler (h : q₀.Follows direct q) (ns : List Notice) :
    q₀.Follows direct (q.endHandler i m o ns) := by
  unfold Queue.endHandler
  have hn := (h.foldl_notify id ns).note (e := .ended i m o) rfl
  simp only
  split
  · exact hn.setPhase _ _
  · exact hn.setPhase _ _

theorem proceed (h : q₀.Follows direct q)
    (hd : ∀ op next, d.activity = .store op next → direct op) :
    q₀.Follows direct (q.proceed i d) := by
  unfold Queue.proceed
  cases ha : d.activity with
  | finish e => exact h.endHandler _
  | hang => exact h
  | pause p rest =>
    simp only
    split
    · exact h.setPhase _ _
    · exact h.setPhase _ _
  | report r rest => exact (h.note rfl).setPhase _ _
  | notify n rest => exact (h.notify n).setPhase _ _
  | redeliverAfter id delay next =>
    simp only
    split
    · exact h.setPhase _ _
    · next he => exact (h.redeliverAfter he).setPhase _ _
  | redeliverAt id t next => exact (h.redeliverAt id t).setPhase _ _
  | produce draft next =>
    simp only
    split
    · exact h.setPhase _ _
    · next he => exact (h.produce he).setPhase _ _
  | store op next => exact (h.applyDirect (hd op next ha)).setPhase _ _

theorem handle (h : q₀.Follows direct q)
    (hd : q.canProceed d = true → ∀ op next, d.activity = .store op next → direct op) :
    q₀.Follows direct (q.handle i d) := by
  unfold Queue.handle
  split
  · next hp => exact h.proceed (hd hp)
  · exact h.endHandler _

theorem commit (h : q₀.Follows direct q) (x : String) : q₀.Follows direct (q.commit i x) := by
  unfold Queue.commit
  simp only
  split
  · exact (h.strike .commit).notify _
  · refine (h.strike .commit).step (.committed q.now i x) rfl ?_
    exact congrArg (fun sp => Books.mk ((q.now, .committed i x) :: q.journal) sp q.serial)
      (Store.space_apply (.commit x))

theorem observe (h : q₀.Follows direct q) {latency : Duration} {n : UInt64} :
    q₀.Follows direct (if q.observed then q.note (.observed latency n o) else q) := by
  split
  · exact h.note rfl
  · exact h

theorem settle (h : q₀.Follows direct q) {latency : Duration} :
    q₀.Follows direct (q.settle i m latency o) := by
  unfold Queue.settle
  refine setPhase (observe ?_) _ _
  cases o with
  | success => exact h.commit m.id
  | failed f => exact h.notify _

theorem stopWorker (h : q₀.Follows direct q) : q₀.Follows direct (q.stopWorker i) :=
  (h.notify _).setPhase _ _

theorem stepWorker (h : q₀.Follows direct q) (hd : ∀ d op next, w.phase = .handling d →
      q.canProceed d = true → d.activity = .store op next → direct op) :
    q₀.Follows direct (q.stepWorker s i w) := by
  unfold Queue.stepWorker
  split
  · exact (h.notify _).setSession _
  · split
    · exact h.stopWorker
    · split
      · exact h.acquire
      · exact h.setPhase _ _
  · split
    · exact h.stopWorker
    · exact h.tickWorker
  · split
    · exact h.stopWorker
    · exact h.take
  · next d hw => exact h.handle fun hp op next ha => hd d op next hw hp ha
  · exact h.settle
  · exact h
  · exact h

end Workers

section Daemon

theorem endPass (h : q₀.Follows direct q) : q₀.Follows direct (q.endPass s total) := by
  unfold Queue.endPass
  simp only
  split
  · exact h.setSession _
  · exact (h.notify _).setSession _

theorem promoteAt (h : q₀.Follows direct q) : q₀.Follows direct (q.promoteAt s total now) := by
  unfold Queue.promoteAt
  have hs := h.strike .promote
  simp only
  split
  · exact (hs.notify _).endPass
  · have hp := hs.applyTiming (.promote now q.config.promoteBatchSize.toNat) rfl
    split
    · exact hp.endPass
    · exact hp.setSession _

theorem promote (h : q₀.Follows direct q) : q₀.Follows direct (q.promote s total) := by
  unfold Queue.promote
  split
  · exact h.setSession _
  · exact h.promoteAt

theorem stepDaemon (h : q₀.Follows direct q) : q₀.Follows direct (q.stepDaemon s) := by
  unfold Queue.stepDaemon
  split
  · exact (h.notify _).setSession _
  · split
    · exact (h.notify _).setSession _
    · split
      · exact h.setSession _
      · exact h.setSession _
  · exact h.promote
  · exact h
  · exact h

theorem publishEnd (h : q₀.Follows direct q) : q₀.Follows direct (q.publishEnd s) :=
  ((h.foldl_notify Notice.taskBroken (brokenTasks s)).notify _).setSession _

end Daemon

end Follows

section Events

/-- What can happen to a queue whose store others use as well. -/
inductive Event where
  | move (m : Move)
  | outside (k : Keys) (op : StoreOp)

variable {q : Queue}

def meet (q : Queue) : Event → Queue
  | .move m => q.move m
  | .outside k op => { q with store := (q.store.apply k op).2 }

/-- What the next step of worker `i` does to the store past the queue, if its handler goes there
itself. -/
def storeOp? (q : Queue) (i : Nat) : Option StoreOp :=
  match (q.worker? i).map Worker.phase with
  | some (.handling d) =>
    match d.activity with
    | .store op _ => if q.canProceed d then some op else none
    | _ => none
  | _ => none

/-- What an event does to the messages of the queue past the queue. -/
def direct? (q : Queue) : Event → Option StoreOp
  | .move (.step (.worker i)) => q.storeOp? i
  | .move _ => none
  | .outside k op => if k.data = q.keys.data then some op else none

def live (q : Queue) (es : List Event) : Queue := es.foldl meet q

/-- All that is done to the messages of the queue past the queue. -/
def directs (q : Queue) : List Event → List StoreOp
  | [] => []
  | e :: es => (q.direct? e).toList ++ (q.meet e).directs es

theorem advance_follows (t : Task) :
    q.Follows (fun op => op ∈ q.direct? (.move (.step t))) (q.advance t) := by
  cases t with
  | daemon =>
    simp only [advance]
    split
    · exact (Follows.refl q).stepDaemon
    · exact .refl q
  | worker i =>
    simp only [advance]
    split
    · next s w hs hw =>
      refine (Follows.refl q).stepWorker fun d op next hd hp ha => ?_
      simp [direct?, storeOp?, hw, hd, ha, hp]
    · exact .refl q
  | supervisor =>
    simp only [advance]
    split
    · exact (Follows.refl q).publishEnd
    · exact .refl q
  | closer j =>
    simp only [advance]
    split
    · exact (Follows.refl q).finishClose _ _
    · exact .refl q

theorem move_follows (m : Move) : q.Follows (fun op => op ∈ q.direct? (.move m)) (q.move m) := by
  have h : q.Follows (fun op => op ∈ q.direct? (.move m)) q := .refl q
  cases m with
  | produce d => exact h.afterCall fun _ _ he => h.produce he
  | redeliverAt id t => exact h.redeliverAt id t
  | redeliverAfter id delay => exact h.afterCall fun _ _ he => h.redeliverAfter he
  | use w => exact h.use w
  | consume base hasExecutor => exact h.consume base hasExecutor
  | close deadline => exact h.beginClose deadline
  | step t =>
    simp only [move, step]
    split
    · exact advance_follows t
    · exact h
  | elapse d => exact h.still rfl rfl

theorem meet_follows (e : Event) : q.Follows (fun op => op ∈ q.direct? e) (q.meet e) := by
  cases e with
  | move m => exact move_follows m
  | outside k op =>
    by_cases hk : k.data = q.keys.data
    · simp only [meet, Store.apply_of_data_eq hk]
      exact (Follows.refl q).applyDirect (by simp [direct?, hk])
    · have hs : (q.meet (.outside k op)).space = q.space := Store.space_apply_of_ne hk op
      exact (Follows.refl q).still rfl
        (congrArg (fun sp => Books.mk q.journal sp q.serial) hs)

theorem live_follows {direct : StoreOp → Prop} {es : List Event}
    (h : ∀ op ∈ q.directs es, direct op) : q.Follows direct (q.live es) := by
  induction es generalizing q with
  | nil => exact .refl q
  | cons e es ih =>
    simp only [directs, List.mem_append, Option.mem_toList] at h
    exact ((meet_follows e).mono fun op ho => h op (.inl ho)).trans
      (ih fun op ho => h op (.inr ho))

theorem follows_true (es : List Event) : q.Follows (fun _ => True) (q.live es) :=
  live_follows fun _ _ => trivial

end Events

end Queue

end DelayedQueue
