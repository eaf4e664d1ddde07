import DelayedQueue.Queue.Basic

/-! # Calls on a queue

What callers and handlers can ask of a queue, each call at one instant. `consume` starts
the tasks and `beginClose` the wait for their end; both return at once here. A call that
needs the wall clock and cannot read it panics before it has done anything.
-/

namespace DelayedQueue.Queue

section Messages

/-- Stores a message under a new id. -/
def produceAt (q : Queue) (d : Draft) (now : Time) : Except QueueError String × Queue :=
  let m := d.toMessage (q.ids.id q.serial) now
  let (struck, q) := q.strike .produce
  if struck then (.error (.produceFailed Faults.reason), q)
  else
    let q := { q with store := q.store.produce q.keys m now, serial := q.serial + 1 }
    (.ok m.id, q.notify (.produced m.id m.deliverAt))

def produce (q : Queue) (d : Draft) : Except Panic (Except QueueError String × Queue) :=
  q.wall.map (q.produceAt d)

/-- Makes a message due at `t`; `false` if there is none of this id. -/
def redeliverAt (q : Queue) (id : String) (t : Time) : Except QueueError Bool × Queue :=
  let (struck, q) := q.strike .reschedule
  if struck then (.error (.rescheduleFailed id Faults.reason), q)
  else
    let (updated, store) := q.store.reschedule q.keys id t
    (.ok updated, { q with store }.notify (.redelivery id t updated))

def delayFault (id : String) (delay : Duration) : Time.AddFault → QueueError
  | .span =>
    .rescheduleFailed id "Source duration value is out of range for the target type"
  | .sum => .rescheduleFailed id ("redelivery time out of range: now + " ++ delay.isoText)

/-- Makes a message due `delay` from now. A delay that is too long changes nothing, and one
that no time can be added to is refused without a look at the clock. -/
def redeliverAfter (q : Queue) (id : String) (delay : Duration) :
    Except Panic (Except QueueError Bool × Queue) :=
  if Time.longestSpan < delay then .ok (.error (delayFault id delay .span), q)
  else q.wall.map fun now =>
    match now.addSpan delay with
    | .error f => (.error (delayFault id delay f), q)
    | .ok t => q.redeliverAt id t

def stats (q : Queue) : Except QueueError Stats × Queue :=
  let (struck, q) := q.strike .stats
  if struck then (.error (.store Faults.reason), q) else (.ok (q.store.stats q.keys), q)

def purge (q : Queue) : Queue := { q with store := q.store.purge q.keys }

end Messages

section Life

/-- Adds a middleware inside those that are there. Only an idle queue takes one. -/
def use (q : Queue) (m : Middleware) : Except QueueError Unit × Queue :=
  if q.lifecycle.state = .idle then (.ok (), { q with middleware := q.middleware ++ [m] })
  else (.error (.alreadyConsuming q.config.name), q)

inductive ConsumeFault where
  | refused (e : QueueError)
  /-- The rate limit or the number of workers is out of the range of its arithmetic. -/
  | panic (p : Panic)
  deriving DecidableEq, Repr

/-- A limiter with a full bucket, if the queue has a rate limit. -/
def startLimiter (q : Queue) : Except Panic (Option Limiter) :=
  match q.config.rateLimit with
  | none => .ok none
  | some r => (Limiter.start r q.now).map some

/-- Makes room for the handles of the daemon and the workers, of eight bytes each. No list takes
more bytes than a signed word can count, and memory does not run out before. -/
def makeRoom (workers : UInt64) : Except Panic Unit :=
  if workers.toNat + 1 = UInt64.size then .error .total
  else if 8 * (workers.toNat + 1) < UInt64.size / 2 then .ok () else .error .capacity

def startSession (q : Queue) (h : Handler) (limiter : Option Limiter) : Session where
  cancelled := false
  done := false
  handler := h
  limiter
  daemon := ⟨.fresh, .start q.config.daemonInterval q.now⟩
  workers := List.replicate q.config.workerCount.toNat (.fresh q.config.pollInterval q.now)

/-- Starts the daemon and the workers with a handler that has been composed. -/
def spawn (q : Queue) (h : Handler) : Except ConsumeFault Unit × Queue :=
  match q.startLimiter with
  | .error p => (.error (.panic p), q)
  | .ok limiter =>
    let workers := q.config.workerCount.toNat
    let q := q.notify (.spawning workers)
    match makeRoom q.config.workerCount with
    | .error p => (.error (.panic p), q)
    | .ok () =>
      let q := { q with session := some (q.startSession h limiter), lifecycle := .running }
      (.ok (),
        q.notify (.operation "consume" "running" (some ("worker_count=" ++ toString workers))))

/-- Begins to consume. Needs an idle queue and an executor to run the tasks on. -/
def consume (q : Queue) (base : Handler) (hasExecutor : Bool) : Except ConsumeFault Unit × Queue :=
  if q.lifecycle.state ≠ .idle then
    (.error (.refused (.alreadyConsuming q.config.name)), q)
  else if !hasExecutor then
    (.error (.refused (.configuration "consume must be called within a tokio runtime")), q)
  else q.spawn (Handler.compose base q.middleware)

/-- Cancels the tasks. -/
def requestShutdown (q : Queue) : Queue :=
  { q with
    lifecycle := { q.lifecycle with state := .shuttingDown }
    session := q.session.map Session.cancel }.notify .shutdownRequested

def addCloser (q : Queue) (c : Closer) : Queue := { q with closers := q.closers ++ [c] }

/-- Waits for the end of the tasks, at most for `deadline`. -/
def awaitTasks (q : Queue) (deadline : Duration) : Queue :=
  if q.lifecycle.holdsSignal then q.addCloser (.waiting deadline (q.now.deadline deadline))
  else
    { q with lifecycle := { q.lifecycle with state := .stopped } }.addCloser (.returned (.ok ()))

/-- The part of a close before its wait. Without tasks there is nothing to wait for. -/
def beginClose (q : Queue) (deadline : Duration) : Queue :=
  match q.lifecycle.state with
  | .idle =>
    { q with lifecycle := { q.lifecycle with state := .stopped } }.addCloser (.returned (.ok ()))
  | .stopped => q.addCloser (.returned (.ok ()))
  | .running => q.requestShutdown.awaitTasks deadline
  | .shuttingDown => q.awaitTasks deadline

def isDone (q : Queue) : Bool := q.session.any Session.done

/-- A close that is waiting returns when all tasks have ended, or else at its deadline. -/
def closerReady (q : Queue) : Closer → Bool
  | .waiting _ due => q.isDone || due ≤ q.now
  | .returned _ => false

def finishClose (q : Queue) (j : Nat) (deadline : Duration) : Queue :=
  if q.isDone then
    { q with
      lifecycle := .stopped
      closers := q.closers.set j (.returned (.ok ())) }.notify (.operation "close" "stopped" none)
  else
    { q with
      closers := q.closers.set j (.returned (.error (.shutdownTimeout deadline))) }.notify
        (.shutdownLate (Config.wrappedMillis deadline).toNat)

end Life

end DelayedQueue.Queue
