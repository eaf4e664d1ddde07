import DelayedQueue.Queue.Calls

/-! # The tasks of a queue

Each task goes on in steps. Between two of its steps a task may have to wait, and any
other task may take a step. Cancellation is looked at in the same step in which a message
is taken and handed to its handler, so after it no handler starts.
-/

namespace DelayedQueue.Queue

section Workers

/-- Sets the phase of worker `i`. -/
def setPhase (q : Queue) (i : Nat) (p : Worker.Phase) : Queue :=
  { q with session := q.session.map (Session.setPhase i p) }

def worker? (q : Queue) (i : Nat) : Option Worker :=
  match q.session with
  | none => none
  | some s => s.workers[i]?

/-- Hands a message to the handler. -/
def invoke (q : Queue) (s : Session) (i : Nat) (m : Message) : Queue :=
  (q.note (.invoked i m)).setPhase i
    (.handling ⟨m, s.handler m, q.now, q.now.deadline q.config.consumeTimeout⟩)

/-- Deals with what a take has found. -/
def receive (q : Queue) (s : Session) (i : Nat) : Take → Queue
  | .empty => q.setPhase i (.looping false)
  | .exhausted id deliveries =>
    (q.notify (.exhausted i id deliveries.toNat)).setPhase i (.looping true)
  | .taken row =>
    match Row.decode row with
    | .error f =>
      (q.notify (.undecodable i (.decodeFailed f.message))).setPhase i (.looping false)
    | .ok m => q.invoke s i m

/-- Ends a worker by a panic. -/
def breakWorker (q : Queue) (i : Nat) : Queue := q.setPhase i .broken

/-- A take from the store, past the fault plan. -/
def takeFromStore (q : Queue) (s : Session) (i : Nat) (now : Time) : Queue :=
  let q := match q.space.danglingHead? with
    | some id => q.notify (.rowMissing id)
    | none => q
  let (t, store) := q.store.takeOne q.keys q.config.retryInterval q.config.maxDeliveries now
  { q with store }.receive s i t

def takeAt (q : Queue) (s : Session) (i : Nat) (now : Time) : Queue :=
  let q := q.note (.attempted i)
  let (struck, q) := q.strike .take
  if struck then
    (q.notify (.takeFailed i (.takeFailed Faults.reason))).setPhase i (.looping false)
  else
    let (struck, q) := q.strike .takePanic
    if struck then q.breakWorker i else q.takeFromStore s i now

/-- Without the time there is no attempt. -/
def take (q : Queue) (s : Session) (i : Nat) : Queue :=
  match q.wall with
  | .error _ => q.breakWorker i
  | .ok now => q.takeAt s i now

/-- Gets a token before a take, if there is a rate limit. -/
def acquire (q : Queue) (s : Session) (i : Nat) : Queue :=
  match s.limiter with
  | none => q.take s i
  | some l =>
    match l.reserve q.now with
    | .error _ => q.breakWorker i
    | .ok (wait, l) =>
      let s := { s with limiter := some l }
      let q := q.setSession s
      if wait.isZero then q.take s i
      else q.setPhase i (.throttled (q.now.afterSleep wait))

/-- The first step of a worker. Its ticks count from here. -/
def startWorker (q : Queue) (s : Session) (i : Nat) : Queue :=
  let w : Worker := ⟨.looping false, .start q.config.pollInterval q.now⟩
  (q.notify (.workerStarted i)).setSession { s with workers := s.workers.set i w }

def stopWorker (q : Queue) (i : Nat) : Queue :=
  (q.notify (.workerStopped i)).setPhase i .stopped

/-- Goes on after a tick. -/
def tickWorker (q : Queue) (s : Session) (i : Nat) (w : Worker) : Queue :=
  match w.ticker.tick q.now with
  | .error _ => q.breakWorker i
  | .ok ticker =>
    let s := { s with workers := s.workers.set i { w with ticker } }
    (q.setSession s).acquire s i

/-- The outcome of a handler that ended, with the notice that tells about it. -/
def outcomeOf (m : Message) : Ending → Outcome × List Notice
  | .success => (.success, [])
  | .failure e causes =>
    (.failed ⟨.error, Ending.chainText e causes⟩, [.handlerFailed m.id e])
  | .panic text =>
    (.failed ⟨.panic, Ending.panicText text⟩, [.handlerPanicked m.id (Ending.panicText text)])

def lateOutcome (c : Config) : Outcome :=
  .failed ⟨.timeout, "deadline of " ++ c.consumeTimeout.text ++ " exceeded"⟩

/-- The handler is done. The latency covers all of its time. -/
def endHandler (q : Queue) (i : Nat) (m : Message) (o : Outcome) (ns : List Notice) : Queue :=
  let q := (ns.foldl notify q).note (.ended i m o)
  match q.wall with
  | .error _ => q.breakWorker i
  | .ok now => q.setPhase i (.settling m (m.latency now) o)

/-- One step of a handler that is not waiting. A call that panics ends it. -/
def proceed (q : Queue) (i : Nat) (d : Delivery) : Queue :=
  let goOn (q : Queue) (a : Activity) : Queue := q.setPhase i (.handling { d with activity := a })
  let unwind (p : Panic) : Queue := goOn q (.finish (.panic (some p.message)))
  match d.activity with
  | .finish e => q.endHandler i d.message (outcomeOf d.message e).1 (outcomeOf d.message e).2
  | .hang => q
  | .pause p rest =>
    if p.isZero then goOn q rest
    else q.setPhase i (.handling { d with activity := rest, wake := q.now.afterSleep p })
  | .report r rest => goOn (q.note (.report d.message.id r)) rest
  | .notify n rest => goOn (q.notify n) rest
  | .redeliverAfter id delay next =>
    match q.redeliverAfter id delay with
    | .error p => unwind p
    | .ok (r, q) => goOn q (next r)
  | .redeliverAt id t next => let (r, q) := q.redeliverAt id t; goOn q (next r)
  | .produce draft next =>
    match q.produce draft with
    | .error p => unwind p
    | .ok (r, q) => goOn q (next r)
  | .store op next => let (r, store) := q.store.apply q.keys op; goOn { q with store } (next r)

def canProceed (q : Queue) (d : Delivery) : Bool :=
  match d.activity with
  | .hang => false
  | _ => d.wake ≤ q.now

/-- A handler that can go on does, even at its deadline. -/
def handle (q : Queue) (i : Nat) (d : Delivery) : Queue :=
  if q.canProceed d then q.proceed i d
  else q.endHandler i d.message (lateOutcome q.config)
    [.handlerLate d.message.id (Config.wrappedMillis q.config.consumeTimeout).toNat]

/-- Commits a message. -/
def commit (q : Queue) (i : Nat) (id : String) : Queue :=
  let (struck, q) := q.strike .commit
  if struck then q.notify (.commitFailed i id (.commitFailed id Faults.reason))
  else { q with store := (q.store.commit q.keys id).2 }.note (.committed i id)

/-- Commits what succeeded and leaves what failed to be retried. -/
def settle (q : Queue) (i : Nat) (m : Message) (latency : Duration) (o : Outcome) : Queue :=
  let q := match o with
    | .success => q.commit i m.id
    | .failed f => q.notify (.leftForRetry i m.id m.deliveries.toNat f)
  let q := if q.observed then q.note (.observed latency m.deliveries o) else q
  q.setPhase i (.looping true)

def stepWorker (q : Queue) (s : Session) (i : Nat) (w : Worker) : Queue :=
  match w.phase with
  | .fresh => q.startWorker s i
  | .looping again =>
    if s.cancelled then q.stopWorker i
    else if again then q.acquire s i
    else q.setPhase i .ticking
  | .ticking => if s.cancelled then q.stopWorker i else q.tickWorker s i w
  | .throttled _ => if s.cancelled then q.stopWorker i else q.take s i
  | .handling d => q.handle i d
  | .settling m latency o => q.settle i m latency o
  | .stopped | .broken => q

/-- Whether a worker need not wait. -/
def workerReady (q : Queue) (s : Session) (w : Worker) : Bool :=
  match w.phase with
  | .fresh | .looping _ | .settling .. => true
  | .ticking => s.cancelled || w.ticker.isDue q.now
  | .throttled t => s.cancelled || t ≤ q.now
  | .handling d => q.canProceed d || d.deadline ≤ q.now
  | .stopped | .broken => false

end Workers

section Promotion

def setDaemon (q : Queue) (s : Session) (d : Daemon) : Queue := q.setSession { s with daemon := d }

def stopDaemon (q : Queue) (s : Session) : Queue :=
  (q.notify .daemonStopped).setDaemon s { s.daemon with phase := .stopped }

/-- Ends the daemon by a panic. -/
def breakDaemon (q : Queue) (s : Session) : Queue :=
  q.setDaemon s { s.daemon with phase := .broken }

def endPass (q : Queue) (s : Session) (total : Nat) : Queue :=
  let q := if total = 0 then q else q.notify (.promoted total)
  q.setDaemon s { s.daemon with phase := .waiting }

/-- One batch of a pass. The pass goes on while batches come back full. -/
def promoteAt (q : Queue) (s : Session) (total : Nat) (now : Time) : Queue :=
  let (struck, q) := q.strike .promote
  if struck then
    (q.notify (.promotionFailed (.promoteFailed Faults.reason))).endPass s total
  else
    let batch := q.config.promoteBatchSize.toNat
    let (moved, store) := q.store.promoteDue q.keys now batch
    let q := { q with store }
    if moved < batch || s.cancelled then q.endPass s (total + moved)
    else q.setDaemon s { s.daemon with phase := .promoting (total + moved) }

def promote (q : Queue) (s : Session) (total : Nat) : Queue :=
  match q.wall with
  | .error _ => q.breakDaemon s
  | .ok now => q.promoteAt s total now

def stepDaemon (q : Queue) (s : Session) : Queue :=
  match s.daemon.phase with
  | .fresh =>
    (q.notify (.daemonStarted (Config.wrappedMillis q.config.daemonInterval).toNat)).setDaemon s
      ⟨.waiting, .start q.config.daemonInterval q.now⟩
  | .waiting =>
    if s.cancelled then q.stopDaemon s
    else match s.daemon.ticker.tick q.now with
      | .error _ => q.breakDaemon s
      | .ok ticker => q.setDaemon s ⟨.promoting 0, ticker⟩
  | .promoting total => q.promote s total
  | .stopped | .broken => q

def daemonReady (q : Queue) (s : Session) : Bool :=
  match s.daemon.phase with
  | .fresh | .promoting _ => true
  | .waiting => s.cancelled || s.daemon.ticker.isDue q.now
  | .stopped | .broken => false

end Promotion

section Supervision

/-- Tasks are numbered from the daemon, which is 0. -/
def brokenTasks (s : Session) : List Nat :=
  (if s.daemon.isBroken then [0] else []) ++
    (s.workers.zipIdx 1).filterMap fun (w, task) => if w.isBroken then some task else none

/-- Publishes that all tasks have ended. -/
def publishEnd (q : Queue) (s : Session) : Queue :=
  let q := (brokenTasks s).foldl (fun q task => q.notify (.taskBroken task)) q
  (q.notify .tasksStopped).setSession { s with done := true }

end Supervision

/-- Who takes a step. -/
inductive Task where
  | daemon
  | worker (i : Nat)
  | supervisor
  | closer (j : Nat)
  deriving DecidableEq, Repr

/-- Whether a task need not wait. -/
def isReady (q : Queue) : Task → Bool
  | .daemon => q.session.any q.daemonReady
  | .worker i =>
    match q.session, q.worker? i with
    | some s, some w => q.workerReady s w
    | _, _ => false
  | .supervisor => q.session.any fun s => s.allEnded && !s.done
  | .closer j => (q.closers[j]?).any q.closerReady

/-- The next step of a task that is ready. -/
def advance (q : Queue) : Task → Queue
  | .daemon =>
    match q.session with
    | some s => q.stepDaemon s
    | none => q
  | .worker i =>
    match q.session, q.worker? i with
    | some s, some w => q.stepWorker s i w
    | _, _ => q
  | .supervisor =>
    match q.session with
    | some s => q.publishEnd s
    | none => q
  | .closer j =>
    match q.closers[j]? with
    | some (.waiting deadline _) => q.finishClose j deadline
    | _ => q

/-- A task that has to wait stays where it is. -/
def step (q : Queue) (t : Task) : Queue := if q.isReady t then q.advance t else q

/-- Lets time pass. -/
def elapse (q : Queue) (d : Duration) : Queue := { q with now := q.now + d.nanos }

/-- All that can happen to a queue. -/
inductive Move where
  | produce (d : Draft)
  | redeliverAt (id : String) (t : Time)
  | redeliverAfter (id : String) (delay : Duration)
  | use (m : Middleware)
  | consume (base : Handler) (hasExecutor : Bool)
  | close (deadline : Duration)
  | step (t : Task)
  | elapse (d : Duration)

/-- The queue after a call; one that panics has not changed it. -/
def afterCall {α : Type} (q : Queue) : Except Panic (α × Queue) → Queue
  | .ok (_, q) => q
  | .error _ => q

def move (q : Queue) : Move → Queue
  | .produce d => q.afterCall (q.produce d)
  | .redeliverAt id t => (q.redeliverAt id t).2
  | .redeliverAfter id delay => q.afterCall (q.redeliverAfter id delay)
  | .use m => (q.use m).2
  | .consume base hasExecutor => (q.consume base hasExecutor).2
  | .close deadline => q.beginClose deadline
  | .step t => q.step t
  | .elapse d => q.elapse d

def run (q : Queue) (ms : List Move) : Queue := ms.foldl move q

end DelayedQueue.Queue
