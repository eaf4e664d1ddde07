import DelayedQueue.Config.Basic
import DelayedQueue.Handler.Basic
import DelayedQueue.Message.Id
import DelayedQueue.Queue.Faults
import DelayedQueue.Queue.Lifecycle
import DelayedQueue.Queue.Ticker

/-! # A queue

The whole state of one queue, with the tasks that consume it and the callers that wait
for it to close, at one instant of its run. What has happened is kept in a journal, the
latest entry first.
-/

namespace DelayedQueue

/-- A message in the hands of its handler. -/
structure Delivery where
  message : Message
  /-- What is left to do. -/
  activity : Activity
  /-- When the current pause ends. -/
  wake : Instant
  /-- When the handler has to be done. -/
  deadline : Instant

inductive Worker.Phase where
  /-- Started, and not yet run. -/
  | fresh
  /-- At the head of its loop; `again` leaves out the wait for a tick. -/
  | looping (again : Bool)
  | ticking
  /-- Waits for its token. -/
  | throttled (due : Instant)
  | handling (d : Delivery)
  /-- The handler is done and its outcome has to be dealt with. -/
  | settling (m : Message) (latency : Duration) (o : Outcome)
  | stopped
  /-- Ended by a panic. -/
  | broken

structure Worker where
  phase : Worker.Phase
  ticker : Ticker

namespace Worker

def fresh (period : Duration) (now : Instant) : Worker := ⟨.fresh, .start period now⟩

def hasEnded (w : Worker) : Bool :=
  match w.phase with
  | .stopped | .broken => true
  | _ => false

def isBroken (w : Worker) : Bool :=
  match w.phase with
  | .broken => true
  | _ => false

end Worker

inductive Daemon.Phase where
  | fresh
  | waiting
  /-- In a pass that has moved `total` ids so far. -/
  | promoting (total : Nat)
  | stopped
  /-- Ended by a panic. -/
  | broken
  deriving DecidableEq, Repr

structure Daemon where
  phase : Daemon.Phase
  ticker : Ticker
  deriving DecidableEq, Repr

def Daemon.isBroken (d : Daemon) : Bool := d.phase == .broken

def Daemon.hasEnded (d : Daemon) : Bool := d.phase == .stopped || d.isBroken

/-- The tasks of a queue that is being consumed. -/
structure Session where
  cancelled : Bool
  /-- All tasks have ended, and everyone may know. -/
  done : Bool
  handler : Handler
  limiter : Option Limiter
  daemon : Daemon
  workers : List Worker

namespace Session

def allEnded (s : Session) : Bool := s.daemon.hasEnded && s.workers.all Worker.hasEnded

def cancel (s : Session) : Session := { s with cancelled := true }

/-- Sets the phase of worker `i`. -/
def setPhase (i : Nat) (p : Worker.Phase) (s : Session) : Session :=
  { s with workers := s.workers.modify i fun w => { w with phase := p } }

end Session

inductive Closer where
  | waiting (deadline : Duration) (due : Instant)
  | returned (r : Except QueueError Unit)

def Closer.result? : Closer → Option (Except QueueError Unit)
  | .waiting .. => none
  | .returned r => some r

inductive Entry where
  | notice (n : Notice)
  /-- What a handler or a middleware told about message `id`. -/
  | report (id : String) (r : Report)
  | observed (latency : Duration) (deliveries : UInt64) (o : Outcome)
  | attempted (worker : Nat)
  | invoked (worker : Nat) (m : Message)
  | ended (worker : Nat) (m : Message) (o : Outcome)
  | committed (worker : Nat) (id : String)

structure Queue where
  config : Config
  store : Store
  faults : Faults
  /-- The clocks at the beginning of the run. -/
  begun : Clocks
  now : Instant
  ids : MessageId.Source
  /-- The number of messages produced. -/
  serial : Nat
  /-- Whether outcomes are observed. -/
  observed : Bool
  middleware : List Middleware
  lifecycle : Lifecycle
  session : Option Session
  closers : List Closer
  journal : List (Instant × Entry)

namespace Queue

def keys (q : Queue) : Keys := .ofName q.config.name

/-- The time by the wall clock. -/
def wall (q : Queue) : Except Panic Time := WallClock.readAt q.begun q.now

theorem leap_of_wall {q : Queue} {t : Time} (h : q.wall = .ok t) : t.leap = false :=
  (WallClock.readAt_eq_ok_iff.mp h).2.1

theorem nanos_of_wall {q : Queue} {t : Time} (h : q.wall = .ok t) :
    t.nanos = q.begun.nanosAt q.now := (WallClock.readAt_eq_ok_iff.mp h).2.2

def space (q : Queue) : Space := q.store.space q.keys

def note (q : Queue) (e : Entry) : Queue := { q with journal := (q.now, e) :: q.journal }

def notify (q : Queue) (n : Notice) : Queue := q.note (.notice n)

def setSession (q : Queue) (s : Session) : Queue := { q with session := some s }

def isCancelled (q : Queue) : Bool := q.session.any Session.cancelled

/-- Makes a call that the fault plan may make fail. -/
def strike (q : Queue) (c : StoreCall) : Bool × Queue :=
  ((q.faults.strike c).1, { q with faults := (q.faults.strike c).2 })

/-- An idle queue, if the configuration is valid. -/
def new (c : Config) (faults : Faults) (begun : Clocks) (ids : MessageId.Source) (observed : Bool) :
    Except QueueError Queue :=
  match c.validate with
  | .error e => .error e
  | .ok () =>
    .ok ({ config := c, store := .empty, faults, begun, now := begun.instant, ids, serial := 0,
           observed, middleware := [], lifecycle := .idle, session := none, closers := [],
           journal := [] : Queue }.notify .created)

/-- The queue with its parts named. -/
def inspect (q : Queue) : String :=
  "Queue \x7b name: " ++ Text.quoted q.config.name ++ ", store: " ++
    Text.quoted Store.providerName ++ ", state: " ++ q.lifecycle.state.name ++ " \x7d"

end Queue

end DelayedQueue
