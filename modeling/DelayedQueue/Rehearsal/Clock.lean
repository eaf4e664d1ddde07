import DelayedQueue.Queue.Tasks

/-! # The rehearsal clock

Time stands still while any task can go on, and then moves straight to the next alarm.
An alarm is noticed on the first whole millisecond that is not before it. Tasks whose
alarms go off together go on in the order in which the alarms were set; all others in the
order of the daemon, the workers, the supervisor, those who wait for the queue to close.
-/

namespace DelayedQueue

namespace Queue

/-- The milliseconds that the run has lasted. -/
def clock (q : Queue) : Nat := q.now.millisSince q.begun.instant

/-- All tasks. -/
def tasks (q : Queue) : List Task :=
  let workers := match q.session with
    | some s => (List.range s.workers.length).map Task.worker
    | none => []
  .daemon :: workers ++ .supervisor :: (List.range q.closers.length).map Task.closer

/-- When a waiting worker goes on by itself. A handler's pause is set before its deadline. -/
def workerTimers (w : Worker) : List Instant :=
  match w.phase with
  | .ticking => [w.ticker.next]
  | .throttled t => [t]
  | .handling d =>
    match d.activity with
    | .hang => [d.deadline]
    | _ => [d.wake, d.deadline]
  | _ => []

def daemonTimers (d : Daemon) : List Instant :=
  match d.phase with
  | .waiting => [d.ticker.next]
  | _ => []

def closerTimers : Closer → List Instant
  | .waiting _ due => [due]
  | .returned _ => []

/-- The instants at which a task that is waiting goes on by itself. -/
def timers (q : Queue) : Task → List Instant
  | .daemon => (q.session.map fun s => daemonTimers s.daemon).getD []
  | .worker i => ((q.worker? i).map workerTimers).getD []
  | .supervisor => []
  | .closer j => ((q.closers[j]?).map closerTimers).getD []

/-- Enough for all that happens at one instant, and for all instants of a run. -/
def patience : Nat := 1000000000

/-- Lets a task go on until it has to wait. -/
def finishTurn (t : Task) : Nat → Queue → Queue
  | 0, q => q
  | fuel + 1, q => if q.isReady t then finishTurn t fuel (q.step t) else q

/-- Plays an activity on its own, with nothing to cut it off; `none` if it hangs. -/
def play (id : String) : Activity → Queue → Option Ending × Queue
  | .finish e, q => (some e, q)
  | .hang, q => (none, q)
  | .pause d rest, q =>
    play id rest (if d.isZero then q else { q with now := (q.now.afterSleep d).ceilMillis })
  | .report r rest, q => play id rest (q.note (.report id r))
  | .notify n rest, q => play id rest (q.notify n)
  | .redeliverAfter m delay next, q =>
    match q.redeliverAfter m delay with
    | .error p => (some (.panic (some p.message)), q)
    | .ok (r, q) => play id (next r) q
  | .redeliverAt m t next, q => play id (next (q.redeliverAt m t).1) (q.redeliverAt m t).2
  | .produce d next, q =>
    match q.produce d with
    | .error p => (some (.panic (some p.message)), q)
    | .ok (r, q) => play id (next r) q
  | .store op next, q =>
    play id (next (q.store.apply q.keys op).1) { q with store := (q.store.apply q.keys op).2 }

end Queue

namespace Rehearsal

structure Alarm where
  task : Queue.Task
  due : Instant
  deriving DecidableEq, Repr

/-- A queue with the alarms of its waiting tasks, in the order in which they were set. -/
structure Stage where
  queue : Queue
  alarms : List Alarm

namespace Stage

def ofQueue (q : Queue) : Stage := ⟨q, []⟩

/-- Keeps the alarms that a task still waits for and sets the new ones. -/
def setAlarms (s : Stage) (t : Queue.Task) : Stage :=
  let dues := ((s.queue.timers t).map Instant.ceilMillis).eraseDups
  let kept := s.alarms.filter fun a => a.task != t || dues.contains a.due
  let new := (dues.map (Alarm.mk t)).filter fun a => !kept.contains a
  { s with alarms := kept ++ new }

/-- Lets a task go on until it has to wait, if it need not wait now. -/
def turn (s : Stage) (t : Queue.Task) : Stage :=
  if s.queue.isReady t then
    setAlarms { s with queue := s.queue.finishTurn t Queue.patience } t
  else s

/-- Lets all tasks go on until each of them has to wait. -/
def quiesce : Nat → Stage → Stage
  | 0, s => s
  | fuel + 1, s =>
    match s.queue.tasks.find? s.queue.isReady with
    | none => s
    | some t => quiesce fuel (s.turn t)

def rest (s : Stage) : Stage := s.quiesce Queue.patience

def nextAlarm? (s : Stage) : Option Instant := (s.alarms.map Alarm.due).min?

/-- Moves the clock to `t` and lets all tasks go on that can. -/
def moveTo (s : Stage) (t : Instant) : Stage :=
  let woken := ((s.alarms.filter fun a => a.due ≤ t).map Alarm.task).eraseDups
  let s := { s with queue := { s.queue with now := max s.queue.now t } }
  (woken.foldl turn s).rest

/-- Runs until `t`, and through all that can happen then. -/
def runUntil (t : Instant) : Nat → Stage → Stage
  | 0, s => s
  | fuel + 1, s =>
    match s.nextAlarm? with
    | some u => if u ≤ t then runUntil t fuel (s.moveTo u) else s.moveTo t
    | none => s.moveTo t

/-- Starts a closer. With no time to wait it returns before any other task can go on. -/
def beginClose (s : Stage) (deadline : Duration) : Stage :=
  let closer := Queue.Task.closer s.queue.closers.length
  (Stage.turn { s with queue := s.queue.beginClose deadline } closer).setAlarms closer

def allReturned (s : Stage) (closers : List Nat) : Bool :=
  closers.all fun j => ((s.queue.closers[j]?).bind Closer.result?).isSome

/-- Runs until these closers have returned. -/
def runUntilClosed (closers : List Nat) : Nat → Stage → Stage
  | 0, s => s
  | fuel + 1, s =>
    if s.allReturned closers then s
    else match s.nextAlarm? with
      | some u => runUntilClosed closers fuel (s.moveTo u)
      | none => s

end Stage

end Rehearsal

end DelayedQueue
