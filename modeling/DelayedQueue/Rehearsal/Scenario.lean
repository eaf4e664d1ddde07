import DelayedQueue.Handler.Script
import DelayedQueue.Rehearsal.Clock
import DelayedQueue.Rehearsal.Names

/-! # Scenarios

A scenario is a queue, scripted handlers for it, injected faults, and the steps that a
caller takes one after the other. All that can happen at the time of a step happens
before the next one.
-/

namespace DelayedQueue.Rehearsal

inductive Step where
  | produce (payload : Bytes) (delay : Option Duration) (time : Option Time)
  /-- Stores a message past the fault plan. -/
  | seed (m : Message)
  | putRow (name : String) (row : Bytes)
  | use (m : Middleware)
  | consume (hasExecutor : Bool)
  | sleep (ms : UInt64)
  | close (deadline : Duration)
  /-- Closes at once, by callers in this order. -/
  | closeAll (deadlines : List Duration)
  | redeliverAfter (name : String) (delay : Duration)
  | redeliverAt (name : String) (time : Time)
  | commit (name : String)
  | stats
  | state
  | inspect
  | purge
  | peek (name : String)

/-- Where a message is and what its row says. -/
structure Sight where
  ready : Bool
  due : Option Score
  row : Option (Except QueueError Message)

inductive Reply where
  | done
  | failed (e : QueueError)
  | produced (name : String)
  | flag (b : Bool)
  | clock (ms : Nat)
  | closed (rs : List (Except QueueError Unit))
  | stats (s : Stats)
  | state (s : LifeState)
  | inspected (queue name : String) (keys : List String)
  | sight (s : Sight)

structure Scenario where
  config : Config
  begun : Clocks
  observed : Bool
  faults : Faults
  scripts : Scripts
  steps : List Step

def ofUnit : Except QueueError Unit → Reply
  | .ok () => .done
  | .error e => .failed e

def ofFlag : Except QueueError Bool → Reply
  | .ok b => .flag b
  | .error e => .failed e

/-- The store error that a row which cannot be read amounts to. -/
def decodeRow (row : Bytes) : Except QueueError Message :=
  match Row.decode row with
  | .ok m => .ok m
  | .error f => .error (.decodeFailed f.message)

def sightOf (q : Queue) (id : String) : Sight where
  ready := q.space.isReady id
  due := q.space.score? id
  row := (q.space.row? id).map decodeRow

def draft (q : Queue) (payload : Bytes) (delay : Option Duration) (time : Option Time) :
    Except Panic Draft :=
  let d : Except Panic Draft := match delay with
    | some delay => (Draft.new payload).scheduledBy q.wall delay
    | none => .ok (.new payload)
  match time with
  | some t => d.map fun d => d.scheduledAt t
  | none => d

/-- Starts closers with these deadlines and runs until they have returned. -/
def closeAll (s : Stage) (deadlines : List Duration) : List (Except QueueError Unit) × Stage :=
  let first := s.queue.closers.length
  let mine := (List.range deadlines.length).map (first + ·)
  let s := deadlines.foldl Stage.beginClose s
  let s := s.rest.runUntilClosed mine Queue.patience
  (mine.filterMap fun j => (s.queue.closers[j]?).bind Closer.result?, s)

/-- Steps that take no time. -/
def takeAtOnce (scripts : Scripts) (q : Queue) : Step → Except Panic (Reply × Queue)
  | .produce payload delay time => do
    let (r, q) ← q.produce (← draft q payload delay time)
    match r with
    | .ok id => return (.produced (q.nameOf id), q)
    | .error e => return (.failed e, q)
  | .seed m => q.wall.map fun now => (.done, { q with store := q.store.produce q.keys m now })
  | .putRow name row => .ok (.done, { q with store := q.store.putRow q.keys (q.idOf name) row })
  | .use m => .ok (ofUnit (q.use m).1, (q.use m).2)
  | .consume hasExecutor =>
    match q.consume (scripts.handler q.nameOf) hasExecutor with
    | (.ok (), q) => .ok (.done, q)
    | (.error (.refused e), q) => .ok (.failed e, q)
    | (.error (.panic p), _) => .error p
  | .redeliverAfter name delay => do
    let (r, q) ← q.redeliverAfter (q.idOf name) delay
    return (ofFlag (r.mapError (·.mapId q.nameOf)), q)
  | .redeliverAt name t =>
    let (r, q) := q.redeliverAt (q.idOf name) t
    .ok (ofFlag (r.mapError (·.mapId q.nameOf)), q)
  | .commit name =>
    let (b, store) := q.store.commit q.keys (q.idOf name)
    .ok (.flag b, { q with store })
  | .stats =>
    match q.stats with
    | (.ok s, q) => .ok (.stats s, q)
    | (.error e, q) => .ok (.failed e, q)
  | .inspect => .ok (.inspected q.inspect q.config.name q.keys.all, q)
  | .purge => .ok (.done, q.purge)
  | .peek name => .ok (.sight (sightOf q (q.idOf name)), q)
  | _ => .ok (.state q.lifecycle.state, q)

def take (scripts : Scripts) (s : Stage) : Step → Except Panic (Reply × Stage)
  | .sleep ms =>
    let s := s.runUntil (s.queue.now.afterSleep (.ofMillis ms)) Queue.patience
    .ok (.clock s.queue.clock, s)
  | .close deadline =>
    let (rs, s) := closeAll s [deadline]
    .ok (match rs with | [r] => ofUnit r | _ => .closed rs, s)
  | .closeAll deadlines =>
    let (rs, s) := closeAll s deadlines
    .ok (.closed rs, s)
  | step =>
    (takeAtOnce scripts s.queue step).map fun (reply, queue) => (reply, { s with queue })

/-- The replies, each with the time in milliseconds at which its step began. -/
def takeAll (scripts : Scripts) (s : Stage) :
    List Step → Except Panic (List (Nat × Reply) × Stage)
  | [] => .ok ([], s)
  | step :: steps =>
    match take scripts s step with
    | .error p => .error p
    | .ok (reply, s') =>
      match takeAll scripts s'.rest steps with
      | .error p => .error p
      | .ok (replies, last) => .ok ((s.queue.clock, reply) :: replies, last)

inductive Refusal where
  | invalid (e : QueueError)
  | panic (p : Panic)
  deriving DecidableEq, Repr

/-- The ids that a step brings along, by its name for a message or in a row. -/
def Step.ids : Step → List String
  | .seed m => [m.id]
  | .putRow name row =>
    match Row.decode row with
    | .ok m => [name, m.id]
    | .error _ => [name]
  | .redeliverAfter name _ | .redeliverAt name _ | .commit name | .peek name => [name]
  | _ => []

/-- A source of ids none of which the scenario brings along. -/
def Scenario.source (s : Scenario) : MessageId.Source :=
  .apartFrom s.begun.wall (s.steps.flatMap Step.ids)

def Scenario.run (s : Scenario) : Except Refusal (List (Nat × Reply) × Queue) :=
  match Queue.new s.config s.faults s.begun s.source s.observed with
  | .error e => .error (.invalid e)
  | .ok q =>
    match takeAll s.scripts (.ofQueue q) s.steps with
    | .error p => .error (.panic p)
    | .ok (replies, last) => .ok (replies, last.queue)

/-- Plays a handler once on a message, on a queue of its own. -/
def playOnce (handler : Handler) (m : Message) (q : Queue) : Option Ending × Queue :=
  q.play m.id (handler m)

end DelayedQueue.Rehearsal
