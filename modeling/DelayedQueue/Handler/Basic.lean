import DelayedQueue.Log.Notice
import DelayedQueue.Store.Basic

/-! # Handlers and middleware

A handler answers a message with an activity: a finite course of pauses and calls that
ends in success, failure or panic, or hangs. A middleware turns a handler into another
one; of a chain of them the first is the outermost.
-/

namespace DelayedQueue

inductive Ending where
  | success
  /-- The error, and the errors that caused it from the outside in. -/
  | failure (error : String) (causes : List String)
  /-- Without a text if the value thrown was none. -/
  | panic (text : Option String)
  deriving DecidableEq, Repr

namespace Ending

def isSuccess : Ending → Bool
  | .success => true
  | _ => false

def chainText (error : String) (causes : List String) : String :=
  ": ".intercalate (error :: causes)

def panicText (text : Option String) : String := text.getD "unknown panic"

/-- Puts a new outermost error around a failure. -/
def withContext (context : String) : Ending → Ending
  | .failure e causes => .failure context (e :: causes)
  | e => e

end Ending

/-- What handlers and middleware tell an observer about a delivery. -/
inductive Report where
  | entered (tag : String)
  | left (tag : String) (succeeded : Bool)
  | started (deliveries : UInt64) (payload : Bytes)
  | rescheduled (r : Except QueueError Bool)
  | produced (id : String)
  | failed
  | succeeded

/-- Calls the messages that are mentioned by other names. -/
def Report.mapId (call : String → String) : Report → Report
  | .rescheduled r => .rescheduled (r.mapError fun e => e.mapId call)
  | .produced id => .produced (call id)
  | r => r

inductive Activity where
  | finish (e : Ending)
  /-- Never goes on. -/
  | hang
  | pause (d : Duration) (rest : Activity)
  | report (r : Report) (rest : Activity)
  | notify (n : Notice) (rest : Activity)
  | redeliverAfter (id : String) (delay : Duration) (next : Except QueueError Bool → Activity)
  | redeliverAt (id : String) (time : Time) (next : Except QueueError Bool → Activity)
  | produce (d : Draft) (next : Except QueueError String → Activity)
  /-- Goes to the store directly. -/
  | store (op : StoreOp) (next : StoreResult → Activity)

namespace Activity

/-- Goes on with `f` where the activity ends. A panic unwinds all that comes after it. -/
def bind (f : Ending → Activity) : Activity → Activity
  | .finish (.panic text) => .finish (.panic text)
  | .finish e => f e
  | .hang => .hang
  | .pause d rest => .pause d (bind f rest)
  | .report r rest => .report r (bind f rest)
  | .notify n rest => .notify n (bind f rest)
  | .redeliverAfter id delay next => .redeliverAfter id delay fun r => bind f (next r)
  | .redeliverAt id time next => .redeliverAt id time fun r => bind f (next r)
  | .produce d next => .produce d fun r => bind f (next r)
  | .store op next => .store op fun r => bind f (next r)

end Activity

abbrev Handler := Message → Activity

abbrev Middleware := Handler → Handler

namespace Handler

/-- The first of the chain ends up outermost. -/
def compose (base : Handler) (chain : List Middleware) : Handler :=
  chain.foldr (fun m inner => m inner) base

/-- Notes how each delivery ended. -/
def tracing : Middleware := fun inner m =>
  (inner m).bind fun e => .notify (.handlerFinished m.id e.isSuccess) (.finish e)

end Handler

end DelayedQueue
