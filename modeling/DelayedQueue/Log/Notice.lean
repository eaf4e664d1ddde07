import DelayedQueue.Error
import DelayedQueue.Log.Event
import DelayedQueue.Outcome
import DelayedQueue.Time.Calendar

/-! # Notices

All that a running queue has to say. A notice carries the values; its wording is given
when it becomes a log event, together with the queue's name and the names by which
messages are to be called.
-/

namespace DelayedQueue

inductive Notice where
  | created
  | produced (id : String) (deliverAt : Option Time)
  | redelivery (id : String) (time : Time) (updated : Bool)
  | spawning (workers : Nat)
  | operation (name status : String) (details : Option String)
  | daemonStarted (intervalMs : Nat)
  | daemonStopped
  | promoted (count : Nat)
  | promotionFailed (e : QueueError)
  | workerStarted (worker : Nat)
  | workerStopped (worker : Nat)
  | takeFailed (worker : Nat) (e : QueueError)
  | rowMissing (id : String)
  | exhausted (worker : Nat) (id : String) (deliveries : Nat)
  | undecodable (worker : Nat) (e : QueueError)
  | handlerFailed (id error : String)
  | handlerPanicked (id text : String)
  | handlerLate (id : String) (timeoutMs : Nat)
  /-- From a middleware that traces handlers. -/
  | handlerFinished (id : String) (succeeded : Bool)
  | leftForRetry (worker : Nat) (id : String) (deliveries : Nat) (f : Failure)
  | commitFailed (worker : Nat) (id : String) (e : QueueError)
  | taskBroken (task : Nat)
  | tasksStopped
  | shutdownRequested
  | shutdownLate (deadlineMs : Nat)
  deriving DecidableEq, Repr

namespace Notice
open Log (Event Level Value)

def scheduleText : Option Time → String
  | none => "None"
  | some t => "Some(" ++ t.sortableText ++ ")"

/-- The event, for a queue of this name, with `call` for the ids of messages. -/
def event (queue : String) (call : String → String) (n : Notice) : Event :=
  let ofQueue : String × Value := ("queue", .bare queue)
  let ofWorker (worker : Nat) : String × Value := ("worker_id", .number worker)
  let ofMessage (id : String) : String × Value := ("message_id", .bare (call id))
  let ofError (e : QueueError) : String × Value := ("error", .bare (e.mapId call).message)
  match n with
  | .created => ⟨.debug, Log.queueTarget, "queue created", [ofQueue, ("store", .text "memory")]⟩
  | .produced id deliverAt =>
    ⟨.debug, Log.queueTarget, "message produced",
      [ofQueue, ofMessage id, ("deliver_at", .bare (scheduleText deliverAt))]⟩
  | .redelivery id time updated =>
    ⟨.debug, Log.queueTarget, "redelivery scheduled",
      [ofQueue, ofMessage id, ("redeliver_at", .bare time.text), ("updated", .flag updated)]⟩
  | .spawning workers =>
    ⟨.info, Log.poolTarget, "spawning consume workers",
      [ofQueue, ("worker_count", .number workers)]⟩
  | .operation name status details => Log.queueOperation name queue status details
  | .daemonStarted intervalMs =>
    ⟨.info, Log.daemonTarget, "delivery daemon started",
      [ofQueue, ("interval_ms", .number intervalMs)]⟩
  | .daemonStopped => ⟨.info, Log.daemonTarget, "delivery daemon stopped", [ofQueue]⟩
  | .promoted count =>
    ⟨.debug, Log.daemonTarget, "promoted due messages", [ofQueue, ("promoted", .number count)]⟩
  | .promotionFailed e =>
    ⟨.warn, Log.daemonTarget, "promotion pass failed", [ofQueue, ofError e]⟩
  | .workerStarted worker =>
    ⟨.info, Log.workerTarget, "consume worker started", [ofWorker worker, ofQueue]⟩
  | .workerStopped worker =>
    ⟨.info, Log.workerTarget, "consume worker stopped", [ofWorker worker, ofQueue]⟩
  | .takeFailed worker e => ⟨.warn, Log.workerTarget, "take failed", [ofWorker worker, ofError e]⟩
  | .rowMissing id =>
    ⟨.debug, Log.storeTarget, "ready id without a row, dropping", [ofMessage id]⟩
  | .exhausted worker id deliveries =>
    ⟨.warn, Log.workerTarget, "message exhausted its retries and was dropped",
      [ofWorker worker, ofMessage id, ("deliver_cnt", .number deliveries)]⟩
  | .undecodable worker e =>
    ⟨.warn, Log.workerTarget, "taken message could not be decoded", [ofWorker worker, ofError e]⟩
  | .handlerFailed id error =>
    ⟨.warn, Log.workerTarget, "handler returned error", [ofMessage id, ("error", .bare error)]⟩
  | .handlerPanicked id text =>
    ⟨.error, Log.workerTarget, "handler panicked", [ofMessage id, ("panic_msg", .bare text)]⟩
  | .handlerLate id timeoutMs =>
    ⟨.warn, Log.workerTarget, "handler exceeded its deadline",
      [ofMessage id, ("timeout_ms", .number timeoutMs)]⟩
  | .handlerFinished id succeeded =>
    ⟨.debug, Log.handlerTarget, "handler finished", [ofMessage id, ("ok", .flag succeeded)]⟩
  | .leftForRetry worker id deliveries f =>
    ⟨.debug, Log.workerTarget, "message left for retry",
      [ofWorker worker, ofMessage id, ("deliver_cnt", .number deliveries),
        ("failure", .bare f.text)]⟩
  | .commitFailed worker id e =>
    ⟨.warn, Log.workerTarget, "commit failed", [ofWorker worker, ofMessage id, ofError e]⟩
  | .taskBroken task =>
    ⟨.error, Log.poolTarget, "consume task terminated abnormally",
      [ofQueue, ("task", .number task)]⟩
  | .tasksStopped => ⟨.info, Log.poolTarget, "all consume tasks stopped", [ofQueue]⟩
  | .shutdownRequested => ⟨.info, Log.queueTarget, "shutdown requested", [ofQueue]⟩
  | .shutdownLate deadlineMs =>
    ⟨.warn, Log.queueTarget, "shutdown deadline exceeded, workers still draining",
      [ofQueue, ("deadline_ms", .number deadlineMs)]⟩

end Notice

end DelayedQueue
