import DelayedQueue.Handler.Basic

/-! # Scripted handlers

A script lists, for each delivery of a message, what its handler does. The last entry
serves all later deliveries. Scripted middleware reports when it is entered and left.
-/

namespace DelayedQueue

inductive Action where
  | sleep (ms : UInt64)
  /-- Redelivers the message itself. -/
  | redeliverAfter (delay : Duration)
  | redeliverAt (time : Time)
  | produce (payload : Bytes)
  /-- Fails with an error, wrapped by each of the contexts in turn. -/
  | fail (error : String) (contexts : List String)
  | panic (text : Option String)
  deriving DecidableEq, Repr

namespace Action

def failure (error : String) (contexts : List String) : Ending :=
  contexts.foldl (fun e c => e.withContext c) (.failure error [])

/-- Does the actions in order and then succeeds. A message that cannot be produced ends it. -/
def perform (id : String) : List Action → Activity
  | [] => .report .succeeded (.finish .success)
  | .sleep ms :: rest => .pause (.ofMillis ms) (perform id rest)
  | .redeliverAfter delay :: rest =>
    .redeliverAfter id delay fun r => .report (.rescheduled r) (perform id rest)
  | .redeliverAt time :: rest =>
    .redeliverAt id time fun r => .report (.rescheduled r) (perform id rest)
  | .produce payload :: rest =>
    .produce (.new payload) fun
      | .ok new => .report (.produced new) (perform id rest)
      | .error e => .finish (.failure e.message [])
  | .fail error contexts :: _ => .report .failed (.finish (failure error contexts))
  | .panic text :: _ => .finish (.panic text)

end Action

/-- The actions of each delivery. -/
abbrev Script := List (List Action)

namespace Script

/-- Deliveries are counted from one. -/
def entry (s : Script) (deliveries : Nat) : List Action :=
  (s[min (max deliveries 1) s.length - 1]?).getD []

def handler (s : Script) : Handler := fun m =>
  .report (.started m.deliveries m.payload) (Action.perform m.id (s.entry m.deliveries.toNat))

end Script

/-- Scripts by the name of the message; the one for `"*"` serves all others. -/
abbrev Scripts := List (String × Script)

namespace Scripts

def script (ss : Scripts) (name : String) : Script :=
  ((ss.lookup name).or (ss.lookup "*")).getD []

/-- Plays for each message the script under the name by which it is called. -/
def handler (ss : Scripts) (call : String → String) : Handler := fun m =>
  (ss.script (call m.id)).handler m

end Scripts

namespace Middleware

/-- What a scripted middleware does besides reporting. -/
inductive Effect where
  | none
  /-- Fails without calling the inner handler. -/
  | fail (error : String)
  /-- Gives the inner handler another payload. -/
  | replace (payload : Bytes)
  /-- Makes a failure of the inner handler a success. -/
  | swallow
  | context (text : String)
  deriving DecidableEq, Repr

def Effect.onEnding : Effect → Ending → Ending
  | .swallow, .failure .. => .success
  | .context text, e => e.withContext text
  | _, e => e

def Effect.onMessage : Effect → Message → Message
  | .replace payload, m => { m with payload }
  | _, m => m

def scripted (tag : String) (effect : Effect) : Middleware := fun inner m =>
  .report (.entered tag)
    (match effect with
    | .fail error => .finish (.failure error [])
    | effect =>
      (inner (effect.onMessage m)).bind fun e =>
        .report (.left tag e.isSuccess) (.finish (effect.onEnding e)))

end Middleware

end DelayedQueue
