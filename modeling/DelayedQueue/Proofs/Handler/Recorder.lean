import DelayedQueue.Handler.Script
import DelayedQueue.Proofs.Queue.Outline

/-! # What a handler tells

An activity that comes to its end has told some reports on the way. Middleware that only records
tells of a delivery before and after the handler inside it, and changes nothing else, so a chain of
recorders tells in order, around what the handler at the bottom tells.
-/

namespace DelayedQueue

def Ending.isPanic : Ending → Bool
  | .panic _ => true
  | _ => false

namespace Activity

/-- What an activity tells in its next step. -/
def said : Activity → List Report
  | .report r _ => [r]
  | _ => []

/-- An activity comes to its end, whatever its calls answer, and has told these reports. -/
inductive Plays : Activity → List Report → Ending → Prop where

  | finish (e : Ending) : Plays (.finish e) [] e

  | step {a a' : Activity} {rs : List Report} {e : Ending} (h : a.Leads a') (hp : Plays a' rs e) :
      Plays a (a.said ++ rs) e

variable {a b : Activity} {f : Ending → Activity} {rs : List Report} {e : Ending}

end Activity

/-- What a middleware tells of each delivery, before and after the handler inside it. -/
structure Recorder where
  enter : Message → Report
  leave : Message → Ending → Report

namespace Recorder

def middleware (r : Recorder) : Middleware := fun inner m =>
  .report (r.enter m) ((inner m).bind fun e => .report (r.leave m e) (.finish e))

variable {r : Recorder} {recorders : List Recorder} {inner base : Handler} {m : Message}
  {rs : List Report} {e : Ending}

/-- What a recorder tells when the handler inside it has come to its end. A panic unwinds it. -/
def leaves (r : Recorder) (m : Message) (e : Ending) : List Report :=
  if e.isPanic then [] else [r.leave m e]

/-- Tells its tag, and whether the delivery has succeeded. -/
def tagged (tag : String) : Recorder := ⟨fun _ => .entered tag, fun _ e => .left tag e.isSuccess⟩

end Recorder

end DelayedQueue
