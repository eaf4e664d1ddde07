import DelayedQueue.Queue.Basic
import DelayedQueue.Text.Decimal

/-! # Names of messages

In a rehearsal produced messages are called `m0`, `m1` and so on, in the order of their
production. All others are called by their ids. The source of the ids has to be one that
claims none of those.
-/

namespace DelayedQueue

namespace Rehearsal

/-- The name of the message with this id. -/
def nameOf (ids : MessageId.Source) (id : String) : String :=
  match ids.serial? id with
  | some n => "m" ++ toString n
  | none => id

def serialOfName? (name : String) : Option Nat :=
  match name.toList with
  | 'm' :: ds =>
    match Decimal.readDigits 0xffffffffffff .tooLarge 0 ds with
    | .ok n => if ds = Nat.toDigits 10 n then some n else none
    | .error _ => none
  | _ => none

/-- The id of the message with this name, when `produced` messages have been produced. -/
def idOf (ids : MessageId.Source) (produced : Nat) (name : String) : String :=
  match serialOfName? name with
  | some n => if n < produced then ids.id n else name
  | none => name

end Rehearsal

namespace Queue

def nameOf (q : Queue) (id : String) : String := Rehearsal.nameOf q.ids id

def idOf (q : Queue) (name : String) : String := Rehearsal.idOf q.ids q.serial name

end Queue

end DelayedQueue
