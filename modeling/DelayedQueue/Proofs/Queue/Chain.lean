import DelayedQueue.Proofs.Queue.Desk

/-! # The chain around a handler

Whatever clones of a queue call at the same time, each delivery of a session goes through all
middleware that has been accepted, and each of them once: a chain of recorders tells of a message in
order what each enters and leaves. Whoever comes later is told so, and changes nothing.
-/

namespace DelayedQueue.Desk

variable {c : Config} {d : Desk} {e : Event} {base : Handler} {i : Nat} {m : Message}

section Course

theorem run_append (es es' : List Event) : d.run (es ++ es') = (d.run es).run es' :=
  List.foldl_append

namespace Tidy

end Tidy

end Course

section Late

namespace Tidy

end Tidy

end Late

variable {faults : Faults} {begun : Clocks} {ids : MessageId.Source} {observed : Bool} {q : Queue}
  {es : List Event} {x : Bool} {chain : List Middleware}

section Recorders

def outer : Recorder := .tagged "outer"

def inner : Recorder := .tagged "inner"

def inmost : Handler := Scripts.handler [("*", [[]])] id

/-- Two recorders are registered while others wait for the lock, and a third middleware comes when
the handler has been composed. -/
def registering : List Event :=
  [.call (.use outer.middleware), .call (.consume inmost true), .call (.use inner.middleware),
    .enter 0, .call (.use Handler.tracing), .goOn, .enter 1, .goOn, .enter 0, .goOn, .enter 0,
    .goOn, .enter 0]

def turn : Event := .other (.move (.step (.worker 0)))

/-- Now the next step of the worker finds a message. -/
def prepared : List Event := registering ++ [.other (.move (.produce (.new [1]))), turn, turn]

/-- The worker takes the message, and its handler succeeds. -/
def delivered : List Event := prepared ++ turn :: List.replicate 6 turn ++ [turn]

/-- Worker 0 begins with a message. -/
def invokes : Entry → Bool
  | .invoked 0 _ => true
  | _ => false

/-- Worker 0 is done with a message, and has succeeded. -/
def succeeds : Entry → Bool
  | .ended 0 _ .success => true
  | _ => false

def ends : Entry → Bool
  | .ended .. => true
  | _ => false

theorem exists_ended {es : List Entry} (h : es.any succeeds = true) :
    ∃ m, .ended 0 m .success ∈ es := by
  obtain ⟨e, he, hs⟩ := List.any_eq_true.mp h
  unfold succeeds at hs
  split at hs
  · exact ⟨_, he⟩
  · cases hs

end Recorders

end DelayedQueue.Desk
