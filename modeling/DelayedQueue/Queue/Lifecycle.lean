/-! # The life of a queue

A queue is consumed at most once. While it is, it holds the token that cancels its tasks
and the signal that tells when all of them have ended.
-/

namespace DelayedQueue

inductive LifeState where
  | idle
  | running
  | shuttingDown
  | stopped
  deriving DecidableEq, Repr

namespace LifeState

def rank : LifeState → Nat
  | .idle => 0
  | .running => 1
  | .shuttingDown => 2
  | .stopped => 3

def name : LifeState → String
  | .idle => "Idle"
  | .running => "Running"
  | .shuttingDown => "ShuttingDown"
  | .stopped => "Stopped"

end LifeState

structure Lifecycle where
  state : LifeState
  holdsToken : Bool
  holdsSignal : Bool
  deriving DecidableEq, Repr

namespace Lifecycle

def idle : Lifecycle := ⟨.idle, false, false⟩
def running : Lifecycle := ⟨.running, true, true⟩
def stopped : Lifecycle := ⟨.stopped, false, false⟩

end Lifecycle

end DelayedQueue
