/-! # Keys of a queue

The three structures of a queue lie under keys that share one hash tag, the queue's
name in braces, so that a cluster keeps them together.
-/

namespace DelayedQueue

structure Keys where
  ready : String
  retry : String
  data : String
  deriving DecidableEq, Repr

namespace Keys

def tagged (name kind : String) : String := "dq:\x7b" ++ name ++ "\x7d:" ++ kind

def ofName (name : String) : Keys :=
  ⟨tagged name "ready", tagged name "retry", tagged name "data"⟩

def all (k : Keys) : List String := [k.ready, k.retry, k.data]

end Keys

end DelayedQueue
