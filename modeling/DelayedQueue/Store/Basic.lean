import DelayedQueue.Keys
import DelayedQueue.Store.Space

/-! # The store

Spaces by queue. A queue without a space behaves like one whose space is empty, and only
producing or writing a row makes a space.
-/

namespace DelayedQueue

open Std (ExtTreeMap)

/-- An operation on one queue, with the clock reading it was given. -/
inductive StoreOp where
  | produce (m : Message) (now : Time)
  | take (retry : Duration) (maxDeliveries : UInt64) (now : Time)
  | commit (id : String)
  | reschedule (id : String) (time : Time)
  | promote (now : Time) (limit : Nat)
  | purge
  | putRow (id : String) (row : Bytes)
  deriving DecidableEq, Repr

inductive StoreResult where
  | done
  | took (t : Take)
  | flag (b : Bool)
  | count (n : Nat)
  deriving DecidableEq, Repr

structure Store where
  spaces : ExtTreeMap String Space

namespace Store

def empty : Store := ⟨∅⟩

def space (s : Store) (k : Keys) : Space := s.spaces[k.data]?.getD Space.empty

def setSpace (s : Store) (k : Keys) (sp : Space) : Store := ⟨s.spaces.insert k.data sp⟩

/-- Runs an operation that makes no space of its own. -/
def onSpace {α : Type} (s : Store) (k : Keys) (f : Space → α × Space) : α × Store :=
  match s.spaces[k.data]? with
  | none => ((f Space.empty).1, s)
  | some sp => ((f sp).1, s.setSpace k (f sp).2)

def produce (s : Store) (k : Keys) (m : Message) (now : Time) : Store :=
  s.setSpace k ((s.space k).produce m now)

def putRow (s : Store) (k : Keys) (id : String) (row : Bytes) : Store :=
  s.setSpace k ((s.space k).putRow id row)

def takeOne (s : Store) (k : Keys) (retry : Duration) (maxDeliveries : UInt64) (now : Time) :
    Take × Store :=
  s.onSpace k fun sp => sp.takeOne retry maxDeliveries now

def commit (s : Store) (k : Keys) (id : String) : Bool × Store := s.onSpace k fun sp => sp.commit id

def reschedule (s : Store) (k : Keys) (id : String) (t : Time) : Bool × Store :=
  s.onSpace k fun sp => sp.reschedule id t

def promoteDue (s : Store) (k : Keys) (now : Time) (limit : Nat) : Nat × Store :=
  s.onSpace k fun sp => sp.promoteDue now limit

def purge (s : Store) (k : Keys) : Store := ⟨s.spaces.erase k.data⟩

def stats (s : Store) (k : Keys) : Stats := (s.space k).stats

def apply (s : Store) (k : Keys) : StoreOp → StoreResult × Store
  | .produce m now => (.done, s.produce k m now)
  | .take retry cap now => let (t, s) := s.takeOne k retry cap now; (.took t, s)
  | .commit id => let (b, s) := s.commit k id; (.flag b, s)
  | .reschedule id t => let (b, s) := s.reschedule k id t; (.flag b, s)
  | .promote now limit => let (n, s) := s.promoteDue k now limit; (.count n, s)
  | .purge => (.done, s.purge k)
  | .putRow id row => (.done, s.putRow k id row)

/-- What this store calls itself. -/
def providerName : String := "memory"

end Store

end DelayedQueue
