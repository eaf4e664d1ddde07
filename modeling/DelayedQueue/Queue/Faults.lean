/-! # Injected faults

Calls of the store are counted by kind, from one, and a plan lists those that fail.
-/

namespace DelayedQueue

inductive StoreCall where
  | produce
  | take
  /-- A take that panics, counted over those that do not fail otherwise. -/
  | takePanic
  | commit
  | reschedule
  | promote
  | stats
  deriving DecidableEq, Repr

structure Faults where
  plan : List (StoreCall × Nat)
  made : List (StoreCall × Nat)
  deriving DecidableEq, Repr

namespace Faults

def none : Faults := ⟨[], []⟩

def ofPlan (plan : List (StoreCall × Nat)) : Faults := ⟨plan, []⟩

def count (f : Faults) (c : StoreCall) : Nat := (f.made.lookup c).getD 0

/-- Makes a call, and says whether it fails. -/
def strike (f : Faults) (c : StoreCall) : Bool × Faults :=
  let n := f.count c + 1
  (f.plan.contains (c, n), { f with made := (c, n) :: f.made.filter fun m => m.1 != c })

/-- The reason that an injected failure gives. -/
def reason : String := "injected"

end Faults

end DelayedQueue
