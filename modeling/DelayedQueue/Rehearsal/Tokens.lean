import DelayedQueue.Limiter

/-! # Rehearsing a rate limiter

A caller takes tokens from one limiter while the clock stands on whole milliseconds.
A wait ends on the first of them that is not before its end.
-/

namespace DelayedQueue.Rehearsal

inductive TokenStep where
  /-- Acquires one after the other, waiting for each. -/
  | acquire (n : Nat)
  /-- As many callers acquire at once. -/
  | together (n : Nat)
  /-- Gives up after a while. The token stays spent. -/
  | abandon (ms : UInt64)
  | pass (ms : UInt64)
  deriving DecidableEq, Repr

/-- What a step tells, in milliseconds. -/
inductive TokenReply where
  | time (ms : Nat)
  | times (ms : List Nat)
  | given (granted : Bool) (ms : Nat)
  deriving DecidableEq, Repr

structure Tokens where
  limiter : Limiter
  begun : Instant
  now : Instant
  deriving DecidableEq, Repr

namespace Tokens

def clock (s : Tokens) : Nat := s.now.millisSince s.begun

/-- Reserves a token, and says when it will be granted. -/
def reserve (s : Tokens) : Except Panic (Instant × Tokens) :=
  match s.limiter.reserve s.now with
  | .error p => .error p
  | .ok (wait, limiter) =>
    let granted := if wait.isZero then s.now else (s.now.afterSleep wait).ceilMillis
    .ok (granted, { s with limiter })

def acquireAll : Nat → Tokens → Except Panic (List TokenReply × Tokens)
  | 0, s => .ok ([], s)
  | n + 1, s =>
    match s.reserve with
    | .error p => .error p
    | .ok (granted, s) =>
      match acquireAll n { s with now := granted } with
      | .error p => .error p
      | .ok (replies, s) => .ok (.time (granted.millisSince s.begun) :: replies, s)

def reserveAll : Nat → Tokens → Except Panic (List Instant × Tokens)
  | 0, s => .ok ([], s)
  | n + 1, s =>
    match s.reserve with
    | .error p => .error p
    | .ok (granted, s) =>
      match reserveAll n s with
      | .error p => .error p
      | .ok (grants, s) => .ok (granted :: grants, s)

def take (s : Tokens) : TokenStep → Except Panic (List TokenReply × Tokens)
  | .acquire n => s.acquireAll n
  | .together n =>
    match s.reserveAll n with
    | .error p => .error p
    | .ok (grants, s) =>
      let grants := grants.mergeSort
      .ok ([.times (grants.map (·.millisSince s.begun))], { s with now := grants.foldl max s.now })
  | .abandon ms =>
    match s.reserve with
    | .error p => .error p
    | .ok (granted, s) =>
      let limit := s.now.deadline (.ofMillis ms)
      let s := { s with now := min granted limit }
      .ok ([.given (granted ≤ limit) s.clock], s)
  | .pass ms =>
    let s := { s with now := s.now + (Duration.ofMillis ms).nanos }
    .ok ([.time s.clock], s)

def takeAll (s : Tokens) : List TokenStep → Except Panic (List TokenReply)
  | [] => .ok []
  | step :: steps =>
    match s.take step with
    | .error p => .error p
    | .ok (replies, s) => (s.takeAll steps).map (replies ++ ·)

/-- The replies to all steps, from a full bucket on. -/
def rehearse (r : RateLimit) (begun : Instant) (steps : List TokenStep) :
    Except Panic (List TokenReply) :=
  match Limiter.start r begun with
  | .error p => .error p
  | .ok limiter => takeAll ⟨limiter, begun, begun⟩ steps

end Tokens

end DelayedQueue.Rehearsal
