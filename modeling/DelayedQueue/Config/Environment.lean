import DelayedQueue.Config.Basic
import DelayedQueue.Text.Decimal

/-! # Configuration from variables

Seven variables replace defaults. They are read in a fixed order up to the first one
that is not a number in range, and the result is validated.
-/

namespace DelayedQueue

/-- Variables by name. -/
abbrev Environment := List (String × String)

def Environment.get? (e : Environment) (name : String) : Option String := e.lookup name

namespace Config

/-- What a numeric variable sets, and the largest number it takes. -/
structure Variable where
  name : String
  limit : Nat
  set : Config → Nat → Config

def wordLimit : Nat := UInt64.size - 1
def halfWordLimit : Nat := UInt32.size - 1

def numericVariables : List Variable :=
  [⟨"DQ_RETRY_INTERVAL_MS", wordLimit,
      fun c n => { c with retryInterval := .ofMillis (.ofNat n) }⟩,
    ⟨"DQ_RETRY_TIMES", halfWordLimit, fun c n => { c with retryTimes := .ofNat n }⟩,
    ⟨"DQ_WORKER_COUNT", wordLimit, fun c n => { c with workerCount := .ofNat n }⟩,
    ⟨"DQ_POLL_INTERVAL_MS", wordLimit,
      fun c n => { c with pollInterval := .ofMillis (.ofNat n) }⟩,
    ⟨"DQ_DAEMON_INTERVAL_MS", wordLimit,
      fun c n => { c with daemonInterval := .ofMillis (.ofNat n) }⟩,
    ⟨"DQ_CONSUME_TIMEOUT_MS", wordLimit,
      fun c n => { c with consumeTimeout := .ofMillis (.ofNat n) }⟩]

def Variable.read (v : Variable) (env : Environment) (c : Config) : Except QueueError Config :=
  match env.get? v.name with
  | none => .ok c
  | some raw =>
    match Decimal.parseUnsigned v.limit raw.toList with
    | .ok n => .ok (v.set c n)
    | .error f => .error (.configuration ("Invalid " ++ v.name ++ ": " ++ f.message))

def readVariables (env : Environment) : List Variable → Config → Except QueueError Config
  | [], c => .ok c
  | v :: vs, c =>
    match v.read env c with
    | .error e => .error e
    | .ok c => readVariables env vs c

def ofEnvironment (env : Environment) : Except QueueError Config :=
  let named : Config := { name := (env.get? "DQ_QUEUE_NAME").getD "default" }
  match readVariables env numericVariables named with
  | .error e => .error e
  | .ok c =>
    match c.validate with
    | .error e => .error e
    | .ok () => .ok c

end Config

end DelayedQueue
