import DelayedQueue.Json.Printer
import DelayedQueue.Rehearsal.Scenario

/-! # The record of a rehearsal

What a run leaves behind, by kind: what handlers reported, message by message, what was
observed of their outcomes, and what was logged. Observations and log events of one
instant stand in the order of their written forms.
-/

namespace DelayedQueue.Rehearsal

section Order

def bytesLe : Bytes → Bytes → Bool
  | [], _ => true
  | _ :: _, [] => false
  | a :: as, b :: bs => a < b || (a == b && bytesLe as bs)

/-- Sorts by time in milliseconds and then by written form. -/
def sortWritten {α : Type} (written : Nat × α → Bytes) (xs : List (Nat × α)) : List (Nat × α) :=
  let keyed := xs.map fun x => (written x, x)
  (keyed.mergeSort fun a b =>
    a.2.1 < b.2.1 || (a.2.1 == b.2.1 && bytesLe a.1 b.1)).map Prod.snd

end Order

/-- The journal from its beginning, with times in milliseconds. -/
def entries (q : Queue) : List (Nat × Entry) :=
  q.journal.reverse.map fun (t, e) => (t.millisSince q.begun.instant, e)

section Reports

/-- What was reported of messages, under their names. -/
def reports (q : Queue) : List (String × Nat × Report) :=
  (entries q).filterMap fun
    | (t, .report id r) => some (q.nameOf id, t, r.mapId q.nameOf)
    | _ => none

/-- The messages in the order in which their handlers started. -/
def order (q : Queue) : List String :=
  (reports q).filterMap fun
    | (name, _, .started ..) => some name
    | _ => none

def reportedNames (q : Queue) : List String := ((reports q).map Prod.fst).eraseDups

def reportsOf (q : Queue) (name : String) : List (Nat × Report) :=
  (reports q).filterMap fun (n, r) => if n = name then some r else none

end Reports

section Observations

structure Observation where
  latency : Duration
  deliveries : UInt64
  outcome : Outcome
  deriving DecidableEq, Repr

def writtenObservation (x : Nat × Observation) : Bytes :=
  Json.array [Json.digits x.1,
    Json.array [Json.digits x.2.latency.seconds, Json.digits x.2.latency.subsecNanos],
    Json.digits x.2.deliveries.toNat, Json.quote x.2.outcome.text]

def observations (q : Queue) : List (Nat × Observation) :=
  sortWritten writtenObservation <| (entries q).filterMap fun
    | (t, .observed latency deliveries outcome) => some (t, ⟨latency, deliveries, outcome⟩)
    | _ => none

end Observations

section Logs
open Log (Event Level Value)

def writtenValue : Value → Bytes
  | .bare s | .text s => Json.quote s
  | .number n => Json.digits n
  | .flag b => Utf8.encode (toString b)
  | .unset => Utf8.encode "null"

def writtenEvent (x : Nat × Event) : Bytes :=
  let fields := x.2.recorded.mergeSort fun a b => a.1 ≤ b.1
  Json.array [Json.digits x.1, Json.quote x.2.level.name, Json.quote x.2.message,
    Json.object (fields.map fun f => Json.member f.1 (writtenValue f.2))]

/-- The log, as far as it is at least as severe as `least`. -/
def log (q : Queue) (least : Level) : List (Nat × Event) :=
  let events : List (Nat × Event) := (entries q).filterMap fun
    | (t, .notice n) => some (t, n.event q.config.name q.nameOf)
    | _ => none
  -- the configuration was validated when the queue was made
  let events := q.config.warnings.map (fun e => (0, e)) ++ events
  sortWritten writtenEvent (events.filter fun x => x.2.level.reaches least)

end Logs

end DelayedQueue.Rehearsal
