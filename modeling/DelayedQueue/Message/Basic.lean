import DelayedQueue.Text.Utf8
import DelayedQueue.Time.WallClock

/-! # Messages

A message as a handler receives it. Its times keep nanoseconds until it is written as a row.
-/

namespace DelayedQueue

structure Message where
  id : String
  payload : Bytes
  createAt : Time
  /-- The scheduled first delivery; without one the message is due at once. -/
  deliverAt : Option Time
  /-- The last take. -/
  redeliverAt : Option Time
  /-- How often the message has been handed to a handler. -/
  deliveries : UInt64
  deriving DecidableEq, Repr

namespace Message

/-- When the current delivery became due. -/
def dueSince (m : Message) : Time := (m.redeliverAt <|> m.deliverAt).getD m.createAt

def latency (m : Message) (now : Time) : Duration := now.since m.dueSince

def isImmediate (m : Message) (now : Time) : Bool :=
  match m.deliverAt with
  | none => true
  | some t => t ≤ now

/-- All that a row keeps: times in whole milliseconds. -/
def floorMillis (m : Message) : Message :=
  { m with
    createAt := m.createAt.floorMillis
    deliverAt := m.deliverAt.map Time.floorMillis
    redeliverAt := m.redeliverAt.map Time.floorMillis }

end Message

/-- A message that has not been produced yet. -/
structure Draft where
  payload : Bytes
  deliverAt : Option Time
  deriving DecidableEq, Repr

namespace Draft

def new (payload : Bytes) : Draft := ⟨payload, none⟩

def scheduledAt (d : Draft) (t : Time) : Draft := { d with deliverAt := some t }

/-- Due `delay` from `now`, or at the last time there is. -/
def scheduledAfter (d : Draft) (now : Time) (delay : Duration) : Draft :=
  d.scheduledAt (now.addOrLatest delay)

/-- The same by a clock. A delay that no time can be added to is cut without a look at it. -/
def scheduledBy (d : Draft) (clock : Except Panic Time) (delay : Duration) : Except Panic Draft :=
  if Time.longestSpan < delay then .ok (d.scheduledAt .latest)
  else clock.map fun now => d.scheduledAfter now delay

def toMessage (d : Draft) (id : String) (now : Time) : Message :=
  { id, payload := d.payload, createAt := now, deliverAt := d.deliverAt, redeliverAt := none,
    deliveries := 0 }

end Draft

end DelayedQueue
