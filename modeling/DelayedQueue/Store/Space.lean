import Std.Data.ExtTreeMap
import Std.Data.ExtTreeSet
import DelayedQueue.Message.Row

/-! # The space of one queue

A list of ready ids, the pending ids with the times at which they fall due, and the rows.
Pending ids are indexed twice, by id and by due time.
-/

namespace DelayedQueue

open Std (ExtTreeMap ExtTreeSet)

/-- Milliseconds since 1970 in 64 signed bits. -/
abbrev Score := Int

namespace Score

def highest : Score := 9223372036854775807

/-- The score `s` moved on by whole milliseconds, up to the highest score. -/
def addMillis (s : Score) (d : Duration) : Score := min (s + min (d.millis : Int) highest) highest

/-- Earlier scores first, then ids by their bytes. -/
def order : Score × String → Score × String → Ordering :=
  compareLex (compareOn Prod.fst) (compareOn Prod.snd)

end Score

structure Space where
  ready : List String
  pending : ExtTreeMap String Score
  schedule : ExtTreeSet (Score × String) Score.order
  rows : ExtTreeMap String Bytes

/-- What a take found. -/
inductive Take where
  | empty
  | taken (row : Bytes)
  | exhausted (id : String) (deliveries : UInt64)
  deriving DecidableEq, Repr

structure Stats where
  ready : Nat
  pending : Nat
  stored : Nat
  deriving DecidableEq, Repr

namespace Space

instance : Std.TransCmp Score.order := inferInstanceAs (Std.TransCmp (compareLex _ _))

def empty : Space := ⟨[], ∅, ∅, ∅⟩

def stats (s : Space) : Stats := ⟨s.ready.length, s.pending.size, s.rows.size⟩

def row? (s : Space) (id : String) : Option Bytes := s.rows[id]?
def score? (s : Space) (id : String) : Option Score := s.pending[id]?
def isReady (s : Space) (id : String) : Bool := s.ready.contains id

def disarm (s : Space) (id : String) : Space :=
  match s.pending[id]? with
  | none => s
  | some due => { s with pending := s.pending.erase id, schedule := s.schedule.erase (due, id) }

/-- Makes `id` fall due at `due` and at no other time. -/
def arm (s : Space) (id : String) (due : Score) : Space :=
  let s := s.disarm id
  { s with pending := s.pending.insert id due, schedule := s.schedule.insert (due, id) }

def putRow (s : Space) (id : String) (row : Bytes) : Space :=
  { s with rows := s.rows.insert id row }

def dropRow (s : Space) (id : String) : Space := { s with rows := s.rows.erase id }

def produce (s : Space) (m : Message) (now : Time) : Space :=
  let s := s.putRow m.id (Row.encode m)
  match m.deliverAt with
  | none => { s with ready := s.ready ++ [m.id] }
  | some t =>
    if m.isImmediate now then { s with ready := s.ready ++ [m.id] } else s.arm m.id t.millis

/-- Pops the first ready id. Its message is counted, stamped and armed for a retry before
it is handed out, so a failing handler has nothing to undo. A row that cannot be read is
handed out as it is. -/
def takeOne (s : Space) (retry : Duration) (maxDeliveries : UInt64) (now : Time) : Take × Space :=
  match s.ready with
  | [] => (.empty, s)
  | id :: ready =>
    let s := { s with ready }
    match s.rows[id]? with
    | none => (.empty, s.disarm id)
    | some row =>
      let due := Score.addMillis now.millis retry
      match Row.decode row with
      | .error _ => (.taken row, s.arm id due)
      | .ok m =>
        if maxDeliveries ≤ m.deliveries then
          (.exhausted id m.deliveries, (s.dropRow id).disarm id)
        else
          let row := Row.encode { m with deliveries := m.deliveries + 1, redeliverAt := some now }
          (.taken row, (s.putRow id row).arm id due)

/-- Whether the next take would only find out that a ready id has lost its row. -/
def danglingHead? (s : Space) : Option String :=
  match s.ready with
  | [] => none
  | id :: _ => if s.rows.contains id then none else some id

def commit (s : Space) (id : String) : Bool × Space :=
  (s.rows.contains id, (s.disarm id).dropRow id)

def reschedule (s : Space) (id : String) (t : Time) : Bool × Space :=
  match s.rows[id]? with
  | none => (false, s)
  | some row =>
    let s := match Row.decode row with
      | .error _ => s
      | .ok m => s.putRow id (Row.encode { m with deliverAt := some t })
    (true, { s with ready := s.ready.filter (· != id) }.arm id t.millis)

/-- The first `limit` entries that have fallen due. -/
def dueEntries (s : Space) (now : Time) (limit : Nat) : List (Score × String) :=
  (s.schedule.toList.takeWhile fun e => e.1 ≤ now.millis).take limit

def promoteEntry (s : Space) (e : Score × String) : Space :=
  { s with
    schedule := s.schedule.erase e
    pending := s.pending.erase e.2
    ready := s.ready ++ [e.2] }

def promoteDue (s : Space) (now : Time) (limit : Nat) : Nat × Space :=
  let due := s.dueEntries now limit
  (due.length, due.foldl promoteEntry s)

end Space

end DelayedQueue
