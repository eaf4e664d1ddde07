import DelayedQueue.Panic
import DelayedQueue.Time.Basic

/-! # Message ids

Ids have the shape of a version 7 UUID: the milliseconds of the wall clock, the version,
and digits drawn at random. Those of one source share the stamp and the first draw and end
in a serial number, so they sort in the order in which they were made.
-/

namespace DelayedQueue.MessageId

def hex (width n : Nat) : List Char :=
  let ds := Nat.toDigits 16 n
  List.replicate (width - ds.length) '0' ++ ds

structure Source where
  /-- Milliseconds since 1970, as far as they fit 48 bits. -/
  stamp : Nat
  /-- What was drawn for this source. -/
  salt : Nat
  deriving DecidableEq, Repr

namespace Source

/-- A source that begins at `t`. No id can be stamped before 1970. -/
def ofTime (t : Time) (salt : Nat) : Source := ⟨t.millis.toNat % 0x1000000000000, salt⟩

/-- The source of an id that is made on its own. -/
def ofClock (t : Time) (salt : Nat) : Except Panic Source :=
  if t.nanos < 0 then .error (.idBeforeEpoch (.ofNanos (-t.nanos).toNat)) else .ok (ofTime t salt)

/-- All of an id but the serial number. -/
def head (s : Source) : List Char :=
  let stamp := hex 12 s.stamp
  stamp.take 8 ++ '-' :: stamp.drop 8 ++ '-' :: '7' :: hex 3 s.salt ++ "-8000-".toList

/-- The id of serial number `n`. -/
def id (s : Source) (n : Nat) : String := String.ofList (s.head ++ hex 12 n)

/-- Whether a text looks like an id of this source. -/
def isClaimedBy (s : Source) (text : String) : Bool := s.head.isPrefixOf text.toList

end Source

def digit? (c : Char) : Option Nat :=
  if '0' ≤ c ∧ c ≤ '9' then some (c.toNat - '0'.toNat)
  else if 'a' ≤ c ∧ c ≤ 'f' then some (c.toNat - 'a'.toNat + 10)
  else none

/-- The serial number of an id of this source. -/
def Source.serial? (s : Source) (id : String) : Option Nat :=
  let cs := id.toList
  if s.isClaimedBy id ∧ cs.length = s.head.length + 12 then
    ((cs.drop s.head.length).mapM digit?).map fun ds => ds.foldl (fun n d => 16 * n + d) 0
  else none

/-- A source none of whose ids is among these texts. Each text rules out one salt at most. -/
def Source.apartFrom (t : Time) (texts : List String) : Source :=
  let isApart (salt : Nat) : Bool := !texts.any (ofTime t salt).isClaimedBy
  .ofTime t (((List.range (texts.length + 1)).find? isApart).getD 0)

end DelayedQueue.MessageId
