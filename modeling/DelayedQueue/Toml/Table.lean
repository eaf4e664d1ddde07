import DelayedQueue.Toml.Scalar

/-! # Tables in TOML

A table comes to be by its header, by a header further down its path, or by a dotted
key. Which of them it was decides how it may be extended later. A table that was
written inline is a value and never extended.
-/

namespace DelayedQueue.Toml

inductive Origin where
  | header
  /-- A part of another header's path. -/
  | path
  | dotted
  deriving DecidableEq, Repr

inductive Item where
  | scalar (s : Scalar)
  | array (items : List Item)
  /-- A table written inline. -/
  | inlined (members : List (String × Item))
  | table (origin : Origin) (members : List (String × Item))
  /-- An array of tables, of which only the last is open. -/
  | tables (closed : List (List (String × Item))) (last : List (String × Item))

abbrev Members := List (String × Item)

namespace Members

def get? (ms : Members) (key : String) : Option Item := ms.lookup key

def set (ms : Members) (key : String) (item : Item) : Members :=
  (key, item) :: ms.filter fun m => m.1 != key

/-- Changes the table at the end of `path`, making the tables on the way as `made`. A dotted
key may not go through a table that has had its header. -/
def alter (made : Origin) (f : Origin → Members → Option Members) :
    List String → Origin → Members → Option Members
  | [], origin, ms => f origin ms
  | key :: path, _, ms =>
    match ms.get? key with
    | none => (alter made f path made []).map fun inner => ms.set key (.table made inner)
    | some (.scalar _) | some (.array _) | some (.inlined _) => none
    | some (.table origin inner) =>
      if made = .dotted ∧ origin = .header then none
      else (alter made f path origin inner).map fun inner => ms.set key (.table origin inner)
    | some (.tables closed last) =>
      (alter made f path .header last).map fun last => ms.set key (.tables closed last)

/-- Gives `key` a value in the table that `path` leads to. That table has to be dotted like
the path, unless there is no path. -/
def put (path : List String) (key : String) (v : Item) (ms : Members) : Option Members :=
  alter .dotted
    (fun origin inner =>
      if (path.isEmpty || origin == .dotted) && (inner.get? key).isNone then
        some (inner.set key v)
      else none)
    path .header ms

/-- Opens a table by its header. -/
def openTable (path : List String) (key : String) (ms : Members) : Option Members :=
  alter .path
    (fun _ inner =>
      match inner.get? key with
      | none => some (inner.set key (.table .header []))
      | some (.table .path members) => some (inner.set key (.table .header members))
      | some _ => none)
    path .header ms

/-- Adds a table to the array of tables under `key`. -/
def openElement (path : List String) (key : String) (ms : Members) : Option Members :=
  alter .path
    (fun _ inner =>
      match inner.get? key with
      | none => some (inner.set key (.tables [] []))
      | some (.tables closed last) => some (inner.set key (.tables (closed ++ [last]) []))
      | some _ => none)
    path .header ms

/-- As `put`, counting the path from the table that `header` leads to. -/
def putBelow (header path : List String) (key : String) (v : Item) (ms : Members) :
    Option Members :=
  alter .path (fun _ inner => put path key v inner) header .header ms

end Members

end DelayedQueue.Toml
