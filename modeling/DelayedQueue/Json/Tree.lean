import DelayedQueue.Json.Text
import DelayedQueue.Json.Numeral

/-! # Reading JSON

A text is read into a tree from the front. Where it stops being JSON the tree ends:
the value at that place is `broken`, and every array and object around it stays open.
Whoever walks the tree in document order therefore meets its problems in the order in
which they stand in the text, whether they lie in the syntax or in the meaning.
-/

namespace DelayedQueue.Json

inductive Tree where
  | null
  | bool (b : Bool)
  | number (n : Numeral)
  | string (t : Text)
  | array (items : List Tree) (closed : Bool)
  | object (members : List (Text × Tree)) (closed : Bool)
  | broken
  deriving Repr

def isBlank (b : UInt8) : Bool := b == 0x20 || b == 0x09 || b == 0x0A || b == 0x0D

def skipBlanks (bs : Bytes) : Bytes := bs.dropWhile isBlank

def literals : List (Bytes × Tree) :=
  [([0x6E, 0x75, 0x6C, 0x6C], .null), ([0x74, 0x72, 0x75, 0x65], .bool true),
    ([0x66, 0x61, 0x6C, 0x73, 0x65], .bool false)]

/-- A value that is neither a string nor a container. -/
def readScalar (bs : Bytes) : Tree × Option Bytes :=
  match literals.find? fun l => l.1.isPrefixOf bs with
  | some (word, t) => (t, some (bs.drop word.length))
  | none =>
    match Numeral.scan? bs with
    | some (n, rest) => (.number n, some rest)
    | none => (.broken, none)

/- Each reader returns what it has read and, unless it met a fault, the rest of the text. -/
mutual

def readValue : Nat → Bytes → Tree × Option Bytes
  | 0, _ => (.broken, none)
  | fuel + 1, bs =>
    match skipBlanks bs with
    | [] => (.broken, none)
    | b :: rest =>
      if b = quoteMark then
        match Text.scan? rest with
        | some (t, rest) => (.string t, some rest)
        | none => (.broken, none)
      else if b = 0x5B then
        match skipBlanks rest with
        | 0x5D :: rest => (.array [] true, some rest)
        | rest =>
          let (items, after) := readItems fuel rest
          (.array items after.isSome, after)
      else if b = 0x7B then
        match skipBlanks rest with
        | 0x7D :: rest => (.object [] true, some rest)
        | rest =>
          let (members, after) := readMembers fuel rest
          (.object members after.isSome, after)
      else readScalar (b :: rest)

def readItems : Nat → Bytes → List Tree × Option Bytes
  | 0, _ => ([], none)
  | fuel + 1, bs =>
    match readValue fuel bs with
    | (t, none) => ([t], none)
    | (t, some rest) =>
      match skipBlanks rest with
      | 0x2C :: rest =>
        let (items, after) := readItems fuel rest
        (t :: items, after)
      | 0x5D :: rest => ([t], some rest)
      | _ => ([t], none)

def readMembers : Nat → Bytes → List (Text × Tree) × Option Bytes
  | 0, _ => ([], none)
  | fuel + 1, bs =>
    match skipBlanks bs with
    | 0x22 :: rest =>
      match Text.scan? rest with
      | none => ([], none)
      | some (key, rest) =>
        match skipBlanks rest with
        | 0x3A :: rest =>
          match readValue fuel rest with
          | (t, none) => ([(key, t)], none)
          | (t, some rest) =>
            match skipBlanks rest with
            | 0x2C :: rest =>
              let (members, after) := readMembers fuel rest
              ((key, t) :: members, after)
            | 0x7D :: rest => ([(key, t)], some rest)
            | _ => ([(key, t)], none)
        | _ => ([(key, .broken)], none)
    | _ => ([], none)

end

/-- Every two calls consume a byte, so the text is never longer than the fuel. -/
def read (bs : Bytes) : Tree × Option Bytes := readValue (2 * bs.length + 2) bs

/-- Nothing but blanks after the value. -/
def endsClean : Option Bytes → Bool
  | none => false
  | some rest => (skipBlanks rest).isEmpty

mutual

/-- Whether the tree was read to its end. -/
def Tree.intact : Tree → Bool
  | .array items closed => Tree.allIntact items && closed
  | .object members closed => Tree.membersIntact members && closed
  | .broken => false
  | _ => true

def Tree.allIntact : List Tree → Bool
  | [] => true
  | t :: ts => t.intact && Tree.allIntact ts

def Tree.membersIntact : List (Text × Tree) → Bool
  | [] => true
  | (_, t) :: ms => t.intact && Tree.membersIntact ms

end

end DelayedQueue.Json
