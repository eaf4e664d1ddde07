import DelayedQueue.Config.Value
import DelayedQueue.Panic

/-! # Paths of keys

A key may lead into a map or a sequence, as in `a.b[0]`. A value put at its end makes the
containers on the way, in place of what is there and is none, and lengthens sequences.
Negative subscripts count from the end.
-/

namespace DelayedQueue.Config

/-- Values by key, each key once. -/
abbrev Members := List (String × Value)

namespace Members

/-- Gives `key` a value, in place of the one it has. -/
def put : Members → String → Value → Members
  | [], key, v => [(key, v)]
  | m :: ms, key, v => if m.1 = key then (key, v) :: ms else m :: put ms key v

end Members

namespace Value

def items : Value → List Value
  | .sequence vs => vs
  | _ => []

def members : Value → Members
  | .map ms => ms
  | _ => []

mutual

/-- What is left under a key when a value comes to lie over another one: maps are merged
member by member, and all else replaces what was there. -/
def merge (old : Option Value) : Value → Value
  | .map ms => mergeAll (old.getD (.map [])) ms
  | v => v

def mergeAll (old : Value) : List (String × Value) → Value
  | [] => old
  | (k, v) :: ms => mergeAll (.map (old.members.put k (merge (old.members.lookup k) v))) ms

end

end Value

inductive Step where
  | member (key : String)
  | element (index : Int)
  deriving DecidableEq, Repr

structure Path where
  head : String
  steps : List Step
  deriving DecidableEq, Repr

namespace Path

section Reading

def isNameChar (c : Char) : Bool := c.isAlphanum || c == '_' || c == '-' || c == ' '

def isBlank (c : Char) : Bool := c == ' ' || c == '\t' || c == '\n' || c == '\r'

/-- An index in 63 bits, maybe below zero, with blanks around it. -/
def index? (cs : List Char) : Option Int :=
  let cs := ((cs.dropWhile isBlank).reverse.dropWhile isBlank).reverse
  if cs.head? = some '+' then none
  else match Decimal.parseSigned Value.signedLimit cs with
    | .ok n => some n
    | .error _ => none

def steps? : Nat → List Char → Option (List Step)
  | 0, _ => none
  | _ + 1, [] => some []
  | fuel + 1, '.' :: cs =>
    let name := cs.takeWhile isNameChar
    if name.isEmpty then none
    else (steps? fuel (cs.dropWhile isNameChar)).map (.member (String.ofList name) :: ·)
  | fuel + 1, '[' :: cs =>
    match index? (cs.takeWhile (· != ']')), cs.dropWhile (· != ']') with
    | some n, ']' :: rest => (steps? fuel rest).map (.element n :: ·)
    | _, _ => none
  | _, _ => none

/-- The path that a key spells, if it spells one. -/
def parse? (key : String) : Option Path :=
  let name := key.toList.takeWhile isNameChar
  let rest := key.toList.dropWhile isNameChar
  if name.isEmpty then none
  else (steps? (rest.length + 1) rest).map fun steps => ⟨String.ofList name, steps⟩

end Reading

/-- No sequence is longer. -/
def longest : Nat := 0x100000000

/-- The place that a subscript means in a sequence of this length. -/
def placeOf (index : Int) (length : Nat) : Except Panic Nat :=
  if 0 ≤ index then if index < longest then .ok index.toNat else .error .capacity
  else if index.natAbs ≤ length then .ok (length - index.natAbs)
  else .error .difference

/-- What becomes of a value, if there is one, when `v` is put at the end of these steps from
it. An element is replaced as a whole. -/
def fill (v : Value) : List Step → Option Value → Except Panic Value
  | [], old => .ok (Value.merge old v)
  | .member key :: steps, old =>
    let ms := (old.map Value.members).getD []
    (fill v steps (ms.lookup key)).map fun x => .map (ms.put key x)
  | .element index :: steps, old =>
    let vs := (old.map Value.items).getD []
    match placeOf index vs.length with
    | .error p => .error p
    | .ok n =>
      let vs := vs ++ List.replicate (n + 1 - vs.length) .null
      if steps.isEmpty then .ok (.sequence (vs.set n v))
      else (fill v steps vs[n]?).map fun x => .sequence (vs.set n x)

end Path

end DelayedQueue.Config
