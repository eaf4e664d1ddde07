import DelayedQueue.Text.Utf8
import DelayedQueue.Text.Real

/-! # Numbers in JSON

A numeral keeps its digits as they were written. Read, it is an integer if it has no
point, no exponent and fits 64 bits, and a binary fraction otherwise. Fractions are
computed quickly rather than exactly: one rounding for the leading digits that fit
64 bits, one for the power of ten.
-/

namespace DelayedQueue.Json

def isDigit (b : UInt8) : Bool := 0x30 ≤ b && b ≤ 0x39

def digitsValue (ds : Bytes) : Nat := ds.foldl (fun n d => 10 * n + (d.toNat - 0x30)) 0

structure Exponent where
  negative : Bool
  digits : Bytes
  deriving DecidableEq, Repr

structure Numeral where
  negative : Bool
  whole : Bytes
  /-- Empty if there is no point. -/
  places : Bytes
  exponent : Option Exponent
  deriving DecidableEq, Repr

namespace Numeral

def scanExponent : Bytes → Option (Option Exponent × Bytes)
  | [] => some (none, [])
  | b :: bs =>
    if b = 0x65 ∨ b = 0x45 then
      let (negative, bs) := match bs with
        | 0x2D :: bs => (true, bs)
        | 0x2B :: bs => (false, bs)
        | bs => (false, bs)
      let digits := bs.takeWhile isDigit
      if digits.isEmpty then none else some (some ⟨negative, digits⟩, bs.dropWhile isDigit)
    else some (none, b :: bs)

def scanPlaces : Bytes → Option (Bytes × Bytes)
  | 0x2E :: bs =>
    let digits := bs.takeWhile isDigit
    if digits.isEmpty then none else some (digits, bs.dropWhile isDigit)
  | bs => some ([], bs)

/-- A leading zero stands alone before the point. -/
def wellFormedWhole (whole : Bytes) : Bool :=
  match whole with
  | [] => false
  | d :: ds => d != 0x30 || ds.isEmpty

def scan? (bs : Bytes) : Option (Numeral × Bytes) :=
  let (negative, bs) := match bs with
    | 0x2D :: bs => (true, bs)
    | bs => (false, bs)
  let whole := bs.takeWhile isDigit
  if wellFormedWhole whole then
    match scanPlaces (bs.dropWhile isDigit) with
    | none => none
    | some (places, bs) =>
      match scanExponent bs with
      | none => none
      | some (exponent, bs) => some (⟨negative, whole, places, exponent⟩, bs)
  else none

/-- What a numeral is read as. -/
inductive Value where
  | unsigned (n : Nat)
  | negative (n : Int)
  | fraction (x : Float)

/-- Takes digits into `n` while the result fits 64 bits, and says how many were left. -/
def accumulate : Nat → Bytes → Nat × Nat
  | n, [] => (n, 0)
  | n, d :: ds =>
    let n' := 10 * n + (d.toNat - 0x30)
    if n' < UInt64.size then accumulate n' ds else (n, ds.length + 1)

/-- Powers of ten up to `10 ^ 308`, each the nearest double. -/
def powerOfTen (e : Nat) : Float := Float.ofScientific 1 false e

/-- Divides by `10 ^ 308` until the rest of the exponent has a power of its own. -/
def scaleDown : Nat → Float → Nat → Float
  | 0, x, _ => x
  | fuel + 1, x, e =>
    if e ≤ 308 then x / powerOfTen e
    else if x == 0.0 then x
    else scaleDown fuel (x / powerOfTen 308) (e - 308)

/-- The value `significand · 10 ^ exponent`; `none` if that is past the largest double. -/
def scaled (significand : Nat) (exponent : Int) : Option Float :=
  let x := Float.ofNat significand
  if exponent < 0 then
    -- from the largest significand, three divisions reach zero
    some (scaleDown 4 x (-exponent).toNat)
  else if 308 < exponent then if significand = 0 then some 0.0 else none
  else
    let y := x * powerOfTen exponent.toNat
    if y.isInf then none else some y

def fraction? (n : Numeral) : Option Float :=
  let (s, dropped) := accumulate 0 n.whole
  let (s, left) := accumulate s n.places
  let base : Int := dropped - (n.places.length - left : Nat)
  let magnitude := match n.exponent with
    | none => scaled s base
    | some e =>
      let size := digitsValue e.digits
      if UInt32.size / 2 ≤ size then if s != 0 && !e.negative then none else some 0.0
      else scaled s (base + if e.negative then -(size : Int) else size)
  magnitude.map fun x => if n.negative then -x else x

/-- Minus zero and what does not fit 64 bits are fractions. -/
def read? (n : Numeral) : Option Value :=
  let size := digitsValue n.whole
  if n.places.isEmpty && n.exponent.isNone then
    if n.negative then
      if size = 0 ∨ UInt64.size / 2 < size then n.fraction?.map .fraction
      else some (.negative (-size))
    else if size < UInt64.size then some (.unsigned size)
    else n.fraction?.map .fraction
  else n.fraction?.map .fraction

end Numeral

end DelayedQueue.Json
