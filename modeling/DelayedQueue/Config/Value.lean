import DelayedQueue.Text.Decimal
import DelayedQueue.Text.Quoted
import DelayedQueue.Text.Real

/-! # Values of settings

What a file or a variable holds for a key, and how it becomes the text or the number
that a field wants. No field wants a sequence or a map.
-/

namespace DelayedQueue.Config

inductive Value where
  | null
  | bool (b : Bool)
  /-- Within 64 bits with a sign. -/
  | integer (n : Int)
  | real (x : Float)
  | text (s : String)
  | sequence (items : List Value)
  /-- Keys are in lower case. -/
  | map (members : List (String × Value))

namespace Value

def signedLimit : Nat := UInt64.size / 2 - 1

/-- What a value is called when it is not what was wanted. -/
def describe : Value → String
  | .null => "unit value"
  | .bool b => "boolean `" ++ toString b ++ "`"
  | .integer n => "64-bit integer `" ++ toString n ++ "`"
  | .real x => "floating point `" ++ Real.text x ++ "`"
  | .text s => "string " ++ Text.quoted s
  | .sequence _ => "sequence"
  | .map _ => "map"

/-- A value that does not fit: what it is and what was wanted. -/
structure Mismatch where
  found : Value
  wanted : String

def Mismatch.message (m : Mismatch) : String :=
  "invalid type: " ++ m.found.describe ++ ", expected " ++ m.wanted

def toText : Value → Except Mismatch String
  | .bool b => .ok (toString b)
  | .integer n => .ok (toString n)
  | .real x => .ok (Real.text x)
  | .text s => .ok s
  | v => .error ⟨v, "a string"⟩

/-- Rounds a half away from zero, stops at both ends of the range, and makes NaN zero. -/
def roundToWord (x : Float) : UInt64 := x.round.toUInt64

def wordOfText (s : String) : Option Nat :=
  match s.toLower with
  | "true" | "on" | "yes" => some 1
  | "false" | "off" | "no" => some 0
  | _ =>
    match Decimal.parseUnsigned (UInt64.size - 1) s.toList with
    | .ok n => some n
    | .error _ => none

def toWord : Value → Except Mismatch UInt64
  | .bool b => .ok (if b then 1 else 0)
  | .integer n =>
    if 0 ≤ n then .ok (UInt64.ofNat n.toNat)
    else .error ⟨.integer n, "an unsigned 64 bit or less integer"⟩
  | .real x => .ok (roundToWord x)
  | .text s =>
    match wordOfText s with
    | some n => .ok (UInt64.ofNat n)
    | none => .error ⟨.text s, "an integer"⟩
  | v => .error ⟨v, "an integer"⟩

/-- Too large a number is reported as the unsigned integer that it has become. -/
def toHalfWord (v : Value) : Except String UInt32 :=
  match v.toWord with
  | .error m => .error m.message
  | .ok n =>
    if n.toNat < UInt32.size then .ok (UInt32.ofNat n.toNat)
    else .error ("invalid type: 64-bit unsigned integer `" ++ toString n ++
      "`, expected an unsigned 32 bit integer")

/-- The value of a variable: the first of a Boolean, an integer, a fraction and a text that
its spelling allows. -/
def ofVariable (s : String) : Value :=
  match s.toLower with
  | "true" => .bool true
  | "false" => .bool false
  | _ =>
    match Decimal.parseSigned signedLimit s.toList with
    | .ok n => .integer n
    | .error _ =>
      match Real.parse? s with
      | some x => .real x
      | none => .text s

end Value

end DelayedQueue.Config
