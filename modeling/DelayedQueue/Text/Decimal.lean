/-! # Decimal integers

Reading an integer goes digit by digit and stops at the first problem, so a digit
too many is noticed before anything wrong behind it.
-/

namespace DelayedQueue.Decimal

inductive Fault where
  | empty
  | invalidDigit
  | tooLarge
  | tooSmall
  deriving DecidableEq, Repr

def Fault.message : Fault → String
  | .empty => "cannot parse integer from empty string"
  | .invalidDigit => "invalid digit found in string"
  | .tooLarge => "number too large to fit in target type"
  | .tooSmall => "number too small to fit in target type"

def digit? (c : Char) : Option Nat :=
  if '0' ≤ c ∧ c ≤ '9' then some (c.toNat - '0'.toNat) else none

/-- Appends digits to `n`; `excess` is the fault once the limit is passed. -/
def readDigits (limit : Nat) (excess : Fault) : Nat → List Char → Except Fault Nat
  | n, [] => .ok n
  | n, c :: cs =>
    match digit? c with
    | none => .error .invalidDigit
    | some d =>
      if limit < 10 * n + d then .error excess else readDigits limit excess (10 * n + d) cs

/-- An unsigned integer up to `limit`, with an optional plus sign. -/
def parseUnsigned (limit : Nat) (cs : List Char) : Except Fault Nat :=
  match cs with
  | [] => .error .empty
  | ['+'] | ['-'] => .error .invalidDigit
  | '+' :: cs | cs => readDigits limit .tooLarge 0 cs

/-- A signed integer from `-limit - 1` to `limit`, with an optional sign. -/
def parseSigned (limit : Nat) (cs : List Char) : Except Fault Int :=
  match cs with
  | [] => .error .empty
  | ['+'] | ['-'] => .error .invalidDigit
  | '-' :: cs => (readDigits (limit + 1) .tooSmall 0 cs).map fun n => -(n : Int)
  | '+' :: cs | cs => (readDigits limit .tooLarge 0 cs).map Int.ofNat

/-- The number `n` in exactly `width` digits, with leading zeros. -/
def padded (width n : Nat) : String :=
  let ds := Nat.toDigits 10 n
  String.ofList (List.replicate (width - ds.length) '0' ++ ds)

/-- The digits of a fraction of `width` places, without trailing zeros. -/
def fraction (width n : Nat) : String :=
  String.ofList ((padded width n).toList.reverse.dropWhile (· == '0')).reverse

end DelayedQueue.Decimal
