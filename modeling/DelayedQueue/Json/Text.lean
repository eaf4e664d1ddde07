import DelayedQueue.Text.Utf8

/-! # Strings in JSON

A string is scanned before it is read. Scanning checks escapes and control characters
and finds the closing quote; reading also wants paired surrogates and valid UTF-8, so
a string that is only skipped may lack both.
-/

namespace DelayedQueue.Json

def quoteMark : UInt8 := 0x22
def backslash : UInt8 := 0x5C

def hexDigit? (b : UInt8) : Option Nat :=
  let n := b.toNat
  if 0x30 ≤ n ∧ n ≤ 0x39 then some (n - 0x30)
  else if 0x41 ≤ n ∧ n ≤ 0x46 then some (n - 0x37)
  else if 0x61 ≤ n ∧ n ≤ 0x66 then some (n - 0x57)
  else none

def hexUnit? (a b c d : UInt8) : Option Nat :=
  match hexDigit? a, hexDigit? b, hexDigit? c, hexDigit? d with
  | some a, some b, some c, some d => some (((a * 16 + b) * 16 + c) * 16 + d)
  | _, _, _, _ => none

/-- The byte that a one-letter escape stands for. -/
def shortEscape? (b : UInt8) : Option UInt8 :=
  match b with
  | 0x22 => some 0x22
  | 0x5C => some 0x5C
  | 0x2F => some 0x2F
  | 0x62 => some 0x08
  | 0x66 => some 0x0C
  | 0x6E => some 0x0A
  | 0x72 => some 0x0D
  | 0x74 => some 0x09
  | _ => none

/-- The bytes between the quotes, as written. -/
structure Text where
  body : Bytes
  deriving DecidableEq, Repr, Inhabited

namespace Text

/-- Splits off the body of a string whose opening quote has been read. -/
def scanBody : Bytes → Option (Bytes × Bytes)
  | [] => none
  | b :: bs =>
    if b = quoteMark then some ([], bs)
    else if b = backslash then
      match bs with
      | [] => none
      | 0x75 :: p :: q :: r :: s :: bs =>
        match hexUnit? p q r s with
        | none => none
        | some _ =>
          (scanBody bs).map fun (body, rest) => (b :: 0x75 :: p :: q :: r :: s :: body, rest)
      | e :: bs =>
        match shortEscape? e with
        | none => none
        | some _ => (scanBody bs).map fun (body, rest) => (b :: e :: body, rest)
    else if b < 0x20 then none
    else (scanBody bs).map fun (body, rest) => (b :: body, rest)

def scan? (bs : Bytes) : Option (Text × Bytes) :=
  (scanBody bs).map fun (body, rest) => (⟨body⟩, rest)

def isHighSurrogate (n : Nat) : Bool := 0xD800 ≤ n && n < 0xDC00
def isLowSurrogate (n : Nat) : Bool := 0xDC00 ≤ n && n < 0xE000

def unescape : Bytes → Option Bytes
  | [] => some []
  | b :: bs =>
    if b = backslash then
      match bs with
      | 0x75 :: p :: q :: r :: s :: bs =>
        match hexUnit? p q r s with
        | none => none
        | some n =>
          if isHighSurrogate n then
            match bs with
            | 0x5C :: 0x75 :: p :: q :: r :: s :: bs =>
              match hexUnit? p q r s with
              | none => none
              | some m =>
                if isLowSurrogate m then
                  let c := Char.ofNat (0x10000 + (n - 0xD800) * 0x400 + (m - 0xDC00))
                  (unescape bs).map (Utf8.encodeChar c ++ ·)
                else none
            | _ => none
          else if isLowSurrogate n then none
          else (unescape bs).map (Utf8.encodeChar (Char.ofNat n) ++ ·)
      | e :: bs =>
        match shortEscape? e with
        | none => none
        | some e => (unescape bs).map (e :: ·)
      | [] => none
    else (unescape bs).map (b :: ·)

/-- The string itself, if it can be read. -/
def value? (t : Text) : Option String :=
  match unescape t.body with
  | none => none
  | some bs => (Utf8.decode? bs).map String.ofList

end Text

def hexDigitByte (n : Nat) : UInt8 := (if n < 10 then 0x30 + n else 0x57 + n).toUInt8

/-- Only quotes, backslashes and controls are escaped. -/
def escape (c : Char) : Bytes :=
  match c with
  | '"' => [backslash, 0x22]
  | '\\' => [backslash, 0x5C]
  | '\x08' => [backslash, 0x62]
  | '\x0c' => [backslash, 0x66]
  | '\n' => [backslash, 0x6E]
  | '\r' => [backslash, 0x72]
  | '\t' => [backslash, 0x74]
  | c =>
    if c.toNat < 0x20 then
      [backslash, 0x75, 0x30, 0x30, hexDigitByte (c.toNat / 16), hexDigitByte (c.toNat % 16)]
    else Utf8.encodeChar c

def quote (s : String) : Bytes := quoteMark :: (s.toList.flatMap escape ++ [quoteMark])

end DelayedQueue.Json
