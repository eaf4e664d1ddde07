/-! # UTF-8

Characters are written as one to four bytes and read back one byte at a time.
The reader knows, between bytes, how many are still owed and in which range the
next one lies, so overlong forms, surrogates and values past the last code point
are refused at the first byte that rules them out.
-/

namespace DelayedQueue

abbrev Bytes := List UInt8

namespace Utf8

def encodeChar (c : Char) : Bytes :=
  let n := c.toNat
  if n < 0x80 then [n.toUInt8]
  else if n < 0x800 then [(0xC0 + n / 0x40).toUInt8, (0x80 + n % 0x40).toUInt8]
  else if n < 0x10000 then
    [(0xE0 + n / 0x1000).toUInt8, (0x80 + n / 0x40 % 0x40).toUInt8, (0x80 + n % 0x40).toUInt8]
  else
    [(0xF0 + n / 0x40000).toUInt8, (0x80 + n / 0x1000 % 0x40).toUInt8,
      (0x80 + n / 0x40 % 0x40).toUInt8, (0x80 + n % 0x40).toUInt8]

def encodeChars (cs : List Char) : Bytes := cs.flatMap encodeChar

def encode (s : String) : Bytes := encodeChars s.toList

/-- Where the reader stands between two bytes. -/
inductive State where
  | start
  /-- The bits read so far, the bytes owed after the next one, and the range of the next one. -/
  | inside (bits owed low high : Nat)
  deriving DecidableEq, Repr

/-- What one byte adds: a character, more of one, or nothing well formed. -/
inductive Step where
  | char (c : Char)
  | more (s : State)
  | illFormed
  deriving DecidableEq, Repr

def lead (b : Nat) : Step :=
  if b < 0x80 then .char (Char.ofNat b)
  else if b < 0xC2 then .illFormed
  else if b < 0xE0 then .more (.inside (b - 0xC0) 0 0x80 0xBF)
  else if b < 0xF0 then
    .more (.inside (b - 0xE0) 1 (if b = 0xE0 then 0xA0 else 0x80) (if b = 0xED then 0x9F else 0xBF))
  else if b < 0xF5 then
    .more (.inside (b - 0xF0) 2 (if b = 0xF0 then 0x90 else 0x80) (if b = 0xF4 then 0x8F else 0xBF))
  else .illFormed

def step : State → UInt8 → Step
  | .start, b => lead b.toNat
  | .inside bits owed low high, b =>
    if low ≤ b.toNat ∧ b.toNat ≤ high then
      let bits := bits * 0x40 + b.toNat % 0x40
      match owed with
      | 0 => .char (Char.ofNat bits)
      | owed + 1 => .more (.inside bits owed 0x80 0xBF)
    else .illFormed

def decodeFrom : State → Bytes → Option (List Char)
  | .start, [] => some []
  | .inside .., [] => none
  | s, b :: bs =>
    match step s b with
    | .char c => (decodeFrom .start bs).map (c :: ·)
    | .more s => decodeFrom s bs
    | .illFormed => none

/-- The characters of `bs`, if it is well formed throughout. -/
def decode? (bs : Bytes) : Option (List Char) := decodeFrom .start bs

def replacement : Char := '\uFFFD'

/-- Each longest ill-formed piece becomes one replacement character; the byte that
broke a piece off is read again as the start of the next one. -/
def decodeLossyFrom : State → Bytes → List Char
  | .start, [] => []
  | .inside .., [] => [replacement]
  | s, b :: bs =>
    match step s b with
    | .char c => c :: decodeLossyFrom .start bs
    | .more s => decodeLossyFrom s bs
    | .illFormed =>
      match s with
      | .start => replacement :: decodeLossyFrom .start bs
      | .inside .. =>
        replacement :: match lead b.toNat with
          | .char c => c :: decodeLossyFrom .start bs
          | .more s => decodeLossyFrom s bs
          | .illFormed => replacement :: decodeLossyFrom .start bs

def decodeLossy (bs : Bytes) : String := String.ofList (decodeLossyFrom .start bs)

end Utf8

end DelayedQueue
