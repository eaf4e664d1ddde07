import DelayedQueue.Text.Decimal
import DelayedQueue.Text.Real

/-! # Scalars in TOML

Strings in their four forms, and the words between blanks and punctuation: Booleans,
integers in four bases, fractions, dates and times. A date is kept as its normal text.
-/

namespace DelayedQueue.Toml

inductive Scalar where
  | bool (b : Bool)
  | integer (n : Int)
  | real (x : Float)
  | text (s : String)

abbrev Scan (α : Type) := Option (α × List Char)

def isBlank (c : Char) : Bool := c == ' ' || c == '\t'

/-- What may stand in a comment or a literal string. -/
def isPlain (c : Char) : Bool := c == '\t' || (' ' ≤ c && c != '\x7f')

def skipBlanks (cs : List Char) : List Char := cs.dropWhile isBlank

def lineBreak? : List Char → Option (List Char)
  | '\n' :: cs => some cs
  | '\r' :: '\n' :: cs => some cs
  | _ => none

section Strings

def hexValue? (c : Char) : Option Nat :=
  if '0' ≤ c ∧ c ≤ '9' then some (c.toNat - '0'.toNat)
  else if 'a' ≤ c ∧ c ≤ 'f' then some (c.toNat - 'a'.toNat + 10)
  else if 'A' ≤ c ∧ c ≤ 'F' then some (c.toNat - 'A'.toNat + 10)
  else none

/-- The character with these digits, unless it is a surrogate or past the last one. -/
def codePoint? (digits : List Char) : Option Char :=
  match digits.mapM hexValue? with
  | none => none
  | some ds =>
    let n := ds.foldl (fun n d => 16 * n + d) 0
    if n < 0xD800 ∨ (0xDFFF < n ∧ n < 0x110000) then some (Char.ofNat n) else none

def shortEscape? : Char → Option Char
  | 'b' => some '\x08'
  | 't' => some '\t'
  | 'n' => some '\n'
  | 'f' => some '\x0c'
  | 'r' => some '\r'
  | '"' => some '"'
  | '\\' => some '\\'
  | _ => none

/-- Reads what follows a backslash. -/
def escape? : List Char → Scan Char
  | 'u' :: a :: b :: c :: d :: cs => (codePoint? [a, b, c, d]).map fun x => (x, cs)
  | 'U' :: a :: b :: c :: d :: e :: f :: g :: h :: cs =>
    (codePoint? [a, b, c, d, e, f, g, h]).map fun x => (x, cs)
  | c :: cs => (shortEscape? c).map fun x => (x, cs)
  | [] => none

/-- The rest of a quoted string. Every step reads at least one character. -/
def basicFrom : Nat → List Char → Scan (List Char)
  | 0, _ => none
  | _ + 1, [] => none
  | fuel + 1, c :: cs =>
    if c = '"' then some ([], cs)
    else if c = '\\' then
      match escape? cs with
      | none => none
      | some (x, cs) => (basicFrom fuel cs).map fun (s, cs) => (x :: s, cs)
    else if isPlain c then (basicFrom fuel cs).map fun (s, cs) => (c :: s, cs)
    else none

def literalFrom (cs : List Char) : Scan (List Char) :=
  match cs.dropWhile fun c => isPlain c && c != '\'' with
  | '\'' :: rest => some (cs.takeWhile (fun c => isPlain c && c != '\''), rest)
  | _ => none

/-- Blanks and line breaks. -/
def skipSpace : List Char → List Char
  | [] => []
  | '\r' :: '\n' :: cs => skipSpace cs
  | c :: cs => if isBlank c || c == '\n' then skipSpace cs else c :: cs

/-- The rest of a string of several lines between threefold `quote`s; up to two more quotes
may stand before the closing ones. Only double quotes leave escapes their meaning. -/
def multilineFrom (quote : Char) : Nat → List Char → Scan (List Char)
  | 0, _ => none
  | _ + 1, [] => none
  | fuel + 1, c :: cs =>
    if c = quote then
      let run := (c :: cs).takeWhile (· == quote)
      if run.length < 3 then
        (multilineFrom quote fuel cs).map fun (s, cs) => (c :: s, cs)
      else
        let extra := min (run.length - 3) 2
        some (List.replicate extra quote, (c :: cs).drop (extra + 3))
    else if c = '\\' ∧ quote = '"' then
      match lineBreak? (skipBlanks cs) with
      | some cs => multilineFrom quote fuel (skipSpace cs)
      | none =>
        match escape? cs with
        | none => none
        | some (x, cs) => (multilineFrom quote fuel cs).map fun (s, cs) => (x :: s, cs)
    else if isPlain c then (multilineFrom quote fuel cs).map fun (s, cs) => (c :: s, cs)
    else match lineBreak? (c :: cs) with
      | none => none
      | some cs => (multilineFrom quote fuel cs).map fun (s, cs) => ('\n' :: s, cs)

/-- A line break right after the opening quotes does not count. -/
def multiline (quote : Char) (cs : List Char) : Scan (List Char) :=
  let cs := (lineBreak? cs).getD cs
  multilineFrom quote (cs.length + 1) cs

/-- A string of one line. -/
def lineString? : List Char → Scan (List Char)
  | '"' :: cs => basicFrom (cs.length + 1) cs
  | '\'' :: cs => literalFrom cs
  | _ => none

def string? : List Char → Scan (List Char)
  | '"' :: '"' :: '"' :: cs => multiline '"' cs
  | '\'' :: '\'' :: '\'' :: cs => multiline '\'' cs
  | cs => lineString? cs

end Strings

section Numbers

/-- Digits with single underscores between them, without the underscores. -/
def underscored? (isDigit : Char → Bool) : List Char → Option (List Char)
  | [] => none
  | [c] => if isDigit c then some [c] else none
  | c :: '_' :: cs => if isDigit c then (underscored? isDigit cs).map (c :: ·) else none
  | c :: cs => if isDigit c then (underscored? isDigit cs).map (c :: ·) else none

def splitSign : List Char → Bool × List Char
  | '-' :: cs => (true, cs)
  | '+' :: cs => (false, cs)
  | cs => (false, cs)

/-- Decimal digits without a leading zero. -/
def whole? (cs : List Char) : Option (List Char) :=
  match underscored? Char.isDigit cs with
  | some ['0'] => some ['0']
  | some ('0' :: _) => none
  | ds => ds

def inRange? (n : Int) : Option Int :=
  if -(UInt64.size / 2 : Nat) ≤ n ∧ n < (UInt64.size / 2 : Nat) then some n else none

def based? (base : Nat) (cs : List Char) : Option Int :=
  let isDigit (c : Char) : Bool := match hexValue? c with
    | some d => d < base
    | none => false
  match underscored? isDigit cs with
  | none => none
  | some ds => inRange? (ds.foldl (fun n c => base * n + (hexValue? c).getD 0) 0 : Nat)

def integer? : List Char → Option Int
  | '0' :: 'x' :: cs => based? 16 cs
  | '0' :: 'o' :: cs => based? 8 cs
  | '0' :: 'b' :: cs => based? 2 cs
  | cs =>
    let (negative, ds) := splitSign cs
    match whole? ds with
    | none => none
    | some ds =>
      let n : Int := Nat.ofDigitChars 10 ds 0
      inRange? (if negative then -n else n)

/-- The exponent of a fraction, with its letter; none is zero. -/
def exponent? : List Char → Option Int
  | [] => some 0
  | c :: cs =>
    if c = 'e' ∨ c = 'E' then
      let (negative, ds) := splitSign cs
      (underscored? Char.isDigit ds).map fun ds =>
        let n : Int := Nat.ofDigitChars 10 ds 0
        if negative then -n else n
    else none

def isExponentMark (c : Char) : Bool := c == 'e' || c == 'E'

/-- A fraction has a point, an exponent or both. Too large a positive one is refused. -/
def real? (cs : List Char) : Option Float :=
  let (negative, ds) := splitSign cs
  let special (x : Float) : Option Float := some (if negative then -x else x)
  if ds = ['i', 'n', 'f'] then special (1.0 / 0.0)
  else if ds = ['n', 'a', 'n'] then special (0.0 / 0.0)
  else
    let mantissa := ds.takeWhile fun c => !isExponentMark c
    let power := ds.dropWhile fun c => !isExponentMark c
    let places? : Option (List Char) :=
      match mantissa.dropWhile (· != '.') with
      | '.' :: places => underscored? Char.isDigit places
      | _ => if power.isEmpty then none else some []
    match whole? (mantissa.takeWhile (· != '.')), places?, exponent? power with
    | some whole, some places, some e =>
      let digits := Nat.ofDigitChars 10 (whole ++ places) 0
      let x := (Real.Literal.mk negative digits (e - places.length)).value
      if x.isInf && !negative then none else some x
    | _, _, _ => none

end Numbers

section Dates

def number? (cs : List Char) : Option Nat :=
  if cs.all Char.isDigit then some (Nat.ofDigitChars 10 cs 0) else none

def isLeapYear (y : Nat) : Bool := y % 4 == 0 && (y % 100 != 0 || y % 400 == 0)

def daysInMonth (y m : Nat) : Nat :=
  if m = 2 then if isLeapYear y then 29 else 28
  else if m = 4 ∨ m = 6 ∨ m = 9 ∨ m = 11 then 30
  else 31

/-- A date at the front, in its normal text. -/
def date? : List Char → Scan String
  | y1 :: y2 :: y3 :: y4 :: '-' :: m1 :: m2 :: '-' :: d1 :: d2 :: cs =>
    match number? [y1, y2, y3, y4], number? [m1, m2], number? [d1, d2] with
    | some y, some m, some d =>
      if 1 ≤ m ∧ m ≤ 12 ∧ 1 ≤ d ∧ d ≤ daysInMonth y m then
        some (String.ofList [y1, y2, y3, y4, '-', m1, m2, '-', d1, d2], cs)
      else none
    | _, _, _ => none
  | _ => none

/-- Nine places at most, and no zeros at their end. -/
def placesText (ds : List Char) : String :=
  let ds := ((ds.take 9).reverse.dropWhile (· == '0')).reverse
  if ds.isEmpty then "" else "." ++ String.ofList ds

def time? : List Char → Scan String
  | h1 :: h2 :: ':' :: m1 :: m2 :: ':' :: s1 :: s2 :: cs =>
    match number? [h1, h2], number? [m1, m2], number? [s1, s2] with
    | some h, some m, some s =>
      if h ≤ 23 ∧ m ≤ 59 ∧ s ≤ 60 then
        let clock := String.ofList [h1, h2, ':', m1, m2, ':', s1, s2]
        match cs with
        | '.' :: cs =>
          let ds := cs.takeWhile Char.isDigit
          if ds.isEmpty then none else some (clock ++ placesText ds, cs.dropWhile Char.isDigit)
        | cs => some (clock, cs)
      else none
    | _, _, _ => none
  | _ => none

/-- An offset from universal time; minus zero is plus zero. -/
def offset? : List Char → Option String
  | [] => some ""
  | ['z'] | ['Z'] => some "Z"
  | [sign, h1, h2, ':', m1, m2] =>
    match number? [h1, h2], number? [m1, m2] with
    | some h, some m =>
      if (sign = '+' ∨ sign = '-') ∧ h ≤ 23 ∧ m ≤ 59 then
        let sign := if sign = '-' ∧ h + m ≠ 0 then '-' else '+'
        some (String.ofList [sign, h1, h2, ':', m1, m2])
      else none
    | _, _ => none
  | _ => none

/-- A date, a time or both; after both an offset. -/
def moment? (cs : List Char) : Option String :=
  match date? cs with
  | some (d, []) => some d
  | some (d, c :: cs) =>
    if c = 'T' ∨ c = 't' ∨ c = ' ' then
      match time? cs with
      | some (t, cs) => (offset? cs).map fun o => d ++ "T" ++ t ++ o
      | none => none
    else none
  | none =>
    match time? cs with
    | some (t, []) => some t
    | _ => none

end Dates

def isWordChar (c : Char) : Bool :=
  c.isAlphanum || c == '+' || c == '-' || c == '_' || c == '.' || c == ':'

/-- The next word. A date takes the time after one blank with it. -/
def splitWord (cs : List Char) : List Char × List Char :=
  let word := cs.takeWhile isWordChar
  let rest := cs.dropWhile isWordChar
  match date? word, rest with
  | some (_, []), ' ' :: c :: more =>
    if c.isDigit then
      let time := (c :: more).takeWhile isWordChar
      (word ++ ' ' :: time, (c :: more).dropWhile isWordChar)
    else (word, rest)
  | _, _ => (word, rest)

def word? (word : List Char) : Option Scalar :=
  if word = ['t', 'r', 'u', 'e'] then some (.bool true)
  else if word = ['f', 'a', 'l', 's', 'e'] then some (.bool false)
  else match moment? word with
    | some s => some (.text s)
    | none =>
      match integer? word with
      | some n => some (.integer n)
      | none => (real? word).map .real

/-- A value that is no container. -/
def scalar? (cs : List Char) : Scan Scalar :=
  match cs with
  | '"' :: _ | '\'' :: _ => (string? cs).map fun (s, cs) => (.text (String.ofList s), cs)
  | cs =>
    let (word, rest) := splitWord cs
    (word? word).map fun v => (v, rest)

end DelayedQueue.Toml
