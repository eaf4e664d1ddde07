/-! # Patterns

A filter can ask that a field match a regular expression. Nothing is ever matched here,
since no event of a queue happens in a span; only whether a text is a pattern matters, for
a filter with anything else is refused. Classes and word boundaries that need to
know all letters are not among the patterns.
-/

namespace DelayedQueue.Log

namespace Pattern

inductive Token where
  /-- With the meaning that patterns give to it. -/
  | mark (c : Char)
  /-- Standing for itself. -/
  | literal (c : Char)
  /-- The beginning or the end of the text. -/
  | anchor
  deriving DecidableEq, Repr

def hexDigit? (c : Char) : Option Nat :=
  if '0' ≤ c ∧ c ≤ '9' then some (c.toNat - '0'.toNat)
  else if 'a' ≤ c ∧ c ≤ 'f' then some (c.toNat - 'a'.toNat + 10)
  else if 'A' ≤ c ∧ c ≤ 'F' then some (c.toNat - 'A'.toNat + 10)
  else none

def hexLiteral? (cs : List Char) : Option Token :=
  match cs.mapM hexDigit? with
  | none => none
  | some ds =>
    let n := ds.foldl (fun n d => 16 * n + d) 0
    if n.isValidChar then some (.literal (Char.ofNat n)) else none

/-- What a backslash makes of the character behind it. -/
def escaped? (c : Char) : Option Token :=
  if ['a', 'f', 'n', 'r', 't', 'v'].contains c then some (.literal c)
  else if c = 'A' ∨ c = 'z' then some .anchor
  else if c.toNat < 128 ∧ !c.isAlphanum ∧ c ≠ '<' ∧ c ≠ '>' then some (.literal c)
  else none

def tokens? : List Char → Option (List Token)
  | [] => some []
  | '\\' :: 'x' :: a :: b :: cs => do return (← hexLiteral? [a, b]) :: (← tokens? cs)
  | '\\' :: 'u' :: a :: b :: c :: d :: cs => do
    return (← hexLiteral? [a, b, c, d]) :: (← tokens? cs)
  | '\\' :: 'U' :: a :: b :: c :: d :: e :: f :: g :: h :: cs => do
    return (← hexLiteral? [a, b, c, d, e, f, g, h]) :: (← tokens? cs)
  | ['\\'] => none
  | '\\' :: c :: cs => do return (← escaped? c) :: (← tokens? cs)
  | c :: cs => (tokens? cs).map (.mark c :: ·)

/-- The character that a token stands for in a set. -/
def Token.char? : Token → Option Char
  | .mark c | .literal c => some c
  | .anchor => none

/-- What follows the first signs of a set, which stand for themselves. -/
def setBody (ts : List Token) : List Token :=
  let ts := if ts.head? = some (.mark '^') then ts.drop 1 else ts
  let body := ts.dropWhile (· == .mark '-')
  if body.length = ts.length ∧ body.head? = some (.mark ']') then body.drop 1 else body

/-- What follows a set that stands `depth + 1` deep. The fuel is the number of tokens. -/
def afterSet? : Nat → Nat → List Token → Option (List Token)
  | 0, _, _ => none
  | _, _, [] => none
  | fuel + 1, depth, t :: ts =>
    if t = .mark '[' then afterSet? fuel (depth + 1) (setBody ts)
    else if t = .mark ']' then
      match depth with
      | 0 => some ts
      | depth + 1 => afterSet? fuel depth ts
    else
      match t.char?, ts with
      | none, _ => none
      | some low, .mark '-' :: t :: rest =>
        if t = .mark ']' ∨ t = .mark '-' ∨ low = '-' ∧ (ts.head? = some (.mark '-')) then
          afterSet? fuel depth ts
        else
          match t.char? with
          | some high => if low ≤ high then afterSet? fuel depth rest else none
          | none => none
      | some _, _ => afterSet? fuel depth ts

/-- What follows the name of a group. -/
def afterName? : List Token → Option (List Token)
  | .mark '>' :: ts => some ts
  | .mark c :: ts => if c.isAlphanum || c == '_' then afterName? ts else none
  | _ => none

/-- Options switch on or, behind a minus, off. They end the group or open it. -/
def afterOptions? : List Token → Option (Bool × List Token)
  | .mark ')' :: ts => some (false, ts)
  | .mark ':' :: ts => some (true, ts)
  | .mark c :: ts =>
    if ['m', 's', 'u', 'U', 'R', 'x', '-'].contains c then afterOptions? ts else none
  | _ => none

/-- What follows the beginning of a group, and whether the group is open then. -/
def afterOpening? : List Token → Option (Bool × List Token)
  | .mark '?' :: .mark 'P' :: .mark '<' :: ts | .mark '?' :: .mark '<' :: ts =>
    if ts.head? = some (.mark '>') then none else (afterName? ts).map fun ts => (true, ts)
  | .mark '?' :: .mark ')' :: _ => none
  | .mark '?' :: ts => afterOptions? ts
  | ts => some (true, ts)

/-- Whether the rest of a pattern is well formed inside `groups` groups, when there is or
is not something to repeat just before it. The fuel is more than the number of tokens. -/
def wellFormed : Nat → Nat → Bool → List Token → Bool
  | 0, _, _, _ => false
  | _ + 1, groups, _, [] => groups == 0
  | fuel + 1, groups, operand, t :: ts =>
    match t with
    | .mark '(' =>
      match afterOpening? ts with
      | some (true, rest) => wellFormed fuel (groups + 1) false rest
      | some (false, rest) => wellFormed fuel groups false rest
      | none => false
    | .mark ')' => groups != 0 && wellFormed fuel (groups - 1) true ts
    | .mark '|' => wellFormed fuel groups false ts
    | .mark '*' | .mark '+' | .mark '?' => operand && wellFormed fuel groups true ts
    | .mark '{' => false
    | .mark '[' =>
      match afterSet? ts.length 0 (setBody ts) with
      | some rest => wellFormed fuel groups true rest
      | none => false
    | _ => wellFormed fuel groups true ts

end Pattern

/-- Whether a text is a pattern. -/
def isPattern (s : List Char) : Bool :=
  match Pattern.tokens? s with
  | some ts => Pattern.wellFormed (ts.length + 1) 0 false ts
  | none => false

end DelayedQueue.Log
