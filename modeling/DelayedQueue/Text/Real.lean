import DelayedQueue.Text.Decimal

/-! # Binary fractions in decimal

A finite double is `m · 2 ^ q`. Its text has the fewest digits that only this double
is nearest to, and of those the nearest ones, with an exponent or without.
-/

namespace DelayedQueue.Real

/-- A positive value `mantissa · 2 ^ exponent`, with the halves of the gaps to its
neighbours: the gap below is half as wide at a power of two. -/
structure Dyadic where
  mantissa : Nat
  exponent : Int
  narrowBelow : Bool
  deriving DecidableEq, Repr

/-- There is none for zero, infinities and NaN. -/
def Dyadic.ofBits (bits : UInt64) : Option Dyadic :=
  let field : Nat := bits.toNat / 0x10000000000000 % 0x800
  let fraction : Nat := bits.toNat % 0x10000000000000
  if field = 2047 then none
  else if field = 0 then if fraction = 0 then none else some ⟨fraction, -1074, false⟩
  else some ⟨0x10000000000000 + fraction, (field : Int) - 1075, fraction = 0 && field != 1⟩

/-- The value `digits · 10 ^ exponent`. -/
structure Decimal where
  digits : Nat
  exponent : Int
  deriving DecidableEq, Repr

/-- Multiplies a quotient by `base ^ e`. -/
def scale (base : Nat) (e : Int) (num den : Nat) : Nat × Nat :=
  if 0 ≤ e then (num * base.pow e.toNat, den) else (num, den * base.pow (-e).toNat)

/-- The largest `e` with `10 ^ e ≤ num / den`, from an estimate that is at most one off. -/
def magnitude (num den : Nat) : Int :=
  let e : Int := (Nat.toDigits 10 num).length - (Nat.toDigits 10 den).length
  let (n, d) := scale 10 (-e) num den
  if d ≤ n then e else e - 1

/-- The nearer neighbour of `v` on the grid of `places` digits that still reads back as `v`;
a tie goes up. -/
def Dyadic.onGrid (v : Dyadic) (e : Int) (places : Nat) : Option Decimal :=
  let unit := e - places + 1
  -- everything in quarters of `2 ^ exponent`, over the grid's unit
  let (num, den) := scale 2 (v.exponent - 2) (4 * v.mantissa) 1
  let (low, _) := scale 2 (v.exponent - 2) (4 * v.mantissa - if v.narrowBelow then 1 else 2) 1
  let (high, _) := scale 2 (v.exponent - 2) (4 * v.mantissa + 2) 1
  let (num', den') := scale 10 (-unit) num den
  let (low', _) := scale 10 (-unit) low den
  let (high', _) := scale 10 (-unit) high den
  let inside (n : Nat) : Bool :=
    if v.mantissa % 2 = 0 then low' ≤ n * den' && n * den' ≤ high'
    else low' < n * den' && n * den' < high'
  let down := num' / den'
  let up := if num' % den' = 0 then down else down + 1
  let nearUp := (2 * up - 1) * den' ≤ 2 * num'
  if inside down && !(inside up && nearUp) then some ⟨down, unit⟩
  else if inside up then some ⟨up, unit⟩
  else none

/-- Seventeen digits always suffice. -/
def Dyadic.shortest (v : Dyadic) : Decimal :=
  let (num, den) := scale 2 v.exponent v.mantissa 1
  let e := magnitude num den
  ((List.range 17).findSome? fun i => v.onGrid e (i + 1)).getD ⟨0, 0⟩

/-- Digits without an exponent; `100` for `1 · 10 ^ 2` and `0.01` for `1 · 10 ^ -2`. -/
def Decimal.positional (d : Decimal) : String :=
  let ds := Nat.toDigits 10 d.digits
  if 0 ≤ d.exponent then String.ofList (ds ++ List.replicate d.exponent.toNat '0')
  else
    let places := (-d.exponent).toNat
    let ds := List.replicate (places + 1 - ds.length) '0' ++ ds
    let whole := ds.take (ds.length - places)
    let rest := ((ds.drop (ds.length - places)).reverse.dropWhile (· == '0')).reverse
    String.ofList (if rest.isEmpty then whole else whole ++ '.' :: rest)

/-- The power of ten of the leading digit. -/
def Decimal.magnitude (d : Decimal) : Int := (Nat.toDigits 10 d.digits).length - 1 + d.exponent

/-- One digit before the point and a signed exponent, as in `1.7e+20` and `5e-324`. -/
def Decimal.scientific (d : Decimal) : String :=
  let ds := ((Nat.toDigits 10 d.digits).reverse.dropWhile (· == '0')).reverse
  let mantissa := match ds with
    | first :: second :: rest => first :: '.' :: second :: rest
    | ds => ds
  let sign := if d.magnitude < 0 then '-' else '+'
  String.ofList (mantissa ++ 'e' :: sign :: Nat.toDigits 10 d.magnitude.natAbs)

/-- Without an exponent from `10 ^ -5` to below `10 ^ 16`, and then with a point. -/
def Decimal.compact (d : Decimal) : String :=
  if -5 ≤ d.magnitude ∧ d.magnitude ≤ 15 then
    if d.positional.contains '.' then d.positional else d.positional ++ ".0"
  else d.scientific

def isNegative (x : Float) : Bool := UInt64.size / 2 ≤ x.toBits.toNat

/-- The sign, and then zero or what `write` makes of a value. -/
def textBy (zero : String) (write : Decimal → String) (x : Float) : String :=
  if x.isNaN then "NaN"
  else
    let body :=
      if x.isInf then "inf"
      else match Dyadic.ofBits x.toBits with
        | none => zero
        | some v => write v.shortest
    if isNegative x then "-" ++ body else body

/-- Never with an exponent, and with a point only where there are places. -/
def text (x : Float) : String := textBy "0" Decimal.positional x

def compactText (x : Float) : String := textBy "0.0" Decimal.compact x

/-- The double nearest to `digits · 10 ^ exponent`. Far outside the range of doubles the power
is not computed. -/
def nearest (negative : Bool) (digits : Nat) (exponent : Int) : Float :=
  let size := (Nat.toDigits 10 digits).length + exponent
  let x : Float :=
    if digits = 0 ∨ size < -400 then 0.0
    else if 400 < size then 1.0 / 0.0
    else if 0 ≤ exponent then Float.ofScientific digits false exponent.toNat
    else Float.ofScientific digits true (-exponent).toNat
  if negative then -x else x

/-- The parts of a decimal literal. -/
structure Literal where
  negative : Bool
  digits : Nat
  exponent : Int
  deriving DecidableEq, Repr

def Literal.value (l : Literal) : Float := nearest l.negative l.digits l.exponent

/-- Digits with at most one point among them, at least one digit, and an optional exponent. -/
def Literal.parse? (negative : Bool) (cs : List Char) : Option Literal :=
  let whole := cs.takeWhile Char.isDigit
  let cs := cs.dropWhile Char.isDigit
  let (places, cs) := match cs with
    | '.' :: cs => (cs.takeWhile Char.isDigit, cs.dropWhile Char.isDigit)
    | cs => ([], cs)
  if whole.isEmpty && places.isEmpty then none
  else
    let digits := Nat.ofDigitChars 10 (whole ++ places) 0
    let exponent? : Option Int := match cs with
      | [] => some 0
      | c :: cs =>
        if c != 'e' && c != 'E' then none
        else
          let (minus, ds) := match cs with
            | '-' :: ds => (true, ds)
            | '+' :: ds => (false, ds)
            | ds => (false, ds)
          if ds.isEmpty || !ds.all Char.isDigit then none
          else
            let e : Int := Nat.ofDigitChars 10 ds 0
            some (if minus then -e else e)
    exponent?.map fun e => ⟨negative, digits, e - places.length⟩

/-- A sign, then a literal, or one of `inf`, `infinity` and `nan` in any case. -/
def parse? (s : String) : Option Float :=
  let (negative, cs) := match s.toList with
    | '-' :: cs => (true, cs)
    | '+' :: cs => (false, cs)
    | cs => (false, cs)
  let word := String.ofList (cs.map Char.toLower)
  let special (x : Float) : Option Float := some (if negative then -x else x)
  if word = "inf" ∨ word = "infinity" then special (1.0 / 0.0)
  else if word = "nan" then special (0.0 / 0.0)
  else (Literal.parse? negative cs).map Literal.value

end DelayedQueue.Real
