import Harvest.Data.Double

/-!
# The shortest decimal of a double

`Double.shortest` is the decimal with the fewest digits that reads back as the given number and,
among those, the nearest to it. `Double.display` writes it: positionally between `10 ^ -4` and
`10 ^ 16`, with an exponent outside.
-/

namespace Harvest.Double

/-- A positive decimal number `0.d₁d₂… * 10 ^ point`, its digits read as one natural number. -/
structure Decimal where
  digits : Nat
  point : Int
  deriving DecidableEq, Repr

/-- The reals that round to one double: those between `low` and `high`, each over the denominator
`den`; the ends belong to it when `closed`. The double itself is `value / den`. -/
structure Interval where
  low : Nat
  value : Nat
  high : Nat
  den : Nat
  closed : Bool

/-- The interval of the finite number `mantissa * 2 ^ exponent`. At a power of two the neighbour
below is only half as far away as the one above. -/
def interval (mantissa : Nat) (exponent : Int) : Interval :=
  let atPower := mantissa == Nat.pow 2 52 && decide (minExponent < exponent)
  let e := exponent - 2
  let scale := if 0 ≤ e then Nat.pow 2 e.toNat else 1
  { low := (4 * mantissa - if atPower then 1 else 2) * scale
    value := 4 * mantissa * scale
    high := (4 * mantissa + 2) * scale
    den := if 0 ≤ e then 1 else Nat.pow 2 (-e).toNat
    closed := mantissa % 2 == 0 }

def Interval.contains (i : Interval) (num den : Nat) : Bool :=
  if i.closed then i.low * den ≤ num * i.den && num * i.den ≤ i.high * den
  else i.low * den < num * i.den && num * i.den < i.high * den

/-- The power of ten above a positive quotient: `10 ^ (p - 1) ≤ num / den < 10 ^ p`. The search
starts from an estimate and moves at most `fuel` steps. -/
def decimalPoint (num den : Nat) : Nat → Int → Int
  | 0, p => p
  | fuel + 1, p =>
    let reaches (q : Int) : Bool :=
      if 0 ≤ q then Nat.pow 10 q.toNat * den ≤ num else den ≤ num * Nat.pow 10 (-q).toNat
    if reaches p then decimalPoint num den fuel (p + 1)
    else if reaches (p - 1) then p
    else decimalPoint num den fuel (p - 1)

/-- The grid point of `count` digits nearest to the value of the interval, if one of the two next to
the value lies in the interval; the even one when both are equally near. -/
def gridPoint? (i : Interval) (point : Int) (count : Nat) : Option Nat :=
  let unit := point - count
  -- over the common denominator, the value is `num / den` grid steps
  let num := if 0 ≤ unit then i.value else i.value * Nat.pow 10 (-unit).toNat
  let den := if 0 ≤ unit then i.den * Nat.pow 10 unit.toNat else i.den
  let step (n : Nat) : Nat × Nat :=
    if 0 ≤ unit then (n * Nat.pow 10 unit.toNat, 1) else (n, Nat.pow 10 (-unit).toNat)
  let q := num / den
  let inside (n : Nat) : Bool := let s := step n; i.contains s.1 s.2
  match inside q, inside (q + 1) with
  | false, false => none
  | true, false => some q
  | false, true => some (q + 1)
  | true, true =>
    let r := 2 * (num % den)
    if r < den then some q
    else if den < r then some (q + 1)
    else if q % 2 = 0 then some q else some (q + 1)

/-- The digits of the first grid that has a point in the interval; seventeen always suffice. -/
def shortestFrom (i : Interval) (point : Int) : Nat → Nat → Nat × Nat
  | 0, count => ((gridPoint? i point count).getD 0, count)
  | fuel + 1, count =>
    match gridPoint? i point count with
    | some n => (n, count)
    | none => shortestFrom i point fuel (count + 1)

/-- A decimal without its trailing zeros. -/
def dropZeros : Nat → Nat → Nat
  | 0, n => n
  | fuel + 1, n => if n ≠ 0 ∧ n % 10 = 0 then dropZeros fuel (n / 10) else n

/-- The shortest decimal that reads back as `mantissa * 2 ^ exponent`, for a positive mantissa. -/
def shortest (mantissa : Nat) (exponent : Int) : Decimal :=
  let i := interval mantissa exponent
  let estimate : Int := ((mantissa.log2 : Int) + exponent) * 30103 / 100000
  let point := decimalPoint i.value i.den 8 estimate
  let (n, count) := shortestFrom i point 16 1
  -- a grid point may be the next power of ten
  let point := if n = Nat.pow 10 count then point + 1 else point
  { digits := dropZeros 17 n, point }

/-- The digits of a natural number in base ten. -/
def digitsOf (n : Nat) : String := toString n

def zeros (n : Nat) : String := String.ofList (List.replicate n '0')

/-- A decimal written out: positionally when its point is between -3 and 16, with an exponent of at
least two digits otherwise. -/
def Decimal.display (d : Decimal) : String :=
  let ds := digitsOf d.digits
  let count : Int := ds.length
  if -3 ≤ d.point ∧ d.point ≤ 16 then
    if d.point ≤ 0 then "0." ++ zeros (-d.point).toNat ++ ds
    else if count ≤ d.point then ds ++ zeros (d.point - count).toNat ++ ".0"
    else
      let cs := ds.toList
      String.ofList (cs.take d.point.toNat) ++ "." ++ String.ofList (cs.drop d.point.toNat)
  else
    let e := d.point - 1
    let ed := digitsOf e.natAbs
    let cs := ds.toList
    let tail := cs.drop 1
    String.ofList (cs.take 1)
      ++ (if tail.isEmpty then "" else "." ++ String.ofList tail)
      ++ (if e < 0 then "e-" else "e+") ++ zeros (2 - ed.length) ++ ed

/-- The text of a number: its shortest decimal, or `nan`, `inf`, `-inf`. -/
def display : Double → String
  | .nan => "nan"
  | .infinity false => "inf"
  | .infinity true => "-inf"
  | .finite s m e =>
    (if s then "-" else "") ++ (if m = 0 then "0.0" else (shortest m e).display)

end Harvest.Double
