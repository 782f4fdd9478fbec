/-!
# Double-precision numbers

A double is kept decoded: a sign, a mantissa and a power of two, or one of the special values. Every
question the library asks of a number (is it an integer, which integer lies towards zero, which
decimal names it) is then a question about natural numbers, with nothing left to the machine.

* `Double.ofRatio` rounds a quotient of naturals to the nearest double, ties to the even mantissa.
* `Double.truncate?` is the integer next to a double on the side of zero.
* `Double.same` is numeric equality: NaN differs from itself, the two zeros are equal.
-/

namespace Harvest

/-- A number of the IEEE 754 double format. A finite number is `mantissa * 2 ^ exponent`, with
`mantissa < 2 ^ 53` and the exponent as small as the format allows. -/
inductive Double where
  | nan
  | infinity (negative : Bool)
  | finite (negative : Bool) (mantissa : Nat) (exponent : Int)
  deriving DecidableEq, Repr, Inhabited

namespace Double

/-- The smallest exponent of the format, that of the subnormal numbers. -/
def minExponent : Int := -1074

/-- The largest exponent of a finite number. -/
def maxExponent : Int := 971

def zero (negative : Bool) : Double := .finite negative 0 minExponent

/-- The quotient rounded to a natural number, a half going to the even neighbour. -/
def roundDiv (num den : Nat) : Nat :=
  let q := num / den
  let r := num % den
  if 2 * r < den then q
  else if 2 * r > den then q + 1
  else if q % 2 = 0 then q else q + 1

/-- `num * 2 ^ shift / den`, rounded, where `shift` may be negative. -/
def roundScaled (num den : Nat) (shift : Int) : Nat :=
  if 0 ≤ shift then roundDiv (num * Nat.pow 2 shift.toNat) den
  else roundDiv num (den * Nat.pow 2 (-shift).toNat)

/-- The exponent of the double nearest to `num / den`, before rounding can carry into the next one:
the one that leaves 53 bits of mantissa, or the smallest. -/
def fittingExponent (num den : Nat) : Int :=
  let guess : Int := (num.log2 : Int) - (den.log2 : Int) - 52
  -- `num / den` lies in `[2 ^ (guess + 51), 2 ^ (guess + 53))`
  let below := if 0 ≤ guess then num < den * Nat.pow 2 (guess.toNat + 52)
    else num * Nat.pow 2 (-guess).toNat < den * Nat.pow 2 52
  max minExponent (if below then guess - 1 else guess)

/-- The double nearest to `num / den`; the even mantissa on a tie, infinity beyond the largest
finite number. -/
def ofRatio (negative : Bool) (num den : Nat) : Double :=
  if num = 0 ∨ den = 0 then zero negative
  else
    let e := fittingExponent num den
    let m := roundScaled num den (-e)
    if m < Nat.pow 2 53 then
      if e ≤ maxExponent then .finite negative m e else .infinity negative
    else if e + 1 ≤ maxExponent then .finite negative (Nat.pow 2 52) (e + 1)
    else .infinity negative

/-- The number of decimal digits of a natural number, `0` having none. -/
def decimalLength (n : Nat) : Nat := if n = 0 then 0 else (Nat.toDigits 10 n).length

/-- The double nearest to `digits * 10 ^ exponent`. Exponents far outside the range of the format are
settled by the number of digits alone. -/
def ofDecimal (negative : Bool) (digits : Nat) (exponent : Int) : Double :=
  if digits = 0 then zero negative
  else
    let magnitude := exponent + decimalLength digits
    if magnitude > 400 then .infinity negative
    else if magnitude < -400 then zero negative
    else if 0 ≤ exponent then ofRatio negative (digits * Nat.pow 10 exponent.toNat) 1
    else ofRatio negative digits (Nat.pow 10 (-exponent).toNat)

/-- The double nearest to an integer, if it is finite. -/
def ofInt? (i : Int) : Option Double :=
  match ofRatio (decide (i < 0)) i.natAbs 1 with
  | .finite s m e => some (.finite s m e)
  | _ => none

def signed (negative : Bool) (n : Nat) : Int := if negative then -(n : Int) else n

/-- The integer next to a finite number on the side of zero. -/
def truncate? : Double → Option Int
  | .finite s m e =>
    some (signed s (if 0 ≤ e then m * Nat.pow 2 e.toNat else m / Nat.pow 2 (-e).toNat))
  | _ => none

def isFinite : Double → Bool
  | .finite .. => true
  | _ => false

/-- Whether a number is zero, of either sign. -/
def isZero : Double → Bool
  | .finite _ m _ => m == 0
  | _ => false

def isIntegral : Double → Bool
  | .finite _ m e => decide (0 ≤ e) || m % Nat.pow 2 (-e).toNat == 0
  | _ => false

/-- Numeric equality: NaN equals nothing, zero equals negative zero. -/
def same : Double → Double → Bool
  | .infinity s, .infinity t => s == t
  | .finite s m e, .finite t n f => (m == 0 && n == 0) || (s == t && m == n && e == f)
  | _, _ => false

def isInt (x : Double) (i : Int) : Bool := x.isIntegral && x.truncate? == some i

@[simp] theorem same_nan (x : Double) : same .nan x = false := by cases x <;> rfl

end Double

end Harvest
