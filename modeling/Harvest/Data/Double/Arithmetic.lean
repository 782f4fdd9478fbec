import Harvest.Data.Double

/-!
# Sums and products of doubles

`Double.add` and `Double.mul` give the double nearest to the exact sum and product.
-/

namespace Harvest.Double

/-- The integer `i * 2 ^ exponent`, rounded to a double; a zero gets the given sign. -/
def ofScaled (negativeZero : Bool) (i exponent : Int) : Double :=
  if i = 0 then zero negativeZero
  else if 0 ≤ exponent then ofRatio (i < 0) (i.natAbs * Nat.pow 2 exponent.toNat) 1
  else ofRatio (i < 0) i.natAbs (Nat.pow 2 (-exponent).toNat)

def neg : Double → Double
  | nan => nan
  | infinity s => infinity !s
  | finite s m e => finite (!s) m e

/-- The sum of two numbers. -/
def add : Double → Double → Double
  | nan, _ => nan
  | _, nan => nan
  | infinity s, infinity t => if s = t then infinity s else nan
  | infinity s, finite .. => infinity s
  | finite .., infinity t => infinity t
  | finite s m e, finite t n f =>
    let least := min e f
    let x := signed s m * Int.pow 2 (e - least).toNat
    let y := signed t n * Int.pow 2 (f - least).toNat
    ofScaled (s && t) (x + y) least

/-- The product of two numbers. -/
def mul : Double → Double → Double
  | nan, _ => nan
  | _, nan => nan
  | infinity s, infinity t => infinity (s != t)
  | infinity s, finite t n _ => if n = 0 then nan else infinity (s != t)
  | finite s m _, infinity t => if m = 0 then nan else infinity (s != t)
  | finite s m e, finite t n f => ofScaled (s != t) (signed s m * signed t n) (e + f)

/-- Taking the negative twice changes nothing. -/
@[simp] theorem neg_neg (x : Double) : x.neg.neg = x := by cases x <;> simp [neg]

end Harvest.Double
