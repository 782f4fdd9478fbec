/-!
# Base sixteen

Numbers written with the digits `0` to `9` and the letters `a` to `f`.
-/

namespace Harvest.Text

def hexValue? (c : Char) : Option Nat :=
  if '0' ≤ c ∧ c ≤ '9' then some (c.toNat - 48)
  else if 'a' ≤ c ∧ c ≤ 'f' then some (c.toNat - 87)
  else if 'A' ≤ c ∧ c ≤ 'F' then some (c.toNat - 55)
  else none

/-- The digits of a number in base sixteen, at least `width` of them. -/
def hex (width n : Nat) : String :=
  let ds := Nat.toDigits 16 n
  String.ofList (List.replicate (width - ds.length) '0' ++ ds)

/-- The digits of a number in base sixteen, in capitals. -/
def capitalHex (width n : Nat) : List Char := (hex width n).toList.map Char.toUpper

end Harvest.Text
