import Harvest.Text.Mark

/-!
# Directions of writing

A label with letters or digits that are written from right to left has to begin with a letter and to
end, marks aside, with a letter or a digit, and its characters have to agree in their direction.
-/

namespace Harvest.Text

/-- How a character behaves where directions mix. -/
inductive Direction where
  | left
  | right
  | number
  | arabicNumber
  | neutral
  | mark
  deriving DecidableEq, Repr

def rightRanges : List (Nat × Nat) := [
  (1488, 1522), (1568, 1610), (1646, 1647), (1649, 1749), (1765, 1766), (1774, 1808),
  (1810, 1839), (1869, 1957), (1969, 2026), (2036, 2037), (2048, 2069), (2074, 2074),
  (2084, 2084), (2088, 2088), (2112, 2136), (2144, 2190), (2208, 2249), (65139, 65139),
  (67584, 68096), (68112, 68149), (68192, 68324), (68352, 68899), (69248, 69289),
  (69296, 69445), (69488, 69505), (69552, 69622), (124928, 125124), (125218, 125251),
  (125259, 125273)]

/-- The ranges of the digits that are written among letters from right to left. -/
def arabicNumberRanges : List (Nat × Nat) := [(1632, 1641), (68912, 68921)]

def neutralRanges : List (Nat × Nat) := [
  (45, 45), (183, 183), (697, 698), (710, 719), (748, 748), (885, 885), (11823, 11823),
  (12539, 12539), (42623, 42623), (42775, 42783), (42888, 42888), (8204, 8205)]

def isWithin (ranges : List (Nat × Nat)) (c : Char) : Bool :=
  ranges.any fun r => r.1 ≤ c.toNat && c.toNat ≤ r.2

def direction (c : Char) : Direction :=
  if c.isDigit || (1776 ≤ c.toNat && c.toNat ≤ 1785) then .number
  else if isWithin arabicNumberRanges c then .arabicNumber
  else if isWithin neutralRanges c then .neutral
  else if isMark c then .mark
  else if isWithin rightRanges c then .right
  else .left

/-- Whether a label of which the first character is written from right to left is in order. -/
def isRightToLeft (ds : List Direction) : Bool :=
  let ending := (ds.reverse.dropWhile (· == .mark)).head?
  !ds.contains .left && (ending == some .right || ending == some .number || ending == some .arabicNumber)
    && !(ds.contains .number && ds.contains .arabicNumber)

/-- Whether a label of which the first character is written from left to right is in order. -/
def isLeftToRight (ds : List Direction) : Bool :=
  let ending := (ds.reverse.dropWhile (· == .mark)).head?
  !ds.contains .right && !ds.contains .arabicNumber && (ending == some .left || ending == some .number)

def isDirected (cs : List Char) : Bool :=
  let ds := cs.map direction
  if !ds.contains .right && !ds.contains .arabicNumber then true
  else
    match ds with
    | .right :: _ => isRightToLeft ds
    | .left :: _ => isLeftToRight ds
    | _ => false

end Harvest.Text
