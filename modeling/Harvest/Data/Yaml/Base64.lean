/-!
# Bytes written in base 64

Four characters stand for three bytes. Characters outside the alphabet are passed over; padding is
needed where the last group is short, and ends the text.
-/

namespace Harvest.Base64

/-- The value of a character. -/
def digit? (c : Char) : Option Nat :=
  if c.isUpper then some (c.toNat - 65)
  else if c.isLower then some (c.toNat - 71)
  else if c.isDigit then some (c.toNat + 4)
  else if c = '+' then some 62
  else if c = '/' then some 63
  else none

/-- The bytes of a text, where `group` holds the characters of the group so far, the last one first,
and `pads` counts the padding after them. -/
def decodeGroup? : List Nat → Nat → List Char → Option (List UInt8)
  | group, pads, c :: cs =>
    if c = '=' then
      match group with
      | [_, _] => if pads = 1 then some [] else decodeGroup? group (pads + 1) cs
      | [_, _, _] => some []
      | _ => decodeGroup? group pads cs
    else
      match digit? c, group with
      | none, _ => decodeGroup? group pads cs
      | some d, [] => decodeGroup? [d] 0 cs
      | some d, [a] =>
        (decodeGroup? [d, a] 0 cs).map (UInt8.ofNat (a * 4 + d / 16) :: ·)
      | some d, [b, a] =>
        (decodeGroup? [d, b, a] 0 cs).map (UInt8.ofNat (b % 16 * 16 + d / 4) :: ·)
      | some d, b :: _ =>
        (decodeGroup? [] 0 cs).map (UInt8.ofNat (b % 4 * 64 + d) :: ·)
  | [], _, [] => some []
  | _ :: _, _, [] => none

/-- The bytes that a text stands for. -/
def decode? (cs : List Char) : Option (List UInt8) := decodeGroup? [] 0 cs

example : decode? "aGk=".toList = some [104, 105] := by decide

example : decode? "a".toList = none := by decide

end Harvest.Base64
