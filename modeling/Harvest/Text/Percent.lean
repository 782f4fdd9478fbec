import Harvest.Text.Hex

/-!
# Percent-encoded text

Where a character cannot stand for itself, its bytes are written, each as a percent sign and two
hexadecimal digits. What is written like that already stays as it is, so that encoding a text twice
changes nothing more.
-/

namespace Harvest.Text

/-- A byte as a percent sign and two digits. -/
def percentByte (b : UInt8) : List Char := '%' :: capitalHex 2 b.toNat

/-- A character, or the bytes of one that is not kept. -/
def percentChar (keeps : Char → Bool) (c : Char) : List Char :=
  if keeps c then [c] else (String.utf8EncodeChar c).flatMap percentByte

/-- Encodes the characters of a text that are not kept. -/
def percentEncode (keeps : Char → Bool) : List Char → List Char
  | [] => []
  | '%' :: a :: b :: cs =>
    if (hexValue? a).isSome && (hexValue? b).isSome then '%' :: a :: b :: percentEncode keeps cs
    else percentChar keeps '%' ++ percentEncode keeps (a :: b :: cs)
  | c :: cs => percentChar keeps c ++ percentEncode keeps cs

/-- The bytes of a text of ASCII in which some are percent-encoded. -/
def percentDecode : List Char → List UInt8
  | [] => []
  | '%' :: a :: b :: cs =>
    match hexValue? a, hexValue? b with
    | some x, some y => UInt8.ofNat (x * 16 + y) :: percentDecode cs
    | _, _ => 37 :: percentDecode (a :: b :: cs)
  | c :: cs => UInt8.ofNat c.toNat :: percentDecode cs

@[simp] theorem percentEncode_nil (keeps : Char → Bool) : percentEncode keeps [] = [] := by
  simp [percentEncode]

end Harvest.Text
