import Harvest.Data.Json.Parser

/-!
# Bytes of JSON

JSON may be sent in units of one, two or four bytes. A JSON text begins with two characters of ASCII, so
that the zeros among its first bytes tell its units and their order.
-/

namespace Harvest.Json

/-- How the characters of a text are laid out in bytes. -/
inductive Encoding where
  | utf8
  | utf16 (bigEndian : Bool)
  | utf32 (bigEndian : Bool)
  deriving DecidableEq, Repr

/-- The encoding of a text of JSON with the given first bytes. Only a text of two bytes has fewer than
four of them. -/
def Encoding.ofBytes : List UInt8 → Encoding
  | a :: b :: c :: d :: _ =>
    if a = 0 then if b = 0 then .utf32 true else .utf16 true
    else if b = 0 then if c = 0 && d = 0 then .utf32 false else .utf16 false
    else .utf8
  | [a, b] => if a = 0 then .utf16 true else if b = 0 then .utf16 false else .utf8
  | _ => .utf8

/-- A text without a byte order mark at its beginning. -/
def dropMark (cs : List Char) : List Char :=
  match cs with
  | c :: rest => if c.toNat = 0xFEFF then rest else cs
  | [] => []

/-- The text of JSON in the bytes that another text has in UTF-8. -/
def decoded? (cs : List Char) : Option (List Char) :=
  match Encoding.ofBytes (Text.toUtf8 (cs.take 4)) with
  | .utf8 => some (dropMark cs)
  | .utf16 bigEndian => Text.ofUtf16? bigEndian (Text.toUtf8 cs)
  | .utf32 bigEndian => Text.ofUtf32? bigEndian (Text.toUtf8 cs)

def parseBytes? (body : String) : Option Value := (decoded? body.toList).bind parseChars?

/-- A text that begins with two characters of ASCII other than the zero is taken as it is. -/
theorem ofBytes_of_ne_zero {a b : UInt8} (ha : a ≠ 0) (hb : b ≠ 0) (rest : List UInt8) :
    Encoding.ofBytes (a :: b :: rest) = .utf8 := by
  match rest with
  | [] => simp [Encoding.ofBytes, ha, hb]
  | [_] => simp [Encoding.ofBytes]
  | _ :: _ :: _ => simp [Encoding.ofBytes, ha, hb]

end Harvest.Json
