/-!
# Texts as bytes

Bytes are read as text in three forms: in UTF-8, where whatever is no character is replaced, and in
units of two or four bytes, which may lie in either order.
-/

namespace Harvest.Text

def replacement : Char := '\ufffd'

/-- The character with a number, or the replacement where there is none: for half of a pair, and beyond
the last character. -/
def charOf (n : Nat) : Char := if n.isValidChar then Char.ofNat n else replacement

/-! ### UTF-8 -/

/-- A character of which some bytes have been read: its number so far, and between which bounds the
bytes lie that are still to come. -/
structure Begun where
  number : Nat
  bounds : List (Nat × Nat)
  deriving Repr

def Begun.none : Begun := ⟨0, []⟩

/-- The bounds of most bytes after the first of a character. -/
def laterByte : Nat × Nat := (0x80, 0xBF)

/-- What the first byte of a character gives: the character itself, or a beginning. -/
def firstByte (b : Nat) : List Char × Begun :=
  if b < 0x80 then ([Char.ofNat b], .none)
  else if 0xC2 ≤ b && b ≤ 0xDF then ([], ⟨b - 0xC0, [laterByte]⟩)
  else if b = 0xE0 then ([], ⟨0, [(0xA0, 0xBF), laterByte]⟩)
  else if b = 0xED then ([], ⟨13, [(0x80, 0x9F), laterByte]⟩)
  else if 0xE1 ≤ b && b ≤ 0xEF then ([], ⟨b - 0xE0, [laterByte, laterByte]⟩)
  else if b = 0xF0 then ([], ⟨0, [(0x90, 0xBF), laterByte, laterByte]⟩)
  else if 0xF1 ≤ b && b ≤ 0xF3 then ([], ⟨b - 0xF0, [laterByte, laterByte, laterByte]⟩)
  else if b = 0xF4 then ([], ⟨4, [(0x80, 0x8F), laterByte, laterByte]⟩)
  else ([replacement], .none)

/-- What the next byte gives. A character that it does not continue is replaced. -/
def nextByte (begun : Begun) (b : Nat) : List Char × Begun :=
  match begun.bounds with
  | [] => firstByte b
  | (low, high) :: rest =>
    if low ≤ b && b ≤ high then
      let n := begun.number * 64 + (b - 0x80)
      if rest.isEmpty then ([Char.ofNat n], .none) else ([], ⟨n, rest⟩)
    else
      let (cs, next) := firstByte b
      (replacement :: cs, next)

def textAfter (begun : Begun) : List UInt8 → List Char
  | [] => if begun.bounds.isEmpty then [] else [replacement]
  | b :: bs =>
    let (cs, next) := nextByte begun b.toNat
    cs ++ textAfter next bs

def ofUtf8 (bs : List UInt8) : List Char := textAfter .none bs

/-- The bytes of a text. -/
def toUtf8 (cs : List Char) : List UInt8 := cs.flatMap String.utf8EncodeChar

/-! ### Units of two and four bytes -/

/-- The number that bytes make up, the most significant one first or last. -/
def unit (bigEndian : Bool) (bs : List UInt8) : Nat :=
  (if bigEndian then bs else bs.reverse).foldl (fun n b => n * 256 + b.toNat) 0

def units16? (bigEndian : Bool) : List UInt8 → Option (List Nat)
  | [] => some []
  | a :: b :: rest => (units16? bigEndian rest).map (unit bigEndian [a, b] :: ·)
  | [_] => none

/-- The text of units of two bytes, of which two may make one character. -/
def ofUnits16 : List Nat → List Char
  | [] => []
  | hi :: lo :: rest =>
    if 0xD800 ≤ hi && hi < 0xDC00 && 0xDC00 ≤ lo && lo < 0xE000 then
      Char.ofNat (0x10000 + (hi - 0xD800) * 1024 + (lo - 0xDC00)) :: ofUnits16 rest
    else charOf hi :: ofUnits16 (lo :: rest)
  | [n] => [charOf n]

def ofUtf16? (bigEndian : Bool) (bs : List UInt8) : Option (List Char) :=
  (units16? bigEndian bs).map ofUnits16

def ofUtf32? (bigEndian : Bool) : List UInt8 → Option (List Char)
  | [] => some []
  | a :: b :: c :: d :: rest =>
    let n := unit bigEndian [a, b, c, d]
    if n < 0x110000 then (ofUtf32? bigEndian rest).map (charOf n :: ·) else none
  | _ => none

@[simp] theorem ofUtf8_nil : ofUtf8 [] = [] := rfl

end Harvest.Text
