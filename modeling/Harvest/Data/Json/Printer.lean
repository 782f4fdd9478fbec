import Harvest.Data.Value.Display

/-!
# JSON text

`Json.print` writes a value on one line. Characters outside ASCII stand for themselves; only quotes,
backslashes and control characters are escaped. The spacing after `,` and `:` is a parameter: the
lines of an output file have a space there, a compact text has none.
-/

namespace Harvest.Json

/-- What separates the parts of a container. -/
structure Spacing where
  item : String
  member : String

/-- One space after commas and colons. -/
def Spacing.line : Spacing := ⟨", ", ": "⟩

def Spacing.compact : Spacing := ⟨",", ":"⟩

def escapeChar (c : Char) : List Char :=
  if c = '"' then ['\\', '"']
  else if c = '\\' then ['\\', '\\']
  else if c = '\n' then ['\\', 'n']
  else if c = '\r' then ['\\', 'r']
  else if c = '\t' then ['\\', 't']
  else if c.toNat = 8 then ['\\', 'b']
  else if c.toNat = 12 then ['\\', 'f']
  else if c.toNat < 32 then '\\' :: 'u' :: (Text.hex 4 c.toNat).toList
  else [c]

def printString (s : String) : String :=
  "\"" ++ String.ofList (s.toList.flatMap escapeChar) ++ "\""

/-- A number; the numbers that JSON lacks are written as names. -/
def printDouble : Double → String
  | .nan => "NaN"
  | .infinity false => "Infinity"
  | .infinity true => "-Infinity"
  | x => x.display

/-- An atom as a value. What JSON has no form for is written as a string. -/
def printAtom : Atom → String
  | .null => "null"
  | .bool true => "true"
  | .bool false => "false"
  | .int i => toString i
  | .float x => printDouble x
  | a => printString a.display

/-- An atom as a key: always a string. -/
def printKey : Atom → String
  | .str s => printString s
  | a => printString (printAtom a)

mutual

/-- A value on one line. Sets and pairs are lists here, and an alias has nothing to stand for. -/
def print (sp : Spacing) : Value → String
  | .atom a => printAtom a
  | .list xs => "[" ++ sp.item.intercalate (printItems sp xs) ++ "]"
  | .object ms => "\x7b" ++ sp.item.intercalate (printMembers sp ms) ++ "\x7d"
  | .set es => "[" ++ sp.item.intercalate (es.map printAtom) ++ "]"
  | .pair a b => "[" ++ print sp a ++ sp.item ++ print sp b ++ "]"
  | .anchored _ v => print sp v
  | .reference _ => printAtom .null

def printItems (sp : Spacing) : List Value → List String
  | [] => []
  | x :: xs => print sp x :: printItems sp xs

def printMembers (sp : Spacing) : List (Atom × Value) → List String
  | [] => []
  | (k, v) :: ms => (printKey k ++ sp.member ++ print sp v) :: printMembers sp ms

end

end Harvest.Json
