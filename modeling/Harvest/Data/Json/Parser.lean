import Harvest.Data.Value
import Harvest.Text.Bytes
import Harvest.Text.Hex

/-!
# Reading JSON

`Json.parse?` reads one JSON value. A number without fraction and exponent is an integer, any other a
double. Of two members with one key the later gives the value, the earlier the place. The names `NaN`,
`Infinity` and `-Infinity` are accepted. The texts of values are texts of characters, and half of a pair
that stands alone is replaced in them: it is kept in raw data only.

How many digits an integer may have is a limit of the runtime and no rule of JSON. The functions below
take it as a parameter, and `none` is a runtime without one.
-/

namespace Harvest.Json

def isBlank (c : Char) : Bool := c = ' ' || c = '\n' || c = '\r' || c = '\t'

/-- A text without its leading blanks. -/
def skipBlanks (cs : List Char) : List Char := cs.dropWhile isBlank

/-- The value of four hexadecimal digits. -/
def hex4? (a b c d : Char) : Option Nat := do
  let a ← Text.hexValue? a
  let b ← Text.hexValue? b
  let c ← Text.hexValue? c
  let d ← Text.hexValue? d
  return ((a * 16 + b) * 16 + c) * 16 + d

/-- The character that a letter stands for after a backslash. -/
def escaped? (c : Char) : Option Char :=
  if c = '"' then some '"'
  else if c = '\\' then some '\\'
  else if c = '/' then some '/'
  else if c = 'b' then some (Char.ofNat 8)
  else if c = 'f' then some (Char.ofNat 12)
  else if c = 'n' then some '\n'
  else if c = 'r' then some '\r'
  else if c = 't' then some '\t'
  else none

/-- Reads a string after its opening quote. The characters read so far are in `acc`, last first. -/
def readString (acc : List Char) : List Char → Option (String × List Char)
  | '"' :: rest => some (String.ofList acc.reverse, rest)
  | '\\' :: 'u' :: a :: b :: c :: d :: '\\' :: 'u' :: e :: f :: g :: h :: rest =>
    match hex4? a b c d, hex4? e f g h with
    | some hi, some lo =>
      if 0xD800 ≤ hi ∧ hi < 0xDC00 ∧ 0xDC00 ≤ lo ∧ lo < 0xE000 then
        readString (Char.ofNat (0x10000 + (hi - 0xD800) * 1024 + (lo - 0xDC00)) :: acc) rest
      else readString (Text.charOf hi :: acc) ('\\' :: 'u' :: e :: f :: g :: h :: rest)
    | some n, none => readString (Text.charOf n :: acc) ('\\' :: 'u' :: e :: f :: g :: h :: rest)
    | _, _ => none
  | '\\' :: 'u' :: a :: b :: c :: d :: rest =>
    match hex4? a b c d with
    | some n => readString (Text.charOf n :: acc) rest
    | none => none
  | '\\' :: c :: rest =>
    match escaped? c with
    | some x => readString (x :: acc) rest
    | none => none
  | c :: rest => if c.toNat < 32 then none else readString (c :: acc) rest
  | [] => none

def digits (cs : List Char) : List Char := cs.takeWhile Char.isDigit

/-- What follows the leading decimal digits. -/
def afterDigits (cs : List Char) : List Char := cs.dropWhile Char.isDigit

/-- The number written by decimal digits. -/
def natOf (ds : List Char) : Nat := ds.foldl (fun n d => n * 10 + (d.toNat - 48)) 0

def readFraction : List Char → List Char × List Char
  | '.' :: cs => if (digits cs).isEmpty then ([], '.' :: cs) else (digits cs, afterDigits cs)
  | cs => ([], cs)

def readExponent : List Char → Option Int × List Char
  | e :: cs =>
    if e = 'e' ∨ e = 'E' then
      let negative := cs.head? = some '-'
      let body := if cs.head? = some '-' ∨ cs.head? = some '+' then cs.drop 1 else cs
      if (digits body).isEmpty then (none, e :: cs)
      else (some (Double.signed negative (natOf (digits body))), afterDigits body)
    else (none, e :: cs)
  | [] => (none, [])

/-- The limit on the digits of an integer that is in force. -/
def maxIntDigits : Nat := 4300

variable (limit : Option Nat)

/-- Whether an integer with these digits is within the limit. -/
def withinDigits (ds : List Char) : Bool := limit.all (ds.length ≤ ·)

def readNumber (negative : Bool) (cs : List Char) : Option (Value × List Char) :=
  match cs with
  | [] => none
  | c :: rest =>
    if !c.isDigit then none
    else
      let whole := if c = '0' then ['0'] else digits cs
      let rest := if c = '0' then rest else afterDigits cs
      let (fraction, rest) := readFraction rest
      let (exponent, rest) := readExponent rest
      if fraction.isEmpty ∧ exponent.isNone then
        if withinDigits limit whole then
          some (.int (Double.signed negative (natOf whole)), rest)
        else none
      else
        let x := Double.ofDecimal negative (natOf (whole ++ fraction))
          (exponent.getD 0 - fraction.length)
        some (.float x, rest)

def readWord (cs : List Char) : Option (Value × List Char) :=
  let word (name : String) (v : Value) : Option (Value × List Char) :=
    if name.toList.isPrefixOf cs then some (v, cs.drop name.length) else none
  word "null" .null <|> word "true" (.bool true) <|> word "false" (.bool false)
    <|> word "NaN" (.float .nan) <|> word "Infinity" (.float (.infinity false))
    <|> word "-Infinity" (.float (.infinity true))

mutual

/-- Reads a value. The fuel bounds the depth and the number of parts; the length of the text is
enough. -/
def readValue : Nat → List Char → Option (Value × List Char)
  | 0, _ => none
  | fuel + 1, cs =>
    match skipBlanks cs with
    | '"' :: rest => (readString [] rest).map fun r => (.str r.1, r.2)
    | '[' :: rest =>
      match skipBlanks rest with
      | ']' :: rest => some (.list [], rest)
      | rest => readItems fuel [] rest
    | '\x7b' :: rest =>
      match skipBlanks rest with
      | '\x7d' :: rest => some (.object [], rest)
      | rest => readMembers fuel [] rest
    | cs =>
      (readWord cs).or <|
        match cs with
        | '-' :: rest => readNumber limit true rest
        | rest => readNumber limit false rest

def readItems : Nat → List Value → List Char → Option (Value × List Char)
  | 0, _, _ => none
  | fuel + 1, acc, cs =>
    match readValue fuel cs with
    | none => none
    | some (v, rest) =>
      match skipBlanks rest with
      | ',' :: rest => readItems fuel (v :: acc) rest
      | ']' :: rest => some (.list (v :: acc).reverse, rest)
      | _ => none

def readMembers : Nat → Members → List Char → Option (Value × List Char)
  | 0, _, _ => none
  | fuel + 1, acc, cs =>
    match skipBlanks cs with
    | '"' :: rest =>
      match readString [] rest with
      | none => none
      | some (key, rest) =>
        match skipBlanks rest with
        | ':' :: rest =>
          match readValue fuel rest with
          | none => none
          | some (v, rest) =>
            let acc := Members.insert (.str key) v acc
            match skipBlanks rest with
            | ',' :: rest => readMembers fuel acc rest
            | '\x7d' :: rest => some (.object acc, rest)
            | _ => none
        | _ => none
    | _ => none

end

/-- Reads a whole text under a limit on the digits of its integers. -/
def parseWithin? (cs : List Char) : Option Value :=
  match readValue limit (2 * cs.length + 2) cs with
  | some (v, rest) => if (skipBlanks rest).isEmpty then some v else none
  | none => none

def parseChars? (cs : List Char) : Option Value := parseWithin? (some maxIntDigits) cs

def parse? (s : String) : Option Value := parseChars? s.toList

end Harvest.Json
