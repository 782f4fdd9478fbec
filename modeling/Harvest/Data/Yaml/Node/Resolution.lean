import Harvest.Data.Yaml.Node

/-!
# What a plain scalar denotes

A scalar without quotes and tag denotes a truth value, a number, a point in time or nothing if it is
written like one, and a text otherwise. `TagName.ofText` tells which.
-/

namespace Harvest.Yaml

/-! ### Numbers -/

/-- A text without a sign at its start. -/
def unsigned : List Char → List Char
  | c :: cs => if c = '-' || c = '+' then cs else c :: cs
  | [] => []

def isDigitOrMark (c : Char) : Bool := c.isDigit || c = '_'

def isDigits : List Char → Bool
  | c :: cs => c.isDigit && cs.all isDigitOrMark
  | [] => false

def isExponent : List Char → Bool
  | [] => true
  | e :: s :: d :: ds => (e = 'e' || e = 'E') && (s = '-' || s = '+') && d.isDigit && ds.all Char.isDigit
  | _ => false

/-- Whether a text is a number below sixty, after a colon. -/
def isSixtieth : List Char → Bool
  | [d] => d.isDigit
  | [t, d] => t.isDigit && t.toNat < 54 && d.isDigit
  | _ => false

def colonParts (cs : List Char) : List (List Char) := cs.splitOn ':'

/-- Whether a text is a number in base ten or a list of digits in base sixty, with a point. -/
def isFloat (cs : List Char) : Bool :=
  let body := unsigned cs
  let whole := body.takeWhile isDigitOrMark
  let fraction (cs : List Char) : Bool := isExponent (cs.dropWhile isDigitOrMark)
  let decimal := match body.dropWhile isDigitOrMark with
    | '.' :: rest => isDigits whole && fraction rest
    | _ => false
  let leadingPoint := match cs with
    | '.' :: d :: rest => d.isDigit && fraction rest
    | _ => false
  let sixties := match colonParts body with
    | first :: second :: more =>
      let final := (second :: more).getLastD []
      isDigits first && (second :: more).dropLast.all isSixtieth
        && isSixtieth (final.takeWhile (· ≠ '.'))
        && (match final.dropWhile (· ≠ '.') with
          | '.' :: rest => rest.all isDigitOrMark
          | _ => false)
    | _ => false
  decimal || leadingPoint || sixties
    || [".inf", ".Inf", ".INF"].contains (String.ofList body)
    || [".nan", ".NaN", ".NAN"].contains (String.ofList cs)

/-- Whether a text is an integer in base two, eight, ten, sixteen or sixty. -/
def isInt (cs : List Char) : Bool :=
  let isHex (c : Char) : Bool :=
    c.isDigit || ('a'.toNat ≤ c.toNat && c.toNat ≤ 'f'.toNat)
      || ('A'.toNat ≤ c.toNat && c.toNat ≤ 'F'.toNat) || c = '_'
  match unsigned cs with
  | ['0'] => true
  | '0' :: 'b' :: ds => !ds.isEmpty && ds.all fun c => c = '0' || c = '1' || c = '_'
  | '0' :: 'x' :: ds => !ds.isEmpty && ds.all isHex
  | '0' :: ds => ds.all fun c => (c.isDigit && c.toNat < 56) || c = '_'
  | body =>
    match colonParts body with
    | first :: more => isDigits first && more.all isSixtieth
    | [] => false

/-! ### Points in time -/

/-- The parts of a point in time as written. -/
structure Moment where
  year : Nat
  month : Nat
  day : Nat
  /-- Hour, minute, second and the digits of the fraction. -/
  time : Option (Nat × Nat × Nat × List Char)
  /-- The distance from universal time: whether it is negative, hours and minutes. -/
  zone : Option (Bool × Nat × Nat)
  deriving Repr

namespace Moment

def number (cs : List Char) : Nat := cs.foldl (fun n c => n * 10 + (c.toNat - 48)) 0

def digits? (least most : Nat) (cs : List Char) : Option (Nat × List Char) :=
  let ds := (cs.take most).takeWhile Char.isDigit
  if ds.length < least then none else some (number ds, cs.drop ds.length)

def sign? (c : Char) : List Char → Option (List Char)
  | x :: cs => if x = c then some cs else none
  | [] => none

/-- Whether a character separates the parts of a point in time. -/
def isGap (c : Char) : Bool := c = ' ' || c = '\t'

def gap? : List Char → Option (List Char)
  | [] => none
  | c :: cs =>
    if c = 'T' || c = 't' then some cs
    else if isGap c then some (cs.dropWhile isGap)
    else none

/-- Reads the distance from universal time, up to the end of the text. -/
def zone? (cs : List Char) : Option (Option (Bool × Nat × Nat)) :=
  match cs, cs.dropWhile isGap with
  | [], _ => some none
  | _, ['Z'] => some (some (false, 0, 0))
  | _, s :: rest =>
    if s = '-' || s = '+' then
      match digits? 1 2 rest with
      | some (hours, []) => some (some (s = '-', hours, 0))
      | some (hours, ':' :: rest) =>
        match digits? 2 2 rest with
        | some (minutes, []) => some (some (s = '-', hours, minutes))
        | _ => none
      | _ => none
    else none
  | _, [] => none

/-- Reads a time of day and its zone, up to the end of the text. -/
def time? (cs : List Char) : Option ((Nat × Nat × Nat × List Char) × Option (Bool × Nat × Nat)) := do
  let (hour, cs) ← digits? 1 2 cs
  let (minute, cs) ← digits? 2 2 (← sign? ':' cs)
  let (second, cs) ← digits? 2 2 (← sign? ':' cs)
  let (fraction, cs) := match cs with
    | '.' :: cs => (cs.takeWhile Char.isDigit, cs.dropWhile Char.isDigit)
    | cs => ([], cs)
  return ((hour, minute, second, fraction), ← zone? cs)

def ofText? (cs : List Char) : Option Moment := do
  let (year, cs) ← digits? 4 4 cs
  let (month, cs) ← digits? 1 2 (← sign? '-' cs)
  let (day, rest) ← digits? 1 2 (← sign? '-' cs)
  if rest.isEmpty then
    return { year, month, day, time := none, zone := none }
  else
    let (time, zone) ← time? (← gap? rest)
    return { year, month, day, time := some time, zone }

end Moment

/-! ### Scalars -/

/-- Whether a text is a point in time; a day alone needs two digits for month and day. -/
def isTimestamp (cs : List Char) : Bool :=
  match Moment.ofText? cs with
  | some m => m.time.isSome || cs.length = 10
  | none => false

/-- What a text without a line end after it denotes. -/
def TagName.ofLine (cs : List Char) : TagName :=
  let word := String.ofList cs
  if ["yes", "Yes", "YES", "no", "No", "NO", "true", "True", "TRUE", "false", "False", "FALSE",
      "on", "On", "ON", "off", "Off", "OFF"].contains word then .bool
  else if isFloat cs then .float
  else if isInt cs then .int
  else if word = "<<" then .merge
  else if ["~", "null", "Null", "NULL"].contains word then .null
  else if isTimestamp cs then .timestamp
  else if word = "=" then .value
  else if ["!", "&", "*"].contains word then .unknown
  else .str

/-- What a text denotes. One line end after it does not count. -/
def TagName.ofText (text : String) : TagName :=
  let cs := text.toList
  if cs.isEmpty then .null
  else if cs.getLast? = some '\n' then .ofLine cs.dropLast
  else .ofLine cs

end Harvest.Yaml
