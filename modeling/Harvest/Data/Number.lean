import Harvest.Data.Fault
import Harvest.Data.Value
import Harvest.Text.Digit

/-!
# Numbers from dynamic values

`Value.toInt` and `Value.toDouble` read a number from a value that should denote one. Truth values and
numbers convert as such, a double towards zero. A text may have a sign, stand between blanks, use the
digits of any script and separate digits by single underscores. Bytes may hold such a text in ASCII; any
other value has no number.
-/

namespace Harvest

namespace Numeral

/-- The most digits that the text of an integer may have. -/
def maxDigits : Nat := 4300

/-- The text of a number without the blanks around it. -/
def trim (cs : List Char) : List Char :=
  ((cs.dropWhile Text.isBlank).reverse.dropWhile Text.isBlank).reverse

def ofBytes? (bs : List UInt8) : Option String :=
  if bs.all (·.toNat < 128) then some (String.ofList (bs.map fun b => Char.ofNat b.toNat)) else none

/-- Whether a sign says minus, and the text after the sign. -/
def splitSign : List Char → Bool × List Char
  | '-' :: cs => (true, cs)
  | '+' :: cs => (false, cs)
  | cs => (false, cs)

/-- The values of a run of digits in which single underscores may stand between two digits. The flag
says whether the character before was a digit. -/
def digitRun : Bool → List Char → Option (List Nat)
  | afterDigit, [] => if afterDigit then some [] else none
  | afterDigit, '_' :: cs => if afterDigit then digitRun false cs else none
  | _, c :: cs =>
    match Text.digitValue? c with
    | some d => (digitRun true cs).map (d :: ·)
    | none => none

def ofDigits (ds : List Nat) : Nat := ds.foldl (fun n d => n * 10 + d) 0

/-- The integer that a text denotes. -/
def int? (s : String) : Option Int :=
  let (negative, cs) := splitSign (trim s.toList)
  match digitRun false cs with
  | some ds =>
    if ds.length ≤ maxDigits then some (Double.signed negative (ofDigits ds)) else none
  | none => none

def isRunChar (c : Char) : Bool := c = '_' || (Text.digitValue? c).isSome

def optionalRun (cs : List Char) : Option (List Nat) := if cs.isEmpty then some [] else digitRun false cs

/-- The exponent of a decimal number, zero when the text ends before it. -/
def exponent? : List Char → Option Int
  | [] => some 0
  | e :: cs =>
    if e = 'e' ∨ e = 'E' then
      let (negative, cs) := splitSign cs
      (digitRun false cs).map fun ds => Double.signed negative (ofDigits ds)
    else none

def fraction? : List Char → Option (List Nat × List Char)
  | '.' :: cs => (optionalRun (cs.takeWhile isRunChar)).map fun ds => (ds, cs.dropWhile isRunChar)
  | cs => some ([], cs)

def decimal? (negative : Bool) (cs : List Char) : Option Double := do
  let whole ← optionalRun (cs.takeWhile isRunChar)
  let (fraction, rest) ← fraction? (cs.dropWhile isRunChar)
  if whole.isEmpty ∧ fraction.isEmpty then none
  else
    let e ← exponent? rest
    return Double.ofDecimal negative (ofDigits (whole ++ fraction)) (e - fraction.length)

def double? (s : String) : Option Double :=
  let (negative, cs) := splitSign (trim s.toList)
  let word := String.ofList (cs.map Char.toLower)
  if word = "inf" ∨ word = "infinity" then some (.infinity negative)
  else if word = "nan" then some .nan
  else decimal? negative cs

end Numeral

namespace Value

def toInt : Value → Except Fault Int
  | .bool b => .ok b.toNat
  | .int i => .ok i
  | .float x =>
    match x with
    | .nan => .error .content
    | .infinity _ => .error .range
    | x => match x.truncate? with
      | some i => .ok i
      | none => .error .content
  | .str s =>
    match Numeral.int? s with
    | some i => .ok i
    | none => .error .content
  | .atom (.bytes bs) =>
    match (Numeral.ofBytes? bs).bind Numeral.int? with
    | some i => .ok i
    | none => .error .content
  | _ => .error .kind

def toDouble : Value → Except Fault Double
  | .bool b => .ok (Double.ofRatio false b.toNat 1)
  | .int i =>
    match Double.ofInt? i with
    | some x => .ok x
    | none => .error .range
  | .float x => .ok x
  | .str s =>
    match Numeral.double? s with
    | some x => .ok x
    | none => .error .content
  | .atom (.bytes bs) =>
    match (Numeral.ofBytes? bs).bind Numeral.double? with
    | some x => .ok x
    | none => .error .content
  | _ => .error .kind

@[simp] theorem toInt_int (i : Int) : toInt (.int i) = .ok i := rfl

@[simp] theorem toDouble_float (x : Double) : toDouble (.float x) = .ok x := rfl

end Value

end Harvest
