import Harvest.Data.Double.Shortest
import Harvest.Data.Value
import Harvest.Text.Hex
import Harvest.Text.Printable

/-!
# The text of a value

A value has two written forms. `Value.display` is the form used inside a sentence: a text stands for
itself. `Value.quoted` is the form used inside a container: a text stands between quotes, in single
quotes unless it holds some and no double ones, and shows unprintable characters by their numbers.
-/

namespace Harvest

namespace Text

/-- A decimal number of at least `width` digits. -/
def padded (width n : Nat) : String :=
  let ds := toString n
  Double.zeros (width - ds.length) ++ ds

def quotedChar (quote c : Char) : String :=
  if c = quote ∨ c = '\\' then "\\" ++ c.toString
  else if c = '\n' then "\\n"
  else if c = '\r' then "\\r"
  else if c = '\t' then "\\t"
  else if isPrintable c then c.toString
  else if c.toNat < 256 then "\\x" ++ hex 2 c.toNat
  else if c.toNat < 65536 then "\\u" ++ hex 4 c.toNat
  else "\\U" ++ hex 8 c.toNat

/-- The quote of a text: the double one only where it saves escaping single ones. -/
def quoteOf (s : String) : Char := if s.contains '\'' && !s.contains '"' then '"' else '\''

def quoted (s : String) : String :=
  let q := quoteOf s
  q.toString ++ String.join (s.toList.map (quotedChar q)) ++ q.toString

def quotedList (ss : List String) : String := "[" ++ ", ".intercalate (ss.map quoted) ++ "]"

def quotedBytes (bs : List UInt8) : String :=
  let q := quoteOf (String.ofList (bs.map fun b => Char.ofNat b.toNat))
  let char (b : UInt8) : String :=
    if b.toNat < 127 then quotedChar q (Char.ofNat b.toNat) else "\\x" ++ hex 2 b.toNat
  "b" ++ q.toString ++ String.join (bs.map char) ++ q.toString

end Text

open Text in
/-- A date in the order year, month, day. -/
def Date.display (d : Date) : String :=
  padded 4 d.year ++ "-" ++ padded 2 d.month ++ "-" ++ padded 2 d.day

def Date.quoted (d : Date) : String :=
  s!"datetime.date({d.year}, {d.month}, {d.day})"

open Text in
/-- The distance from universal time, hours and minutes. -/
def Timestamp.displayZone (minutes : Int) : String :=
  (if minutes < 0 then "-" else "+")
    ++ padded 2 (minutes.natAbs / 60) ++ ":" ++ padded 2 (minutes.natAbs % 60)

open Text in
/-- A point in time: date, time of day, fraction and zone where there are any. -/
def Timestamp.display (t : Timestamp) : String :=
  t.date.display ++ " " ++ padded 2 t.hour ++ ":" ++ padded 2 t.minute ++ ":" ++ padded 2 t.second
    ++ (if t.microsecond = 0 then "" else "." ++ padded 6 t.microsecond)
    ++ (t.zone.map displayZone).getD ""

/-- A zone as the call that makes it. -/
def Timestamp.quotedZone (minutes : Int) : String :=
  if minutes = 0 then "datetime.timezone.utc"
  else if 0 < minutes then s!"datetime.timezone(datetime.timedelta(seconds={minutes * 60}))"
  else
    let seconds := 86400 + minutes * 60
    if seconds = 0 then "datetime.timezone(datetime.timedelta(days=-1))"
    else s!"datetime.timezone(datetime.timedelta(days=-1, seconds={seconds}))"

/-- A point in time as the call that makes it. -/
def Timestamp.quoted (t : Timestamp) : String :=
  let fields := [t.date.year, t.date.month, t.date.day, t.hour, t.minute]
    ++ (if t.second = 0 ∧ t.microsecond = 0 then [] else [t.second])
    ++ (if t.microsecond = 0 then [] else [t.microsecond])
  "datetime.datetime(" ++ ", ".intercalate (fields.map toString)
    ++ (t.zone.map fun z => ", tzinfo=" ++ quotedZone z).getD "" ++ ")"

namespace Atom

def quoted : Atom → String
  | .null => "None"
  | .bool true => "True"
  | .bool false => "False"
  | .int i => toString i
  | .float x => x.display
  | .str s => Text.quoted s
  | .bytes bs => Text.quotedBytes bs
  | .date d => d.quoted
  | .time t => t.quoted

def display : Atom → String
  | .str s => s
  | .date d => d.display
  | .time t => t.display
  | a => a.quoted

end Atom

namespace Value

/-- What stands for a collection that is not shown. -/
def ellipsis : Value → String
  | .list _ => "[...]"
  | .object _ => "\x7b...\x7d"
  | .set _ => "set(...)"
  | .pair .. => "(...)"
  | _ => "..."

def quotedSet (es : List Atom) : String :=
  if es.isEmpty then "set()" else "\x7b" ++ ", ".intercalate (es.map Atom.quoted) ++ "\x7d"

/-- The anchored collections that are being written, each with what stands for it. -/
abbrev Shown := List (Nat × String)

mutual

/-- The form inside a container. A collection that is being written already is not shown again. -/
def quotedWithin (shown : Shown) : Value → String
  | .atom a => a.quoted
  | .list xs => "[" ++ ", ".intercalate (quotedItems shown xs) ++ "]"
  | .object ms => "\x7b" ++ ", ".intercalate (quotedMembers shown ms) ++ "\x7d"
  | .set es => quotedSet es
  | .pair a b => "(" ++ quotedWithin shown a ++ ", " ++ quotedWithin shown b ++ ")"
  | .anchored l v =>
    match shown.lookup l with
    | some short => short
    | none => quotedWithin ((l, v.ellipsis) :: shown) v
  | .reference l => (shown.lookup l).getD "..."

def quotedItems (shown : Shown) : List Value → List String
  | [] => []
  | x :: xs => quotedWithin shown x :: quotedItems shown xs

def quotedMembers (shown : Shown) : List (Atom × Value) → List String
  | [] => []
  | (k, v) :: ms => (k.quoted ++ ": " ++ quotedWithin shown v) :: quotedMembers shown ms

end

def quoted (v : Value) : String := quotedWithin [] v

def display : Value → String
  | .atom a => a.display
  | v => v.quoted

@[simp] theorem display_str (s : String) : display (.str s) = s := rfl

end Value

end Harvest
