import Harvest.Text.Label
import Harvest.Text.Percent

/-!
# Hosts

A host is a number of version four, a number of version six between brackets, or a name. What looks like
a number has to be one. A name of ASCII is taken as it is, in lower case; any other one is a row of
labels, each in its written form.
-/

namespace Harvest.Host

/-! ### Numbers -/

/-- Whether a text is a number below 256 without leading zeros. -/
def isOctet (s : String) : Bool :=
  let cs := s.toList
  !cs.isEmpty && cs.all Char.isDigit && cs.length ≤ 3 && (cs.length = 1 || cs.head? != some '0')
    && s.toNat?.any (· < 256)

def isVersion4 (s : String) : Bool :=
  let parts := s.splitOn "."
  parts.length = 4 && parts.all isOctet

/-- Whether a text reads as four runs of digits with one character between each two. That character may
be a digit too, so that a long run counts for several. -/
def looksLikeVersion4 (s : String) : Bool :=
  let runs := (s.split fun c => !c.isDigit).toStringList
  runs.all (· ≠ "") && runs.length ≤ 4 && 4 ≤ runs.foldl (fun n r => n + (r.length + 1) / 2) 0

def isGroup (s : String) : Bool :=
  s ≠ "" && s.length ≤ 4 && s.toList.all fun c => (Text.hexValue? c).isSome

/-- The groups between colons, where a host of version four at the end counts as two. -/
def groups? (s : String) : Option (List String) :=
  let parts := s.splitOn ":"
  if parts.length < 3 then none
  else
    match parts.getLast? with
    | some last =>
      if last.contains '.' then
        if isVersion4 last then some (parts.dropLast ++ ["0", "0"]) else none
      else some parts
    | none => none

/-- Whether groups make up a host of version six: there are eight of them, or fewer around one gap. At an
end, a gap leaves an empty group behind. -/
def areGroups (gs : List String) : Bool :=
  let inner := (gs.drop 1).dropLast
  let gaps := (inner.filter (· == "")).length
  if gaps = 0 then gs.length = 8 && gs.all isGroup
  else if gaps = 1 then
    let front := gs.take (1 + (inner.takeWhile (· ≠ "")).length)
    let back := gs.drop (front.length + 1)
    let front := if front == [""] then [] else front
    let back := if back == [""] then [] else back
    front.all isGroup && back.all isGroup && front.length + back.length < 8
  else false

/-- Whether a text is a host of version six, with or without a zone. -/
def isVersion6 (s : String) : Bool :=
  match s.splitOn "%" with
  | [address] => (groups? address).any areGroups
  | [address, zone] => zone ≠ "" && (groups? address).any areGroups
  | _ => false

/-! ### Names -/

def isDot (c : Char) : Bool := c = '.' || c = '\u3002' || c = '\uff0e' || c = '\uff61'

/-- The labels of a name, and whether a last dot follows them. -/
def labelsOf (name : List Char) : List (List Char) × Bool :=
  let labels := ((String.ofList name).split isDot).toStringList.map String.toList
  if labels.getLast? == some [] then (labels.dropLast, true) else (labels, false)

def maxLength : Nat := 253

/-- A name in its written form. -/
def writeName (name : List Char) : Except LabelFault String := do
  let (labels, isDotted) := labelsOf name
  let written ← labels.mapM Text.Label.write
  if written.isEmpty then throw .malformed
  let s := ".".intercalate (written.map String.ofList)
  if maxLength < s.length then throw .malformed
  return if isDotted then s ++ "." else s

/-- Whether a character may stand in a name of ASCII. -/
def isKept (c : Char) : Bool := c.isAlphanum || "-._~!$&'()*+,;=\"\x60{}%|\\".toList.contains c

/-- A host in its written form, without brackets. There may be none. -/
def write? (host : String) : Option String :=
  let cs := host.toList
  if cs.isEmpty then some ""
  else if looksLikeVersion4 host then if isVersion4 host then some host else none
  else if 2 ≤ cs.length && cs.head? == some '[' && cs.getLast? == some ']' then
    let inner := String.ofList ((cs.drop 1).dropLast)
    if isVersion6 inner then some inner else none
  else if cs.all fun c => c.toNat < 128 then
    some (String.ofList (Text.percentEncode isKept (cs.map Char.toLower)))
  else (writeName (Text.lowerAll cs)).toOption

/-- Why a name in its written form stands for none. Only those that begin with a label in Punycode are
looked into. -/
def problem? (host : String) : Option LabelFault :=
  if Text.Label.mark.isPrefixOf host.toList then
    (labelsOf host.toList).1.findSome? Text.Label.writtenProblem?
  else none

@[simp] theorem write?_empty : write? "" = some "" := by simp [write?]

end Harvest.Host
