import Harvest.Data.Fault
import Harvest.Text.Composition
import Harvest.Text.Label.Direction
import Harvest.Text.Label.Joining
import Harvest.Text.Label.Letter
import Harvest.Text.Punycode

/-!
# Labels

A host name is a row of labels. A label with letters beyond ASCII is written as `xn--` and its Punycode.
Not every text is a label: `Label.problem?` says why not, and a text in the written form is a label if
what it stands for is one.
-/

namespace Harvest.Text.Label

def greekRanges : List (Nat × Nat) :=
  [(881, 993), (1011, 1020), (7462, 7466), (7936, 8182), (43877, 43877)]

def hebrewRanges : List (Nat × Nat) := [(1425, 1522), (64286, 64286)]

def japaneseRanges : List (Nat × Nat) := [
  (12293, 12293), (12295, 12295), (12353, 12438), (12445, 12446), (12449, 12538), (12541, 12542),
  (12784, 12799), (13312, 40959), (64014, 64041), (94179, 94179), (94192, 94193), (110576, 110930),
  (110948, 110951), (131072, 201546)]

def arabicDigits : List (Nat × Nat) := [(0x660, 0x669)]

def extendedArabicDigits : List (Nat × Nat) := [(0x6F0, 0x6F9)]

/-- Whether a mark stands before that takes the vowel away. -/
def followsVirama (before : List Char) : Bool :=
  before.head?.any fun c => combiningClass c == viramaClass

/-- Whether a character that needs certain neighbours has them, nothing for any other one. `before` is
in reverse. -/
def hasContext? (label before : List Char) (c : Char) (after : List Char) : Option Bool :=
  if c = '\u200c' then some (followsVirama before || wouldJoin before after)
  else if c = '\u200d' then some (followsVirama before)
  else if c = '\u00b7' then some (before.head? == some 'l' && after.head? == some 'l')
  else if c = '\u0375' then some (after.head?.any (isWithin greekRanges))
  else if c = '\u05f3' || c = '\u05f4' then some (before.head?.any (isWithin hebrewRanges))
  else if c = '\u30fb' then some (label.any (isWithin japaneseRanges))
  else if isWithin arabicDigits c then some (!label.any (isWithin extendedArabicDigits))
  else if isWithin extendedArabicDigits c then some (!label.any (isWithin arabicDigits))
  else none

/-- The first character of a label that may not stand where it does. -/
def misplaced? (label before : List Char) : List Char → Option LabelFault
  | [] => none
  | c :: after =>
    match hasContext? label before c after with
    | some true => misplaced? label (c :: before) after
    | some false => some .context
    | none => if isLabelLetter c then misplaced? label (c :: before) after else some .character

def isHyphenated (cs : List Char) : Bool :=
  cs.head? == some '-' || cs.getLast? == some '-' || (cs.drop 2).take 2 == ['-', '-']

def problem? (cs : List Char) : Option LabelFault :=
  if cs.isEmpty || !isComposed cs || isHyphenated cs || cs.head?.any isMark then some .malformed
  else
    match misplaced? cs [] cs with
    | some f => some f
    | none => if isDirected cs then none else some .direction

def mark : List Char := ['x', 'n', '-', '-']

/-- Why a text of ASCII is not the written form of a label. -/
def writtenProblem? (cs : List Char) : Option LabelFault :=
  let cs := cs.map Char.toLower
  if mark.isPrefixOf cs then
    let code := cs.drop mark.length
    if code.isEmpty || code.getLast? == some '-' then some .malformed
    else
      match Punycode.decode? code with
      | some text => problem? text
      | none => some .malformed
  else problem? cs

def maxLength : Nat := 63

def write (cs : List Char) : Except LabelFault (List Char) :=
  let (problem, written) :=
    if cs.all fun c => c.toNat < 128 then (writtenProblem? cs, cs)
    else (problem? cs, mark ++ Punycode.encode cs)
  match problem with
  | some f => .error f
  | none => if maxLength < written.length then .error .malformed else .ok written

/-- The empty text is no label. -/
@[simp] theorem problem?_nil : problem? [] = some .malformed := rfl

end Harvest.Text.Label
