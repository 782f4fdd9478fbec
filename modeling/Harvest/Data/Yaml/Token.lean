import Harvest.Data.Fault

/-!
# Tokens of YAML

The tokens of a YAML text. Indentation has become brackets: a block collection starts with a token of
its own and ends with `blockEnd`. A key is announced by `key` even where the text marks only the value
after it.
-/

namespace Harvest.Yaml

/-- Why a text has no value. -/
inductive Problem where
  /-- The text breaks the rules of YAML. -/
  | malformed
  /-- A scalar does not denote what its tag says. -/
  | fault (f : Fault)
  deriving DecidableEq, Repr, Inhabited

inductive Token where
  | streamEnd
  | version (major : Nat)
  | tagHandle (handle expansion : String)
  | otherDirective
  | documentStart
  | documentEnd
  | blockSequenceStart
  | blockMappingStart
  | blockEnd
  | flowSequenceStart
  | flowSequenceEnd
  | flowMappingStart
  | flowMappingEnd
  | blockEntry
  | flowEntry
  | key
  | value
  | reference (name : String)
  | anchor (name : String)
  /-- A tag: an abbreviation and what follows it, or a whole tag. -/
  | tag (handle : Option String) (suffix : String)
  | scalar (text : String) (plain : Bool)
  /-- Stands for the rest of a text that cannot be split into tokens. -/
  | unreadable (p : Problem)
  deriving DecidableEq, Repr, Inhabited

namespace Token

def isDirective : Token → Bool
  | version _ => true
  | tagHandle .. => true
  | otherDirective => true
  | _ => false

end Token

/-! ### Characters -/

/-- Stands for the end of a text, in which it cannot occur. -/
def endMark : Char := '\x00'

def isBreak (c : Char) : Bool :=
  c = '\n' || c = '\r' || c.toNat = 0x85 || c.toNat = 0x2028 || c.toNat = 0x2029

def isBreakOrEnd (c : Char) : Bool := isBreak c || c = endMark

/-- Whether a character is a blank, ends a line or ends the text. -/
def isSpaceOrEnd (c : Char) : Bool := c = ' ' || c = '\t' || isBreakOrEnd c

/-- Whether a character is a space, ends a line or ends the text. -/
def isPlainSpaceOrEnd (c : Char) : Bool := c = ' ' || isBreakOrEnd c

def isAllowed (c : Char) : Bool :=
  let n := c.toNat
  n = 9 || n = 10 || n = 13 || (32 ≤ n && n ≤ 126) || n = 0x85 || (0xA0 ≤ n && n ≤ 0xD7FF)
    || (0xE000 ≤ n && n ≤ 0xFFFD) || 0x10000 ≤ n

def isNameChar (c : Char) : Bool := c.isAlphanum || c = '-' || c = '_'

def isTagChar (c : Char) : Bool := c.isAlphanum || "-;/?:@&=+$,_.!~*'()[]%".toList.contains c

end Harvest.Yaml
