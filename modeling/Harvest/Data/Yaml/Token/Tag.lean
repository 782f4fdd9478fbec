import Harvest.Data.Number
import Harvest.Data.Yaml.Token.Scalar

/-!
# Directives, anchors and tags as written

A directive stands on a line of its own before a document. Anchors and aliases are names; a tag is an
abbreviated or a whole identifier, in which other characters are written by the codes of their bytes.
-/

namespace Harvest.Yaml

/-! ### Bytes -/

/-- The continuation bytes of a character: the character's value so far is extended by each. -/
def continued? (least : Nat) : Nat → Nat → List Nat → Option (Char × List Nat)
  | 0, value, bytes =>
    if h : value.isValidChar then
      if least ≤ value then some (Char.ofNatAux value h, bytes) else none
    else none
  | n + 1, value, b :: bytes =>
    if 0x80 ≤ b && b < 0xC0 then continued? least n (value * 64 + (b - 0x80)) bytes else none
  | _ + 1, _, [] => none

def firstOfBytes? : List Nat → Option (Char × List Nat)
  | [] => none
  | b :: bytes =>
    if b < 0x80 then continued? 0 0 b bytes
    else if 0xC0 ≤ b && b < 0xE0 then continued? 0x80 1 (b - 0xC0) bytes
    else if 0xE0 ≤ b && b < 0xF0 then continued? 0x800 2 (b - 0xE0) bytes
    else if 0xF0 ≤ b && b < 0xF8 then continued? 0x10000 3 (b - 0xF0) bytes
    else none

def textOfBytes? : Nat → List Nat → Option (List Char)
  | 0, _ => none
  | _ + 1, [] => some []
  | fuel + 1, bytes => do
    let (c, rest) ← firstOfBytes? bytes
    return c :: (← textOfBytes? fuel rest)

namespace Tag

/-! ### Names -/

def name (c : Cursor) : Reading (String × Cursor) :=
  let (chars, c) := c.span isNameChar
  if chars.isEmpty then malformed else .ok (String.ofList chars, c)

/-- Reads the name of an anchor or an alias, after its sign. -/
def anchorName (c : Cursor) : Reading (String × Cursor) := do
  let (text, c) ← name c
  if isSpaceOrEnd c.peek || "?:,]\x7d%@\x60".toList.contains c.peek then return (text, c) else malformed

/-! ### Tags -/

/-- Reads an abbreviation: one or two exclamation marks, or a name between two. -/
def handle (c : Cursor) : Reading (String × Cursor) :=
  if c.peek ≠ '!' then malformed
  else if c.peekAt 1 = ' ' then .ok ("!", c.forward)
  else
    let (chars, c) := c.forward.span isNameChar
    if c.peek = '!' then .ok (String.ofList ('!' :: chars ++ ['!']), c.forward) else malformed

def codes : Nat → Cursor → Reading (List Nat × Cursor)
  | 0, _ => malformed
  | fuel + 1, c =>
    if c.peek = '%' then
      match Text.hexValue? (c.peekAt 1), Text.hexValue? (c.peekAt 2) with
      | some x, some y => do
        let (more, c) ← codes fuel (c.forwardBy 3)
        return ((x * 16 + y) :: more, c)
      | _, _ => malformed
    else .ok ([], c)

def identifier : Nat → List Char → Cursor → Reading (List Char × Cursor)
  | 0, _, _ => malformed
  | fuel + 1, acc, c =>
    if c.peek = '%' then do
      let (bytes, c) ← codes (c.rest.length + 1) c
      match textOfBytes? (bytes.length + 1) bytes with
      | some text => identifier fuel (acc ++ text) c
      | none => malformed
    else if isTagChar c.peek then identifier fuel (acc ++ [c.peek]) c.forward
    else .ok (acc, c)

def someIdentifier (c : Cursor) : Reading (String × Cursor) := do
  if c.peek = '%' || isTagChar c.peek then
    let (chars, c) ← identifier (c.rest.length + 1) [] c
    return (String.ofList chars, c)
  else malformed

/-- Whether a tag that is read from a place begins with a named abbreviation. -/
def isAbbreviated (c : Cursor) : Bool :=
  (c.forward.rest.takeWhile fun x => !isPlainSpaceOrEnd x).contains '!'

def tag (c : Cursor) : Reading (Token × Cursor) := do
  let (token, c) ←
    if c.peekAt 1 = '<' then do
      let (text, c) ← someIdentifier (c.forwardBy 2)
      if c.peek = '>' then pure (Token.tag none text, c.forward) else malformed
    else if isSpaceOrEnd (c.peekAt 1) then pure (Token.tag none "!", c.forward)
    else do
      let (abbreviation, c) ← if isAbbreviated c then handle c else pure ("!", c.forward)
      let (text, c) ← someIdentifier c
      pure (Token.tag (some abbreviation) text, c)
  if isPlainSpaceOrEnd c.peek then return (token, c) else malformed

/-! ### Directives -/

def number (c : Cursor) : Reading (Nat × Cursor) :=
  let (digits, c) := c.span Char.isDigit
  if digits.isEmpty then malformed
  else if Numeral.maxDigits < digits.length then .error (.fault .content)
  else .ok (digits.foldl (fun n d => n * 10 + (d.toNat - 48)) 0, c)

def version (c : Cursor) : Reading (Token × Cursor) := do
  let (major, c) ← number c.skipSpaces
  if c.peek ≠ '.' then malformed
  else
    let (_, c) ← number c.forward
    if isPlainSpaceOrEnd c.peek then return (.version major, c) else malformed

def abbreviation (c : Cursor) : Reading (Token × Cursor) := do
  let (short, c) ← handle c.skipSpaces
  if c.peek ≠ ' ' then malformed
  else
    let (long, c) ← someIdentifier c.skipSpaces
    if isPlainSpaceOrEnd c.peek then return (.tagHandle short long, c) else malformed

def directive (c : Cursor) : Reading (Token × Cursor) := do
  let (title, c) ← name c
  if isPlainSpaceOrEnd c.peek then
    let (token, c) ←
      if title = "YAML" then version c
      else if title = "TAG" then abbreviation c
      else pure (Token.otherDirective, c.skip fun x => !isBreakOrEnd x)
    return (token, ← Scalar.restOfLine c)
  else malformed

end Tag

end Harvest.Yaml
