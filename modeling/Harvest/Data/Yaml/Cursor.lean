import Harvest.Data.Yaml.Token

/-!
# Cursors

A place in a text, with its line and column. A cursor only moves forward.
-/

namespace Harvest.Yaml

/-- A place in a text: what is still to be read, and where that is. -/
structure Cursor where
  rest : List Char
  index : Nat
  line : Nat
  column : Nat
  deriving Repr, Inhabited

namespace Cursor

/-- The place before the first character. A byte order mark there is passed over. -/
def start (cs : List Char) : Cursor :=
  match cs with
  | c :: rest =>
    if c.toNat = 0xFEFF then { rest, index := 1, line := 0, column := 0 }
    else { rest := cs, index := 0, line := 0, column := 0 }
  | [] => { rest := [], index := 0, line := 0, column := 0 }

def peek (c : Cursor) : Char := c.rest.headD endMark

def peekAt (c : Cursor) (n : Nat) : Char := (c.rest.drop n).headD endMark

/-- The place after the next character. -/
def forward (c : Cursor) : Cursor :=
  match c.rest with
  | [] => c
  | x :: rest =>
    if isBreak x && !(x = '\r' && rest.head? = some '\n') then
      { rest, index := c.index + 1, line := c.line + 1, column := 0 }
    else
      { rest, index := c.index + 1, line := c.line
        column := if x.toNat = 0xFEFF then c.column else c.column + 1 }

/-- The place after a number of characters. -/
def forwardBy (c : Cursor) : Nat → Cursor
  | 0 => c
  | n + 1 => c.forward.forwardBy n

/-- The characters with a property, and the place after them. -/
def span (c : Cursor) (p : Char → Bool) : List Char × Cursor :=
  let taken := c.rest.takeWhile p
  (taken, c.forwardBy taken.length)

/-- The place after all characters with a property. -/
def skip (c : Cursor) (p : Char → Bool) : Cursor := (c.span p).2

def skipSpaces (c : Cursor) : Cursor := c.skip (· = ' ')

/-- The end of a line, as one character, and the place after it. -/
def lineBreak? (c : Cursor) : Option (Char × Cursor) :=
  let x := c.peek
  if x = '\r' && c.peekAt 1 = '\n' then some ('\n', c.forwardBy 2)
  else if x = '\n' || x = '\r' || x.toNat = 0x85 then some ('\n', c.forward)
  else if isBreak x then some (x, c.forward)
  else none

def atMarker (c : Cursor) (mark : Char) : Bool :=
  c.rest.take 3 == [mark, mark, mark] && isSpaceOrEnd (c.peekAt 3)

/-- Whether a line at this place starts or ends a document. -/
def atSeparator (c : Cursor) : Bool := c.atMarker '-' || c.atMarker '.'

end Cursor

end Harvest.Yaml
