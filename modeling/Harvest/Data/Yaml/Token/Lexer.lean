import Harvest.Data.Yaml.Token.Tag

/-!
# Splitting YAML into tokens

Indentation opens and closes block collections. A scalar, alias or flow collection may turn out to be a
key only when a colon follows it on the same line, so the lexer notes where each candidate began; the
colon then puts the tokens that announce a key before it.
-/

namespace Harvest.Yaml

/-- A place at which a key may have begun. -/
structure Candidate where
  /-- The number of flow collections around it. -/
  depth : Nat
  /-- The number of tokens before it. -/
  position : Nat
  /-- Whether the text is malformed if no key began there. -/
  required : Bool
  index : Nat
  line : Nat
  column : Nat
  deriving Repr

/-- How far a text has been split. -/
structure Lexing where
  cursor : Cursor
  tokens : List Token
  /-- The number of open flow collections. -/
  depth : Nat
  /-- The column of the innermost block collection, -1 outside of all. -/
  indent : Int
  /-- The columns of the collections around it. -/
  outer : List Int
  /-- Whether a key may begin at the next token. -/
  allowsKey : Bool
  candidates : List Candidate
  deriving Repr

namespace Lexing

/-- The state before the first token. -/
def start (cs : List Char) : Lexing :=
  { cursor := Cursor.start cs, tokens := [], depth := 0, indent := -1, outer := []
    allowsKey := true, candidates := [] }

def emit (s : Lexing) (t : Token) : Lexing := { s with tokens := s.tokens ++ [t] }

def take (s : Lexing) (t : Token) (n : Nat) : Lexing :=
  { s.emit t with cursor := s.cursor.forwardBy n }

/-! ### Candidates -/

def maxKeyLength : Nat := 1024

/-- Whether the text after a candidate is too long, or on another line. -/
def isPast (c : Cursor) (k : Candidate) : Bool :=
  k.line ≠ c.line || c.index - k.index > maxKeyLength

def drop (s : Lexing) (p : Candidate → Bool) : Reading Lexing :=
  if s.candidates.any fun k => p k && k.required then malformed
  else .ok { s with candidates := s.candidates.filter fun k => !p k }

/-- Drops the candidate among the current flow collection's tokens. -/
def dropCurrent (s : Lexing) : Reading Lexing := s.drop (·.depth = s.depth)

/-- Notes that a key may begin at the current place. -/
def note (s : Lexing) : Reading Lexing :=
  if s.allowsKey then do
    let s ← s.dropCurrent
    let k : Candidate :=
      { depth := s.depth, position := s.tokens.length
        required := s.depth = 0 && s.indent = s.cursor.column
        index := s.cursor.index, line := s.cursor.line, column := s.cursor.column }
    return { s with candidates := k :: s.candidates }
  else .ok s

/-! ### Indentation -/

/-- Closes block collections that begin beyond a column. -/
def closeTo (column : Int) : Int → List Int → List Token → Int × List Int × List Token
  | indent, [], ts => (indent, [], ts)
  | indent, i :: outer, ts =>
    if indent > column then closeTo column i outer (ts ++ [.blockEnd]) else (indent, i :: outer, ts)

/-- Closes block collections that begin beyond a column; within a flow collection columns mean
nothing. -/
def unwind (s : Lexing) (column : Int) : Lexing :=
  if s.depth > 0 then s
  else
    let (indent, outer, tokens) := closeTo column s.indent s.outer s.tokens
    { s with indent, outer, tokens }

/-- Opens a block collection at a column, unless one begins there: its token is put at a position. -/
def openAt (s : Lexing) (column position : Nat) (t : Token) : Lexing :=
  if s.depth = 0 && s.indent < column then
    { s with
      indent := column, outer := s.indent :: s.outer
      tokens := s.tokens.take position ++ t :: s.tokens.drop position }
  else s

/-- Opens a block collection at the current place, where a key must be allowed. -/
def openHere (s : Lexing) (t : Token) : Reading Lexing :=
  if s.depth = 0 && !s.allowsKey then malformed
  else .ok (s.openAt s.cursor.column s.tokens.length t)

/-! ### Tokens -/

/-- Passes over blanks, comments and line ends. A key may begin on a new line. -/
def blanks : Nat → Lexing → Lexing
  | 0, s => s
  | fuel + 1, s =>
    let c := s.cursor.skipSpaces
    let c := if c.peek = '#' then c.skip (fun x => !isBreakOrEnd x) else c
    match c.lineBreak? with
    | some (_, c) => blanks fuel { s with cursor := c, allowsKey := s.allowsKey || s.depth = 0 }
    | none => { s with cursor := c }

/-- Reads a token that ends all block collections. -/
def outside (s : Lexing) (read : Cursor → Reading (Token × Cursor)) : Reading Lexing := do
  let s ← (s.unwind (-1)).dropCurrent
  let (t, c) ← read s.cursor
  return { s.emit t with cursor := c, allowsKey := false }

def keyPart (s : Lexing) (read : Cursor → Reading (Token × Cursor)) : Reading Lexing := do
  let s ← s.note
  let (t, c) ← read s.cursor
  return { s.emit t with cursor := c, allowsKey := false }

def flowStart (s : Lexing) (t : Token) : Reading Lexing := do
  let s ← s.note
  return { s.take t 1 with depth := s.depth + 1, allowsKey := true }

def flowEnd (s : Lexing) (t : Token) : Reading Lexing := do
  let s ← s.dropCurrent
  match s.depth with
  | 0 => malformed
  | depth + 1 => return { s.take t 1 with depth, allowsKey := false }

def flowEntry (s : Lexing) : Reading Lexing := do
  let s ← s.dropCurrent
  return { s.take .flowEntry 1 with allowsKey := true }

def blockEntry (s : Lexing) : Reading Lexing := do
  let s ← (← s.openHere .blockSequenceStart).dropCurrent
  return { s.take .blockEntry 1 with allowsKey := true }

def key (s : Lexing) : Reading Lexing := do
  let s ← (← s.openHere .blockMappingStart).dropCurrent
  return { s.take .key 1 with allowsKey := s.depth = 0 }

/-- Reads the colon before a value. If there is a candidate, it was a key. -/
def value (s : Lexing) : Reading Lexing :=
  match s.candidates.find? (·.depth = s.depth) with
  | some k =>
    let tokens := s.tokens.take k.position ++ .key :: s.tokens.drop k.position
    let candidates := s.candidates.filter (·.depth ≠ s.depth)
    let s := { s with tokens, candidates }
    let s := s.openAt k.column k.position .blockMappingStart
    .ok { s.take .value 1 with allowsKey := false }
  | none => do
    let s ← (← s.openHere .blockMappingStart).dropCurrent
    return { s.take .value 1 with allowsKey := s.depth = 0 }

def quoted (quote : Char) (c : Cursor) : Reading (Token × Cursor) := do
  let (text, c) ← Scalar.quoted quote (c.rest.length + 2) [] c.forward
  return (.scalar (String.ofList text) false, c)

def block (s : Lexing) (fold : Bool) : Reading Lexing := do
  let s ← s.dropCurrent
  let (text, c) ← Scalar.block fold s.indent s.cursor.forward
  return { s.emit (.scalar (String.ofList text) false) with cursor := c, allowsKey := true }

def plain (s : Lexing) : Reading Lexing := do
  let s ← s.note
  let c := s.cursor
  let (text, ended, c) := Scalar.plain (s.depth > 0) s.indent (c.rest.length + 1) [] [] false c
  return { s.emit (.scalar (String.ofList text) true) with cursor := c, allowsKey := ended }

def startsPlain (inFlow : Bool) (c : Cursor) : Bool :=
  let x := c.peek
  !(isSpaceOrEnd x || "-?:,[]\x7b\x7d#&*!|>\x27\x22%@\x60".toList.contains x)
    || (!isSpaceOrEnd (c.peekAt 1) && (x = '-' || (!inFlow && (x = '?' || x = ':'))))

/-- Reads a token that needs one character to be told from others. -/
def sign (s : Lexing) : Reading Lexing :=
  let c := s.cursor
  let inFlow := s.depth > 0
  let isAlone := isSpaceOrEnd (c.peekAt 1)
  match c.peek with
  | '[' => s.flowStart .flowSequenceStart
  | '\x7b' => s.flowStart .flowMappingStart
  | ']' => s.flowEnd .flowSequenceEnd
  | '\x7d' => s.flowEnd .flowMappingEnd
  | ',' => s.flowEntry
  | '*' => s.keyPart fun c => do
    let (n, c) ← Tag.anchorName c.forward
    return (.reference n, c)
  | '&' => s.keyPart fun c => do
    let (n, c) ← Tag.anchorName c.forward
    return (.anchor n, c)
  | '!' => s.keyPart Tag.tag
  | '\'' => s.keyPart (quoted '\'')
  | '"' => s.keyPart (quoted '"')
  | x =>
    if x = '-' && isAlone then s.blockEntry
    else if x = '?' && (inFlow || isAlone) then s.key
    else if x = ':' && (inFlow || isAlone) then s.value
    else if x = '|' && !inFlow then s.block false
    else if x = '>' && !inFlow then s.block true
    else if startsPlain inFlow c then s.plain
    else malformed

/-- Reads the next token. -/
def step (s : Lexing) : Reading Lexing := do
  let s := s.blanks (s.cursor.rest.length + 1)
  let s ← s.drop (isPast s.cursor)
  let s := s.unwind s.cursor.column
  let c := s.cursor
  if c.peek = endMark then
    let s ← (s.unwind (-1)).dropCurrent
    return s.emit .streamEnd
  else if c.column = 0 && c.peek = '%' then s.outside fun c => Tag.directive c.forward
  else if c.column = 0 && c.atMarker '-' then s.outside fun c => .ok (.documentStart, c.forwardBy 3)
  else if c.column = 0 && c.atMarker '.' then s.outside fun c => .ok (.documentEnd, c.forwardBy 3)
  else s.sign

/-- The number of tokens that stay as they are. Before a candidate a key may still be announced, so its
token counts only once the text after it has been read. -/
def settled (s : Lexing) : Nat :=
  ((s.candidates.filter fun k => !isPast s.cursor k).map (·.position)).foldl min s.tokens.length

/-- Reads all tokens. A problem stands after the tokens that are settled. -/
def run : Nat → Lexing → List Token
  | 0, s => s.tokens
  | fuel + 1, s =>
    match s.step with
    | .error p => s.tokens.take s.settled ++ [.unreadable p]
    | .ok next => if next.tokens.getLast? = some .streamEnd then next.tokens else run fuel next

end Lexing

/-- The tokens of a text. -/
def Token.scan (cs : List Char) : List Token :=
  if cs.all isAllowed then (Lexing.start cs).run (cs.length + 2) else [.unreadable .malformed]

end Harvest.Yaml
