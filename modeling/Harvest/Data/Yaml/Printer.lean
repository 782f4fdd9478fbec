import Harvest.Data.Value.Display
import Harvest.Data.Yaml.Node.Resolution

/-!
# Writing YAML

`Yaml.render` writes an object in block style. A text is written plainly where it reads back as itself,
else between single quotes, and between double quotes if it holds characters that need an escape. Long
texts are folded at a column; the dashes of a list stand below the key of the list.
-/

namespace Harvest.Yaml

/-! ### The text so far -/

/-- A text that is being written, and where it stands. -/
structure Page where
  text : String
  column : Nat
  /-- Whether what comes next is set apart from what was before. -/
  isSpaced : Bool
  /-- Whether the current line holds only blanks and signs of collections. -/
  isFresh : Bool
  deriving Repr

namespace Page

def blank : Page := { text := "", column := 0, isSpaced := true, isFresh := true }

def write (p : Page) (cs : List Char) : Page :=
  { p with text := p.text ++ String.ofList cs, column := p.column + cs.length }

def newline (p : Page) : Page :=
  { text := p.text ++ "\n", column := 0, isSpaced := true, isFresh := true }

/-- Goes to a column, on a new line unless only signs stand before it on the current one. -/
def indentTo (p : Page) (column : Nat) : Page :=
  let p := if !p.isFresh || column < p.column || (p.column = column && !p.isSpaced) then p.newline
    else p
  if p.column < column then { p.write (List.replicate (column - p.column) ' ') with isSpaced := true }
  else p

/-- Writes a sign; `apart` says whether it needs a blank before it. -/
def sign (p : Page) (c : Char) (apart : Bool) : Page :=
  { p.write (if p.isSpaced || !apart then [c] else [' ', c]) with isSpaced := false, isFresh := false }

/-- Writes the sign of a collection, after which the line still counts as fresh. -/
def mark (p : Page) (c : Char) : Page := { p.sign c true with isFresh := p.isFresh }

/-- The column beyond which texts are folded. -/
def width : Nat := 80

end Page

namespace Scalar

/-! ### Choosing a style -/

/-- How a text is written. -/
inductive Style where
  | plain
  | single
  | double
  deriving DecidableEq, Repr

def isSpecial (c : Char) : Bool := c ≠ '\n' && !(' ' ≤ c && c ≤ '~')

/-- Whether a sign that begins a collection or a comment makes a text unfit for the plain style.
`before` and `after` say whether the character is at an end of the text or next to a blank. -/
def hasSign : Bool → List Char → Bool
  | _, [] => false
  | before, c :: cs =>
    let after := match cs with
      | [] => true
      | d :: _ => isSpaceOrEnd d
    (c = ':' && after) || (c = '#' && before) || hasSign (isSpaceOrEnd c) cs

def startsWithSign (cs : List Char) : Bool :=
  match cs with
  | [] => false
  | c :: rest =>
    let after := match rest with
      | [] => true
      | d :: _ => isSpaceOrEnd d
    "#,[]\x7b\x7d&*!|>\x27\x22%@\x60".toList.contains c || (after && (c = '?' || c = ':' || c = '-'))
      || cs.take 3 == ['-', '-', '-'] || cs.take 3 == ['.', '.', '.']

/-- Whether two characters with the given properties follow each other. -/
def hasPair (p q : Char → Bool) : List Char → Bool
  | c :: d :: rest => (p c && q d) || hasPair p q (d :: rest)
  | _ => false

/-- Whether a text can be written plainly, apart from what it would then denote. -/
def allowsPlain (cs : List Char) : Bool :=
  !(cs.any (fun c => isSpecial c || c = '\n') || cs.head? = some ' ' || cs.getLast? = some ' '
    || startsWithSign cs || hasSign true cs)

/-- Whether a text can be written between single quotes. -/
def allowsSingle (cs : List Char) : Bool :=
  !(cs.any isSpecial || hasPair (· = '\n') (· = ' ') cs || hasPair (· = ' ') (· = '\n') cs)

/-- The style of a text; a key must stay on one line. -/
def style (isKey : Bool) (text : String) : Style :=
  let cs := text.toList
  if TagName.ofText text = .str && allowsPlain cs then .plain
  else if allowsSingle cs && !(isKey && cs.contains '\n') then .single
  else .double

/-! ### Writing -/

def shortEscape? (c : Char) : Option Char :=
  match c with
  | '\x00' => some '0'
  | '\x07' => some 'a'
  | '\x08' => some 'b'
  | '\t' => some 't'
  | '\n' => some 'n'
  | '\x0b' => some 'v'
  | '\x0c' => some 'f'
  | '\r' => some 'r'
  | '\x1b' => some 'e'
  | '"' => some '"'
  | '\\' => some '\\'
  | '\u0085' => some 'N'
  | '\u00a0' => some '_'
  | '\u2028' => some 'L'
  | '\u2029' => some 'P'
  | _ => none

/-- A character between double quotes, if it is escaped. -/
def escaped? (c : Char) : Option (List Char) :=
  match shortEscape? c with
  | some e => some ['\\', e]
  | none =>
    if ' ' ≤ c && c ≤ '~' then none
    else if c.toNat < 0x100 then some ('\\' :: 'x' :: Text.capitalHex 2 c.toNat)
    else if c.toNat < 0x10000 then some ('\\' :: 'u' :: Text.capitalHex 4 c.toNat)
    else some ('\\' :: 'U' :: Text.capitalHex 8 c.toNat)

def foldDouble (indent : Nat) (p : Page) : Page :=
  { (p.write ['\\']).indentTo indent with isSpaced := false, isFresh := false }

/-- Writes characters between double quotes. `inside` says that some came before, `afterEscape` that
the last one was escaped. -/
def writeDouble (indent : Nat) (split : Bool) : Bool → Bool → List Char → Page → Page
  | _, _, [], p => p
  | inside, afterEscape, c :: cs, p =>
    let mayFold := split && inside && !cs.isEmpty
    match escaped? c with
    | some e =>
      let p := p.write e
      let p :=
        if mayFold && Page.width < p.column - 1 then
          let p := foldDouble indent p
          if cs.head? = some ' ' then p.write ['\\'] else p
        else p
      writeDouble indent split true true cs p
    | none =>
      let p :=
        if mayFold && (c = ' ' || afterEscape) && Page.width < p.column then
          let p := foldDouble indent p
          if c = ' ' then p.write ['\\'] else p
        else p
      writeDouble indent split true false cs (p.write [c])

/-- The kinds of characters that are kept together. -/
def runKind (c : Char) : Nat := if c = ' ' then 0 else if c = '\n' then 1 else 2

/-- Runs of blanks, line ends and other characters. -/
def runs (cs : List Char) : List (List Char) := cs.splitBy fun c d => runKind c == runKind d

/-- Writes runs; a blank beyond the width becomes the end of a line. `inside` says that some came
before. -/
def writeRuns (indent : Nat) (split : Bool) : Bool → List (List Char) → Page → Page
  | _, [], p => p
  | inside, run :: rest, p =>
    let p :=
      if run = [' '] && split && inside && !rest.isEmpty && Page.width < p.column then p.indentTo indent
      else if run.head? = some '\n' then (run.foldl (fun p _ => p.newline) p.newline).indentTo indent
      else p.write run
    writeRuns indent split true rest p

def doubled (cs : List Char) : List Char := cs.flatMap fun c => if c = '\'' then [c, c] else [c]

def write (indent : Nat) (split : Bool) (style : Style) (text : String) (p : Page) : Page :=
  let cs := text.toList
  match style with
  | .plain =>
    let p := if p.isSpaced then p else p.write [' ']
    let p := writeRuns indent split false (runs cs) { p with isSpaced := false, isFresh := false }
    { p with isSpaced := false, isFresh := false }
  | .single =>
    (writeRuns indent split false (runs cs |>.map doubled) (p.sign '\'' true)).sign '\'' false
  | .double => (writeDouble indent split false false cs (p.sign '"' true)).sign '"' false

end Scalar

/-! ### Values -/

/-- A number as it reads back: with a point even where it has an exponent. -/
def floatText (x : Double) : String :=
  match x with
  | .nan => ".nan"
  | .infinity false => ".inf"
  | .infinity true => "-.inf"
  | x =>
    let cs := x.display.toList
    if cs.contains '.' then x.display
    else String.ofList (cs.takeWhile (· ≠ 'e') ++
      (if cs.contains 'e' then ['.', '0'] else []) ++ cs.dropWhile (· ≠ 'e'))

def atomText : Atom → String × String
  | .null => ("null", "null")
  | .bool true => ("true", "bool")
  | .bool false => ("false", "bool")
  | .int i => (toString i, "int")
  | .float x => (floatText x, "float")
  | .str s => (s, "str")
  | .bytes bs => (Text.quotedBytes bs, "binary")
  | .date d => (d.display, "timestamp")
  | .time t => (t.display, "timestamp")

def writeAtom (indent : Nat) (isKey : Bool) (a : Atom) (p : Page) : Page :=
  match a with
  | .str s => Scalar.write indent (!isKey) (Scalar.style isKey s) s p
  | a => Scalar.write indent (!isKey) .plain (atomText a).1 p

/-- The length, with its tag, that a key on one line must not reach. -/
def maxKeyLength : Nat := 128

def writeNothing (p : Page) : Page := (p.sign '[' true).sign ']' false

/-- The column of the items of a list: that of the collection around it where it is the value of a key,
and else further right. -/
def itemIndent (indent : Nat) (isMember : Bool) (p : Page) : Nat :=
  if isMember && !p.isFresh then indent else indent + 2

def isLineEnd (c : Char) : Bool := isBreak c && c ≠ '\r'

/-- Whether a key can stand on one line with its value. -/
def isSimpleKey (a : Atom) : Bool :=
  let (text, tag) := atomText a
  text.length + tag.length + 2 < maxKeyLength && text ≠ "" && !text.toList.any isLineEnd

mutual

/-- Writes a value; `indent` is the column of the collection around it, and `isMember` says whether it
is the value of a key. Sets and pairs are written as lists, and an alias as nothing. -/
def writeValue (indent : Nat) (isMember : Bool) : Value → Page → Page
  | .atom a, p => writeAtom (indent + 2) false a p
  | .list [], p => writeNothing p
  | .list (x :: xs), p => writeItems (itemIndent indent isMember p) (x :: xs) p
  | .set [], p => writeNothing p
  | .set (e :: es), p =>
    let inner := itemIndent indent isMember p
    (e :: es).foldl (fun p e => writeAtom (inner + 2) false e ((p.indentTo inner).mark '-')) p
  | .pair a b, p =>
    let inner := itemIndent indent isMember p
    let p := writeValue inner false a ((p.indentTo inner).mark '-')
    writeValue inner false b ((p.indentTo inner).mark '-')
  | .anchored _ v, p => writeValue indent isMember v p
  | .reference _, p => writeAtom (indent + 2) false .null p
  | .object [], p => (p.sign '\x7b' true).sign '\x7d' false
  | .object (m :: ms), p => writeMembers (indent + 2) (m :: ms) p

def writeItems (indent : Nat) : List Value → Page → Page
  | [], p => p
  | x :: xs, p => writeItems indent xs (writeValue indent false x ((p.indentTo indent).mark '-'))

def writeMembers (indent : Nat) : List (Atom × Value) → Page → Page
  | [], p => p
  | (k, v) :: ms, p =>
    let p := p.indentTo indent
    let p :=
      if isSimpleKey k then (writeAtom (indent + 2) true k p).sign ':' false
      else ((writeAtom (indent + 2) false k (p.mark '?')).indentTo indent).mark ':'
    writeMembers indent ms (writeValue indent true v p)

end

def render (ms : Members) : String :=
  let p := match ms with
    | [] => (Page.blank.sign '\x7b' true).sign '\x7d' false
    | ms => writeMembers 0 ms Page.blank
  (p.indentTo 0).text

end Harvest.Yaml
