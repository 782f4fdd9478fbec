import Harvest.Data.Json.Parser
import Harvest.GraphQL.Token

/-!
# From text to tokens

`Token.scan` reads a whole text. Blanks, commas, comments and byte-order marks separate tokens and are
skipped. Where no token can be read the list ends with the reason, so that a parser meets it only when
it gets there.
-/

namespace Harvest.GraphQL

def isNameStart (c : Char) : Bool := c.isAlpha || c = '_'

def isNameContinue (c : Char) : Bool := c.isAlphanum || c = '_'

namespace Token

def isSeparator (c : Char) : Bool :=
  c = ' ' || c = '\t' || c = ',' || c = '\n' || c = '\r' || c.toNat = 0xFEFF

def isLineEnd (c : Char) : Bool := c = '\n' || c = '\r'

def scanDigits (cs : List Char) : Except LexicalError (List Char × List Char) :=
  match cs with
  | c :: _ =>
    if c.isDigit then .ok (Json.digits cs, Json.afterDigits cs)
    else .error (.digitExpected (some c))
  | [] => .error (.digitExpected none)

/-- Reads the whole part of a number: no digit may follow a leading zero. -/
def scanWhole (cs : List Char) : Except LexicalError (List Char × List Char) :=
  match cs with
  | '0' :: c :: rest =>
    if c.isDigit then .error (.digitAfterZero (some c)) else .ok (['0'], c :: rest)
  | cs => scanDigits cs

def scanFraction : List Char → Except LexicalError (List Char × List Char)
  | '.' :: cs => do
    let (ds, rest) ← scanDigits cs
    return ('.' :: ds, rest)
  | cs => .ok ([], cs)

def scanExponent : List Char → Except LexicalError (List Char × List Char)
  | e :: cs =>
    if e = 'e' ∨ e = 'E' then
      match cs with
      | s :: rest =>
        if s = '+' ∨ s = '-' then do
          let (ds, rest) ← scanDigits rest
          return (e :: s :: ds, rest)
        else do
          let (ds, rest) ← scanDigits (s :: rest)
          return (e :: ds, rest)
      | [] => .error (.digitExpected none)
    else .ok ([], e :: cs)
  | [] => .ok ([], [])

/-- Reads an unsigned number; `sign` is the text of its sign. Neither a point nor a name may follow. -/
def scanNumber (sign : List Char) (cs : List Char) : Except LexicalError (Token × List Char) := do
  let (whole, rest) ← scanWhole cs
  let (fraction, rest) ← scanFraction rest
  let (exponent, rest) ← scanExponent rest
  let text := String.ofList (sign ++ whole ++ fraction ++ exponent)
  match rest with
  | c :: _ =>
    if c = '.' ∨ isNameStart c then .error (.digitExpected (some c))
    else return (if fraction.isEmpty && exponent.isEmpty then .int text else .float text, rest)
  | [] => return (if fraction.isEmpty && exponent.isEmpty then .int text else .float text, rest)

/-- Whether a number is a character of its own, not half of a pair. -/
def isScalar (n : Nat) : Bool := n ≤ 0xD7FF || (0xE000 ≤ n && n ≤ 0x10FFFF)

/-- The hexadecimal number in braces at the start of a text, the number of characters it takes with
its braces, and what follows. At most nine characters may stand before the closing brace. -/
def bracedCode (limit count value : Nat) : List Char → Option (Nat × Nat × List Char) × Nat
  | [] => (none, count)
  | c :: cs =>
    match limit with
    | 0 => (none, count)
    | limit + 1 =>
      if c = '\x7d' then (some (value, count + 1, cs), count + 1)
      else
        match Text.hexValue? c with
        | some d => bracedCode limit (count + 1) (value * 16 + d) cs
        | none => (none, count + 1)

/-- Reads a Unicode escape after its backslash; `text` starts with `u`. Characters beyond the basic
ones may be written as a pair of escapes. -/
def scanUnicode (text : List Char) : Except LexicalError (Char × List Char) :=
  let shown (n : Nat) : LexicalError := .badUnicodeEscape (String.ofList ('\\' :: text.take n))
  match text with
  | _ :: '\x7b' :: rest =>
    match bracedCode 9 2 0 rest with
    | (some (n, count, rest), _) =>
      if 4 ≤ count ∧ isScalar n then .ok (Char.ofNat n, rest) else .error (shown count)
    | (none, count) => .error (shown count)
  | _ :: a :: b :: c :: d :: rest =>
    match Json.hex4? a b c d with
    | none => .error (shown 5)
    | some hi =>
      if isScalar hi then .ok (Char.ofNat hi, rest)
      else if 0xDC00 ≤ hi then .error (shown 5)
      else
        match rest with
        | '\\' :: 'u' :: e :: f :: g :: h :: rest =>
          match Json.hex4? e f g h with
          | some lo =>
            if 0xDC00 ≤ lo ∧ lo ≤ 0xDFFF then
              .ok (Char.ofNat (0x10000 + (hi - 0xD800) * 1024 + (lo - 0xDC00)), rest)
            else .error (shown 5)
          | none => .error (shown 5)
        | _ => .error (shown 5)
  | _ => .error (shown 5)

def scanEscape : List Char → Except LexicalError (Char × List Char)
  | [] => .error (.badEscape "\\")
  | 'u' :: rest => scanUnicode ('u' :: rest)
  | c :: rest =>
    match Json.escaped? c with
    | some x => .ok (x, rest)
    | none => .error (.badEscape (String.ofList ['\\', c]))

/-- Reads a string after its opening quote. The fuel bounds the number of characters. -/
def scanString : Nat → List Char → List Char → Except LexicalError (Token × List Char)
  | 0, _, _ => .error .unterminatedString
  | _ + 1, _, [] => .error .unterminatedString
  | fuel + 1, acc, c :: rest =>
    if c = '"' then .ok (.string (String.ofList acc.reverse), rest)
    else if c = '\\' then
      match scanEscape rest with
      | .ok (x, rest) => scanString fuel (x :: acc) rest
      | .error e => .error e
    else if isLineEnd c then .error .unterminatedString
    else scanString fuel (c :: acc) rest

def isIndent (c : Char) : Bool := c = ' ' || c = '\t'

def indentWidth (line : List Char) : Nat := (line.takeWhile isIndent).length

/-- Whether a line holds nothing but indentation. -/
def isBlankLine (line : List Char) : Bool := line.all isIndent

/-- The indentation common to the lines after the first, blank lines aside. -/
def commonIndent : List (List Char) → Nat
  | [] => 0
  | _ :: lines =>
    ((lines.filter fun l => !isBlankLine l).map indentWidth).min?.getD 0

/-- The lines of a block string without their common indentation and without the blank lines at
both ends. The first line keeps its indentation. -/
def dedent (lines : List (List Char)) : List (List Char) :=
  let width := commonIndent lines
  let shifted := match lines with
    | [] => []
    | first :: rest => first :: rest.map (List.drop width)
  ((shifted.dropWhile isBlankLine).reverse.dropWhile isBlankLine).reverse

/-- Reads a block string after its opening quotes. `line` is the current line, last character first,
and `lines` the lines before it, last line first. -/
def scanBlock : List (List Char) → List Char → List Char → Except LexicalError (Token × List Char)
  | lines, line, '"' :: '"' :: '"' :: rest =>
    let text := "\n".intercalate ((dedent (line.reverse :: lines).reverse).map String.ofList)
    .ok (.blockString text, rest)
  | lines, line, '\\' :: '"' :: '"' :: '"' :: rest => scanBlock lines ('"' :: '"' :: '"' :: line) rest
  | lines, line, '\r' :: '\n' :: rest => scanBlock (line.reverse :: lines) [] rest
  | lines, line, c :: rest =>
    if isLineEnd c then scanBlock (line.reverse :: lines) [] rest
    else scanBlock lines (c :: line) rest
  | _, _, [] => .error .unterminatedString

/-- Reads one token of a text that does not start with a separator or comment. -/
def scanOne (cs : List Char) : Except LexicalError (Token × List Char) :=
  match cs with
  | [] => .ok (.eof, [])
  | '"' :: '"' :: '"' :: rest => scanBlock [] [] rest
  | '"' :: rest => scanString (rest.length + 1) [] rest
  | '.' :: '.' :: '.' :: rest => .ok (.punct .spread, rest)
  | c :: rest =>
    match Punctuator.ofChar? c with
    | some p => .ok (.punct p, rest)
    | none =>
      if isNameStart c then
        .ok (.name (String.ofList (cs.takeWhile isNameContinue)), cs.dropWhile isNameContinue)
      else if c.isDigit then scanNumber [] cs
      else if c = '-' then scanNumber ['-'] rest
      else if c = '\'' then .error .singleQuote
      else .error (.unexpectedCharacter c)

/-- A text without its leading separators and comments. -/
def skipIgnored : Nat → List Char → List Char
  | 0, cs => cs
  | _ + 1, [] => []
  | fuel + 1, c :: cs =>
    if isSeparator c then skipIgnored fuel cs
    else if c = '#' then skipIgnored fuel (cs.dropWhile fun c => !isLineEnd c)
    else c :: cs

/-- Reads tokens up to the end of a text or the first fault. -/
def scanAll : Nat → List Token → List Char → List Token
  | 0, acc, _ => (.eof :: acc).reverse
  | fuel + 1, acc, cs =>
    match scanOne (skipIgnored cs.length cs) with
    | .ok (.eof, _) => (.eof :: acc).reverse
    | .ok (t, rest) => scanAll fuel (t :: acc) rest
    | .error e => (.bad e :: acc).reverse

/-- The tokens of a text. -/
def scan (text : String) : List Token :=
  let cs := text.toList
  scanAll (cs.length + 1) [] cs

end Token

end Harvest.GraphQL
