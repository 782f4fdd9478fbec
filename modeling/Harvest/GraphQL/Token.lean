import Harvest.Data.Value.Display

/-!
# Tokens of the query language

A text is read as a list of tokens that ends with `eof`, or with `bad` where no token could be read.
`LexicalError.message` words the reasons.
-/

namespace Harvest.GraphQL

/-- A token made of punctuation. -/
inductive Punctuator where
  | bang | dollar | amp | parenL | parenR | spread | colon | equals | at
  | bracketL | bracketR | braceL | pipe | braceR
  deriving DecidableEq, Repr, Inhabited

def Punctuator.text : Punctuator → String
  | .bang => "!"
  | .dollar => "$"
  | .amp => "&"
  | .parenL => "("
  | .parenR => ")"
  | .spread => "..."
  | .colon => ":"
  | .equals => "="
  | .at => "@"
  | .bracketL => "["
  | .bracketR => "]"
  | .braceL => "\x7b"
  | .pipe => "|"
  | .braceR => "\x7d"

def Punctuator.ofChar? (c : Char) : Option Punctuator :=
  if c = '!' then some .bang
  else if c = '$' then some .dollar
  else if c = '&' then some .amp
  else if c = '(' then some .parenL
  else if c = ')' then some .parenR
  else if c = ':' then some .colon
  else if c = '=' then some .equals
  else if c = '@' then some .at
  else if c = '[' then some .bracketL
  else if c = ']' then some .bracketR
  else if c = '\x7b' then some .braceL
  else if c = '|' then some .pipe
  else if c = '\x7d' then some .braceR
  else none

/-- What stands at a place of a text: a character or its end. -/
abbrev Place := Option Char

/-- A character of a text as a message shows it: printable ASCII as itself, all else by its number. -/
def showPlace : Place → String
  | none => "<EOF>"
  | some c =>
    if c = '"' then "'\"'"
    else if 32 ≤ c.toNat ∧ c.toNat ≤ 126 then "'" ++ c.toString ++ "'"
    else "U+" ++ (Text.hex 4 c.toNat).map Char.toUpper

/-- Why a text stops being a list of tokens. -/
inductive LexicalError where
  | unexpectedCharacter (c : Char)
  | singleQuote
  | unterminatedString
  | digitAfterZero (found : Place)
  | digitExpected (found : Place)
  | badEscape (text : String)
  | badUnicodeEscape (text : String)
  deriving DecidableEq, Repr, Inhabited

namespace LexicalError

def message : LexicalError → String
  | unexpectedCharacter c => s!"Unexpected character: {showPlace (some c)}."
  | singleQuote => "Unexpected single quote character ('), did you mean to use a double quote (\")?"
  | unterminatedString => "Unterminated string."
  | digitAfterZero p => s!"Invalid number, unexpected digit after 0: {showPlace p}."
  | digitExpected p => s!"Invalid number, expected digit but got: {showPlace p}."
  | badEscape t => s!"Invalid character escape sequence: '{t}'."
  | badUnicodeEscape t => s!"Invalid Unicode escape sequence: '{t}'."

end LexicalError

inductive Token where
  | punct (p : Punctuator)
  | name (text : String)
  | int (text : String)
  | float (text : String)
  | string (text : String)
  | blockString (text : String)
  | eof
  | bad (e : LexicalError)
  deriving DecidableEq, Repr, Inhabited

namespace Token

def showKind (kind text : String) : String := s!"{kind} '{text}'"

/-- The text that a token stands for, if it is more than punctuation. -/
def content? : Token → Option String
  | name t => some t
  | int t => some t
  | float t => some t
  | string t => some t
  | blockString t => some t
  | _ => none

def describe : Token → String
  | punct p => s!"'{p.text}'"
  | name t => showKind "Name" t
  | int t => showKind "Int" t
  | float t => showKind "Float" t
  | string t => showKind "String" t
  | blockString t => showKind "BlockString" t
  | eof => "<EOF>"
  | bad e => e.message

end Token

end Harvest.GraphQL
