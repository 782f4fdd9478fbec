import Harvest.GraphQL.Document
import Harvest.Data.Value.Display

/-!
# Writing documents

`Document.print` writes a document in its standard form: two spaces of indentation, one selection a
line, a blank line between definitions and no line end after the last. The arguments of a field stand
on its line unless that would take more than eighty characters; then each has a line of its own.
-/

namespace Harvest.GraphQL

/-- The widest line that holds a field with its arguments. -/
def maxLineWidth : Nat := 80

namespace Layout

/-- A text between two others, or nothing if it is empty. -/
def wrap (before text after : String) : String := if text = "" then "" else before ++ text ++ after

/-- The texts that are not empty, with a separator between them. -/
def join (separator : String) (texts : List String) : String :=
  separator.intercalate (texts.filter (· ≠ ""))

/-- A text with every line moved to the right. -/
def indent (text : String) : String :=
  wrap "  " (String.ofList (text.toList.flatMap fun c => if c = '\n' then ['\n', ' ', ' '] else [c])) ""

def block (lines : List String) : String := wrap "\x7b\n" (indent (join "\n" lines)) "\n\x7d"

end Layout

open Layout

/-! ### Strings -/

/-- One character of a string in quotes. -/
def escapeChar (c : Char) : List Char :=
  if c = '"' then ['\\', '"']
  else if c = '\\' then ['\\', '\\']
  else if c = '\n' then ['\\', 'n']
  else if c = '\r' then ['\\', 'r']
  else if c = '\t' then ['\\', 't']
  else if c.toNat = 8 then ['\\', 'b']
  else if c.toNat = 12 then ['\\', 'f']
  else if c.toNat < 32 ∨ (127 ≤ c.toNat ∧ c.toNat ≤ 159) then
    '\\' :: 'u' :: ((Text.hex 4 c.toNat).map Char.toUpper).toList
  else [c]

def printQuoted (text : String) : String :=
  "\"" ++ String.ofList (text.toList.flatMap escapeChar) ++ "\""

/-- The text of a block string with its triple quotes escaped. -/
def escapeTriple : List Char → List Char
  | '"' :: '"' :: '"' :: rest => '\\' :: '"' :: '"' :: '"' :: escapeTriple rest
  | c :: rest => c :: escapeTriple rest
  | [] => []

/-- The lines of a text; each of the two line-end characters, or both in order, ends a line. `line` is
the current line, last character first. -/
def textLines (line : List Char) : List Char → List (List Char)
  | '\r' :: '\n' :: rest => line.reverse :: textLines [] rest
  | c :: rest =>
    if c = '\n' ∨ c = '\r' then line.reverse :: textLines [] rest else textLines (c :: line) rest
  | [] => [line.reverse]

/-- A string as a block: on lines of its own when it has several, is long, or ends in a character
that would run into the closing quotes. -/
def printBlock (text : String) : String :=
  let escaped := escapeTriple text.toList
  let lines := textLines [] escaped
  let blank (c : Char) : Bool := c = ' ' || c = '\t'
  let single := lines.length = 1
  let leading := 1 < lines.length &&
    (lines.drop 1).all fun l => match l with
      | [] => true
      | c :: _ => blank c
  let endsInTriple := "\\\"\"\"".toList.isSuffixOf escaped
  let endsInQuote := "\"".toList.isSuffixOf text.toList && !endsInTriple
  let trailing := endsInQuote || "\\".toList.isSuffixOf text.toList
  let spread := !single || 70 < text.length || trailing || leading || endsInTriple
  let startsBlank := match text.toList with
    | c :: _ => blank c
    | [] => false
  "\"\"\""
    ++ (if (spread && !(single && startsBlank)) || leading then "\n" else "")
    ++ String.ofList escaped
    ++ (if spread || trailing then "\n" else "")
    ++ "\"\"\""

/-! ### Values and types -/

mutual

def Literal.print : Literal → String
  | .variable n => "$" ++ n
  | .int t => t
  | .float t => t
  | .string t block => if block then printBlock t else printQuoted t
  | .boolean true => "true"
  | .boolean false => "false"
  | .null => "null"
  | .enum n => n
  | .list xs => "[" ++ join ", " (Literal.printItems xs) ++ "]"
  | .object fs => "\x7b" ++ join ", " (Literal.printFields fs) ++ "\x7d"

def Literal.printItems : List Literal → List String
  | [] => []
  | x :: xs => Literal.print x :: Literal.printItems xs

def Literal.printFields : List (String × Literal) → List String
  | [] => []
  | (n, v) :: fs => (n ++ ": " ++ Literal.print v) :: Literal.printFields fs

end

def TypeRef.print : TypeRef → String
  | .named n => n
  | .list t => "[" ++ t.print ++ "]"
  | .nonNull t => t.print ++ "!"

/-! ### Selections -/

def Argument.print (a : Argument) : String := a.name ++ ": " ++ a.value.print

/-- A directive; its arguments stay on its line. -/
def Directive.print (d : Directive) : String :=
  "@" ++ d.name ++ wrap "(" (join ", " (d.arguments.map Argument.print)) ")"

def printDirectives (ds : List Directive) : String := join " " (ds.map Directive.print)

def printFieldHead (label : Option String) (name : String) (arguments : List Argument) : String :=
  let head := wrap "" (label.getD "") ": " ++ name
  let args := arguments.map Argument.print
  let line := head ++ wrap "(" (join ", " args) ")"
  if maxLineWidth < line.length then head ++ wrap "(\n" (indent (join "\n" args)) "\n)" else line

mutual

def Selection.print : Selection → String
  | .field label name args ds inner =>
    join " " [printFieldHead label name args, printDirectives ds, block (Selection.printAll inner)]
  | .spread name ds => "..." ++ name ++ wrap " " (printDirectives ds) ""
  | .inline on ds inner =>
    join " " ["...", wrap "on " (on.getD "") "", printDirectives ds,
      block (Selection.printAll inner)]

def Selection.printAll : List Selection → List String
  | [] => []
  | s :: ss => Selection.print s :: Selection.printAll ss

end

def printSelections (ss : List Selection) : String := block (Selection.printAll ss)

/-! ### Definitions -/

/-- A description, on lines before what it describes. -/
def Description.print (d : Description) : String :=
  (if d.block then printBlock d.text else printQuoted d.text) ++ "\n"

def printDescription (d : Option Description) : String := (d.map Description.print).getD ""

def VariableDefinition.print (v : VariableDefinition) : String :=
  printDescription v.description ++ "$" ++ v.name ++ ": " ++ v.type.print
    ++ wrap " = " ((v.default.map Literal.print).getD "") ""
    ++ wrap " " (printDirectives v.directives) ""

/-- The declarations of variables: on one line unless one of them takes several. -/
def printVariables (vs : List VariableDefinition) : String :=
  let texts := vs.map VariableDefinition.print
  if texts.any (·.contains '\n') then wrap "(\n" (join "\n" texts) "\n)"
  else wrap "(" (join ", " texts) ")"

/-- An operation; a query that is nothing but its selections is written as such. -/
def Operation.print (o : Operation) : String :=
  let head := join " "
    [o.kind.keyword, join "" [o.name.getD "", printVariables o.variableDefinitions],
     printDirectives o.directives]
  let head := printDescription o.description ++ head
  (if head = "query" then "" else head ++ " ") ++ printSelections o.selections

def Fragment.print (f : Fragment) : String :=
  printDescription f.description ++ "fragment " ++ f.name ++ " on " ++ f.on ++ " "
    ++ wrap "" (printDirectives f.directives) " " ++ printSelections f.selections

def Definition.print : Definition → String
  | .operation o => o.print
  | .fragment f => f.print
  | .typeSystem => ""

def Document.print (d : Document) : String := join "\n\n" (d.map Definition.print)

end Harvest.GraphQL
