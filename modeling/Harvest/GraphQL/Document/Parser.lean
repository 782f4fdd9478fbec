import Harvest.GraphQL.Document
import Harvest.GraphQL.Token.Lexer

/-!
# Reading documents

`Document.parse` reads a text as a document, `Literal.parse` as a single value. A parser works on a
list of tokens; every loop is bounded by the number of tokens. Definitions of the type language are
checked for their form and dropped.
-/

namespace Harvest.GraphQL

/-- Why a text is not a document. -/
inductive SyntaxError where
  | lexical (e : LexicalError)
  | expected (what : String) (found : Token)
  | unexpected (found : Token)
  | constantVariable (name : String)
  | reservedEnumValue (found : Token)
  | describedShorthand
  | describedOther
  deriving DecidableEq, Repr, Inhabited

def SyntaxError.message (e : SyntaxError) : String :=
  "Syntax Error: " ++
    match e with
    | .lexical e => e.message
    | .expected what found => s!"Expected {what}, found {found.describe}."
    | .unexpected found => s!"Unexpected {found.describe}."
    | .constantVariable name => s!"Unexpected variable '${name}' in constant value."
    | .reservedEnumValue found =>
      s!"{found.describe} is reserved and cannot be used for an enum value."
    | .describedShorthand =>
      "Unexpected description, descriptions are not supported on shorthand queries."
    | .describedOther => "Unexpected description, only GraphQL definitions support descriptions."

abbrev Parser := StateT (List Token) (Except SyntaxError)

namespace Parser

/-- The token at a distance; past the end the list repeats its end. -/
def lookahead (n : Nat) : Parser Token := do
  match (← get)[n]?.getD .eof with
  | .bad e => throw (.lexical e)
  | t => return t

def peek : Parser Token := lookahead 0

def advance : Parser Unit := modify (List.drop 1)

def unexpected {α : Type} : Parser α := do throw (.unexpected (← peek))

def isNext (p : Punctuator) : Parser Bool := return (← peek) == .punct p

def expect (p : Punctuator) : Parser Unit := do
  let t ← peek
  if t == .punct p then advance else throw (.expected s!"'{p.text}'" t)

/-- Consumes a punctuator if it comes next. -/
def accept (p : Punctuator) : Parser Bool := do
  if ← isNext p then
    advance
    return true
  else return false

def expectKeyword (word : String) : Parser Unit := do
  let t ← peek
  if t == .name word then advance else throw (.expected s!"'{word}'" t)

/-- Consumes a keyword if it comes next. -/
def acceptKeyword (word : String) : Parser Bool := do
  if (← peek) == .name word then
    advance
    return true
  else return false

def name : Parser String := do
  match ← peek with
  | .name n =>
    advance
    return n
  | t => throw (.expected "Name" t)

def untilClosed {α : Type} (item : Parser α) (close : Punctuator) : Nat → Parser (List α)
  | 0 => unexpected
  | fuel + 1 => do
    if ← accept close then return []
    else
      let x ← item
      return x :: (← untilClosed item close fuel)

/-- At least one item between two punctuators. -/
def some1 {α : Type} (fuel : Nat) (opening : Punctuator) (item : Parser α) (close : Punctuator) :
    Parser (List α) := do
  expect opening
  let x ← item
  return x :: (← untilClosed item close fuel)

/-- At least one item between two punctuators, or nothing at all. -/
def optional1 {α : Type} (fuel : Nat) (opening : Punctuator) (item : Parser α) (close : Punctuator) :
    Parser (List α) := do
  if ← isNext opening then some1 fuel opening item close else return []

def moreAfter {α : Type} (separator : Punctuator) (item : Parser α) : Nat → Parser (List α)
  | 0 => return []
  | fuel + 1 => do
    if ← accept separator then
      let x ← item
      return x :: (← moreAfter separator item fuel)
    else return []

/-- At least one item, with separators between them and, if wanted, before the first. -/
def separated {α : Type} (fuel : Nat) (separator : Punctuator) (item : Parser α) :
    Parser (List α) := do
  let _ ← accept separator
  let x ← item
  return x :: (← moreAfter separator item fuel)

/-! ### Values and types -/

/-- Reads a variable after its dollar sign; a constant admits none. -/
def variableName (constant : Bool) : Parser String := do
  let dollar ← peek
  advance
  if constant then
    match ← peek with
    | .name n => throw (.constantVariable n)
    | _ => throw (.unexpected dollar)
  else name

def namedLiteral (n : String) : Literal :=
  if n = "true" then .boolean true
  else if n = "false" then .boolean false
  else if n = "null" then .null
  else .enum n

def literal (constant : Bool) : Nat → Parser Literal
  | 0 => unexpected
  | fuel + 1 => do
    match ← peek with
    | .punct .bracketL =>
      advance
      return .list (← untilClosed (literal constant fuel) .bracketR fuel)
    | .punct .braceL =>
      advance
      let field : Parser (String × Literal) := do
        let n ← name
        expect .colon
        return (n, ← literal constant fuel)
      return .object (← untilClosed field .braceR fuel)
    | .punct .dollar => return .variable (← variableName constant)
    | .int t =>
      advance
      return .int t
    | .float t =>
      advance
      return .float t
    | .string t =>
      advance
      return .string t false
    | .blockString t =>
      advance
      return .string t true
    | .name n =>
      advance
      return namedLiteral n
    | _ => unexpected

def typeRef : Nat → Parser TypeRef
  | 0 => unexpected
  | fuel + 1 => do
    let inner ←
      if ← accept .bracketL then
        let item ← typeRef fuel
        expect .bracketR
        pure (.list item)
      else pure (.named (← name))
    if ← accept .bang then return .nonNull inner else return inner

/-! ### Selections -/

def argument (fuel : Nat) (constant : Bool) : Parser Argument := do
  let n ← name
  expect .colon
  return { name := n, value := ← literal constant fuel }

def arguments (fuel : Nat) (constant : Bool) : Parser (List Argument) :=
  optional1 fuel .parenL (argument fuel constant) .parenR

def directives (constant : Bool) : Nat → Parser (List Directive)
  | 0 => return []
  | fuel + 1 => do
    if ← accept .at then
      let n ← name
      let args ← arguments fuel constant
      return { name := n, arguments := args } :: (← directives constant fuel)
    else return []

/-- Reads the name of a fragment, which cannot be `on`. That word is refused as such even where it is no
name. -/
def fragmentName : Parser String := do
  if (← peek).content? == some "on" then unexpected else name

mutual

def selections : Nat → Parser (List Selection)
  | 0 => unexpected
  | fuel + 1 => some1 fuel .braceL (selection fuel) .braceR

def selection : Nat → Parser Selection
  | 0 => unexpected
  | fuel + 1 => do
    if ← accept .spread then
      let conditional ← acceptKeyword "on"
      match conditional, ← peek with
      | false, .name _ =>
        let n ← fragmentName
        return .spread n (← directives false fuel)
      | _, _ =>
        let on ← if conditional then (do return some (← name)) else pure none
        let ds ← directives false fuel
        return .inline on ds (← selections fuel)
    else
      let first ← name
      let (label, n) ← if ← accept .colon then (do return (some first, ← name)) else pure (none, first)
      let args ← arguments fuel false
      let ds ← directives false fuel
      let inner ← if ← isNext .braceL then selections fuel else pure []
      return .field label n args ds inner

end

/-! ### Executable definitions -/

def atDescription : Parser Bool := do
  match ← peek with
  | .string _ => return true
  | .blockString _ => return true
  | _ => return false

def description : Parser (Option Description) := do
  match ← peek with
  | .string t =>
    advance
    return some ⟨t, false⟩
  | .blockString t =>
    advance
    return some ⟨t, true⟩
  | _ => return none

def variableDefinition (fuel : Nat) : Parser VariableDefinition := do
  let d ← description
  expect .dollar
  let n ← name
  expect .colon
  let t ← typeRef fuel
  let dflt ← if ← accept .equals then (do return some (← literal true fuel)) else pure none
  let ds ← directives true fuel
  return { description := d, name := n, type := t, default := dflt, directives := ds }

/-- Reads a name that is judged once the token after it has been read: a fault there comes first. -/
def nameBeforeToken : Parser String := do
  let n ← name
  let _ ← peek
  return n

def operationKind : Parser OperationKind := do
  let t ← peek
  let n ← nameBeforeToken
  match OperationKind.ofKeyword? n with
  | some k => return k
  | none => throw (.unexpected t)

def operation (fuel : Nat) : Parser Operation := do
  if ← isNext .braceL then
    let body ← selections fuel
    return { description := none, kind := .query, name := none, variableDefinitions := [], directives := [],
             selections := body }
  else
    let d ← description
    let k ← operationKind
    let n ← match ← peek with
      | .name n => do
        advance
        pure (some n)
      | _ => pure none
    let vars ← optional1 fuel .parenL (variableDefinition fuel) .parenR
    let ds ← directives false fuel
    let body ← selections fuel
    return { description := d, kind := k, name := n, variableDefinitions := vars, directives := ds,
             selections := body }

def fragment (fuel : Nat) : Parser Fragment := do
  let d ← description
  expectKeyword "fragment"
  let n ← fragmentName
  expectKeyword "on"
  let on ← name
  let ds ← directives false fuel
  let body ← selections fuel
  return { description := d, name := n, on, directives := ds, selections := body }

/-! ### The type language -/

/-- Reads an input value: an argument of a field or a field of an input object. -/
def inputValue (fuel : Nat) : Parser Unit := do
  let _ ← description
  let _ ← name
  expect .colon
  let _ ← typeRef fuel
  if ← accept .equals then
    let _ ← literal true fuel
  let _ ← directives true fuel

/-- The words that stand for values of other types and cannot be values of an enum. -/
def reservedWords : List String := ["true", "false", "null"]

def fieldDefinition (fuel : Nat) : Parser Unit := do
  let _ ← description
  let _ ← name
  let _ ← optional1 fuel .parenL (inputValue fuel) .parenR
  expect .colon
  let _ ← typeRef fuel
  let _ ← directives true fuel

/-- Reads the value of an enum. A reserved word is refused as such even where it is no name. -/
def enumValue (fuel : Nat) : Parser Unit := do
  let _ ← description
  let t ← peek
  if reservedWords.any fun w => t.content? == some w then throw (.reservedEnumValue t)
  let _ ← name
  let _ ← directives true fuel

def rootType : Parser Unit := do
  let _ ← operationKind
  expect .colon
  let _ ← name

/-- Reads the interfaces that a type implements; whether there are any. -/
def implementsClause (fuel : Nat) : Parser Bool := do
  if ← acceptKeyword "implements" then
    let _ ← separated fuel .amp name
    return true
  else return false

def unionMembers (fuel : Nat) : Parser Bool := do
  if ← accept .equals then
    let _ ← separated fuel .pipe name
    return true
  else return false

/-- The places where a directive may be applied. -/
def directiveLocations : List String :=
  ["QUERY", "MUTATION", "SUBSCRIPTION", "FIELD", "FRAGMENT_DEFINITION", "FRAGMENT_SPREAD",
   "INLINE_FRAGMENT", "VARIABLE_DEFINITION", "SCHEMA", "SCALAR", "OBJECT", "FIELD_DEFINITION",
   "ARGUMENT_DEFINITION", "INTERFACE", "UNION", "ENUM", "ENUM_VALUE", "INPUT_OBJECT",
   "INPUT_FIELD_DEFINITION", "DIRECTIVE_DEFINITION"]

def directiveLocation : Parser Unit := do
  let t ← peek
  let n ← nameBeforeToken
  if directiveLocations.contains n then return () else throw (.unexpected t)

/-- Reads the body of a definition after its keyword; whether it holds anything. -/
def typeBody (fuel : Nat) (keyword : String) : Parser Bool := do
  match keyword with
  | "schema" =>
    let ds ← directives true fuel
    let roots ← optional1 fuel .braceL rootType .braceR
    return !ds.isEmpty || !roots.isEmpty
  | "scalar" =>
    let _ ← name
    return !(← directives true fuel).isEmpty
  | "union" =>
    let _ ← name
    let ds ← directives true fuel
    let members ← unionMembers fuel
    return !ds.isEmpty || members
  | "enum" =>
    let _ ← name
    let ds ← directives true fuel
    let values ← optional1 fuel .braceL (enumValue fuel) .braceR
    return !ds.isEmpty || !values.isEmpty
  | "input" =>
    let _ ← name
    let ds ← directives true fuel
    let fields ← optional1 fuel .braceL (inputValue fuel) .braceR
    return !ds.isEmpty || !fields.isEmpty
  | _ =>
    let _ ← name
    let interfaces ← implementsClause fuel
    let ds ← directives true fuel
    let fields ← optional1 fuel .braceL (fieldDefinition fuel) .braceR
    return interfaces || !ds.isEmpty || !fields.isEmpty

/-- The keywords that start a definition of the type language which can be extended. -/
def typeKeywords : List String := ["schema", "scalar", "type", "interface", "union", "enum", "input"]

def typeDefinition (fuel : Nat) (keyword : String) : Parser Unit := do
  let _ ← description
  expectKeyword keyword
  match keyword with
  | "directive" =>
    expect .at
    let _ ← name
    let _ ← optional1 fuel .parenL (inputValue fuel) .parenR
    let _ ← acceptKeyword "repeatable"
    expectKeyword "on"
    let _ ← separated fuel .pipe directiveLocation
  | "schema" =>
    let _ ← directives true fuel
    let _ ← some1 fuel .braceL rootType .braceR
  | _ =>
    let _ ← typeBody fuel keyword

/-- Reads an extension of a type, which has to add something. -/
def typeExtension (fuel : Nat) : Parser Unit := do
  match ← lookahead 1 with
  | .name keyword =>
    if typeKeywords.contains keyword then
      advance
      advance
      unless ← typeBody fuel keyword do unexpected
    else throw (.unexpected (.name keyword))
  | t => throw (.unexpected t)

/-! ### Documents -/

def definition (fuel : Nat) : Parser Definition := do
  if ← isNext .braceL then return .operation (← operation fuel)
  else
    let described ← atDescription
    match ← lookahead (if described then 1 else 0) with
    | .name keyword =>
      if keyword = "directive" ∨ typeKeywords.contains keyword then
        typeDefinition fuel keyword
        return .typeSystem
      else if (OperationKind.ofKeyword? keyword).isSome then return .operation (← operation fuel)
      else if keyword = "fragment" then return .fragment (← fragment fuel)
      else if described then throw .describedOther
      else if keyword = "extend" then
        typeExtension fuel
        return .typeSystem
      else throw (.unexpected (.name keyword))
    | t =>
      if described && t == .punct .braceL then throw .describedShorthand
      else throw (.unexpected t)

def definitions (fuel : Nat) : Nat → Parser (List Definition)
  | 0 => unexpected
  | rounds + 1 => do
    let d ← definition fuel
    if (← peek) == .eof then return [d]
    else return d :: (← definitions fuel rounds)

def soleLiteral (fuel : Nat) : Parser Literal := do
  let v ← literal false fuel
  match ← peek with
  | .eof => return v
  | t => throw (.expected "<EOF>" t)

/-- Runs a parser on a text, with fuel for every token. -/
def runOn {α : Type} (p : Nat → Parser α) (text : String) : Except SyntaxError α :=
  let tokens := Token.scan text
  (p (tokens.length + 1)).run' tokens

end Parser

/-- Reads a document. -/
def Document.parse (text : String) : Except SyntaxError Document :=
  Parser.runOn (fun fuel => Parser.definitions fuel fuel) text

def Literal.parse (text : String) : Except SyntaxError Literal := Parser.runOn Parser.soleLiteral text

end Harvest.GraphQL
