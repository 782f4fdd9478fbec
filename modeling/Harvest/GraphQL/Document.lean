/-!
# Documents of the query language

The syntax of GraphQL documents: operations and fragments with their selections. Definitions of the
type language may stand in a text too; the library reads past them and keeps only their presence.

A field without sub-selections and a field with none are the same thing here: the language has no
empty selection set.
-/

namespace Harvest.GraphQL

/-- A value written in a document. -/
inductive Literal where
  | variable (name : String)
  | int (text : String)
  | float (text : String)
  | string (text : String) (block : Bool)
  | boolean (b : Bool)
  | null
  | enum (name : String)
  | list (items : List Literal)
  | object (fields : List (String × Literal))
  deriving Repr, Inhabited

/-- A type as written in a document: a name with wrappers. -/
inductive TypeRef where
  | named (name : String)
  | list (item : TypeRef)
  | nonNull (nullable : TypeRef)
  deriving DecidableEq, Repr, Inhabited

structure Argument where
  name : String
  value : Literal
  deriving Repr, Inhabited

/-- A directive application. -/
structure Directive where
  name : String
  arguments : List Argument
  deriving Repr, Inhabited

/-- One entry of a selection set. -/
inductive Selection where
  | field (label : Option String) (name : String) (arguments : List Argument)
      (directives : List Directive) (selections : List Selection)
  | spread (name : String) (directives : List Directive)
  | inline (on : Option String) (directives : List Directive) (selections : List Selection)
  deriving Repr, Inhabited

/-- A description before a definition: a string, in block form or not. -/
structure Description where
  text : String
  block : Bool
  deriving DecidableEq, Repr, Inhabited

/-- The declaration of a variable of an operation. -/
structure VariableDefinition where
  description : Option Description
  name : String
  type : TypeRef
  default : Option Literal
  directives : List Directive
  deriving Repr, Inhabited

/-- The three kinds of operations. -/
inductive OperationKind where
  | query
  | mutation
  | subscription
  deriving DecidableEq, Repr, Inhabited

structure Operation where
  description : Option Description
  kind : OperationKind
  name : Option String
  variableDefinitions : List VariableDefinition
  directives : List Directive
  selections : List Selection
  deriving Repr, Inhabited

/-- A fragment definition. -/
structure Fragment where
  description : Option Description
  name : String
  on : String
  directives : List Directive
  selections : List Selection
  deriving Repr, Inhabited

/-- A definition of a document. -/
inductive Definition where
  | operation (o : Operation)
  | fragment (f : Fragment)
  | typeSystem
  deriving Repr, Inhabited

abbrev Document := List Definition

namespace OperationKind

def keyword : OperationKind → String
  | .query => "query"
  | .mutation => "mutation"
  | .subscription => "subscription"

def ofKeyword? : String → Option OperationKind
  | "query" => some .query
  | "mutation" => some .mutation
  | "subscription" => some .subscription
  | _ => none

@[simp] theorem ofKeyword?_keyword (k : OperationKind) : ofKeyword? k.keyword = some k := by
  cases k <;> rfl

end OperationKind

namespace Selection

/-- A field with no alias, arguments or directives. -/
def plain (name : String) (selections : List Selection) : Selection := .field none name [] [] selections

/-- The name under which a field appears in the answer. -/
def responseKey (label : Option String) (name : String) : String := label.getD name

end Selection

namespace Definition

def fragment? : Definition → Option Fragment
  | .fragment f => some f
  | _ => none

def operation? : Definition → Option Operation
  | .operation o => some o
  | _ => none

/-- The selections of an executable definition; a type has none. -/
def selections? : Definition → Option (List Selection)
  | .operation o => some o.selections
  | .fragment f => some f.selections
  | .typeSystem => none

def name? : Definition → Option String
  | .operation o => o.name
  | .fragment f => some f.name
  | .typeSystem => none

end Definition

def Document.fragments (d : Document) : List Fragment := d.filterMap Definition.fragment?

def Document.operations (d : Document) : List Operation := d.filterMap Definition.operation?

def Document.fragment? (d : Document) (name : String) : Option Fragment :=
  (Document.fragments d).find? (·.name == name)

end Harvest.GraphQL
