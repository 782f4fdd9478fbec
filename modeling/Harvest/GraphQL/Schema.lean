import Harvest.GraphQL.Document

/-!
# Schemas

A schema as the library needs it: named types in their order, the root types and the directives.
Types refer to each other by name, so a schema is a finite value even where its types are mutually
recursive.
-/

namespace Harvest.GraphQL

/-- An argument, or a field of an input object. -/
structure InputValue where
  name : String
  type : TypeRef
  hasDefault : Bool
  isDeprecated : Bool
  deriving DecidableEq, Repr, Inhabited

/-- A field of an object or interface. -/
structure Field where
  name : String
  type : TypeRef
  args : List InputValue
  deriving DecidableEq, Repr, Inhabited

/-- A type of objects that are given as values. -/
structure InputObject where
  name : String
  fields : List InputValue
  /-- Whether a value has exactly one field, which is not null. -/
  oneOf : Bool
  deriving DecidableEq, Repr, Inhabited

inductive TypeDef where
  | scalar (name : String)
  | object (name : String) (interfaces : List String) (fields : List Field)
  | interface (name : String) (interfaces : List String) (fields : List Field)
  | union (name : String) (members : List String)
  | enum (name : String) (values : List String)
  | input (object : InputObject)
  deriving DecidableEq, Repr, Inhabited

/-- A directive that documents may use. -/
structure DirectiveDef where
  name : String
  repeatable : Bool
  locations : List String
  args : List InputValue
  deriving DecidableEq, Repr, Inhabited

structure Schema where
  types : List TypeDef
  query : Option String
  mutation : Option String
  subscription : Option String
  directives : List DirectiveDef
  deriving Repr, Inhabited

namespace TypeRef

def baseName : TypeRef → String
  | named n => n
  | list t => t.baseName
  | nonNull t => t.baseName

/-- The type without a non-null wrapper at its outside. -/
def nullable : TypeRef → TypeRef
  | nonNull t => t
  | t => t

def isNonNull : TypeRef → Bool
  | nonNull _ => true
  | _ => false

/-- Whether the type is a list, once a non-null wrapper is taken off. -/
def listItem? (t : TypeRef) : Option TypeRef :=
  match t.nullable with
  | list item => some item
  | _ => none

def named? : TypeRef → Option String
  | named n => some n
  | _ => none

end TypeRef

namespace InputValue

def isRequired (v : InputValue) : Bool := v.type.isNonNull && !v.hasDefault

end InputValue

namespace Field

def arg? (f : Field) (name : String) : Option InputValue := f.args.find? (·.name == name)

def needsArguments (f : Field) : Bool := f.args.any InputValue.isRequired

end Field

namespace TypeDef

def name : TypeDef → String
  | scalar n => n
  | object n _ _ => n
  | interface n _ _ => n
  | union n _ => n
  | enum n _ => n
  | input o => o.name

/-- The fields of an object or interface; other types have none. -/
def fields : TypeDef → List Field
  | object _ _ fs => fs
  | interface _ _ fs => fs
  | _ => []

/-- The interfaces that an object or interface implements. -/
def interfaces : TypeDef → List String
  | object _ is _ => is
  | interface _ is _ => is
  | _ => []

def field? (t : TypeDef) (name : String) : Option Field := t.fields.find? (·.name == name)

def isObject : TypeDef → Bool
  | object .. => true
  | _ => false

def isInterface : TypeDef → Bool
  | interface .. => true
  | _ => false

def isUnion : TypeDef → Bool
  | union .. => true
  | _ => false

/-- Whether a value of the type is one of several object types. -/
def isAbstract (t : TypeDef) : Bool := t.isInterface || t.isUnion

def isComposite (t : TypeDef) : Bool := t.isObject || t.isAbstract

/-- Whether values of the type are written without sub-selections. -/
def isLeaf : TypeDef → Bool
  | scalar _ => true
  | enum .. => true
  | _ => false

def isInputObject : TypeDef → Bool
  | input .. => true
  | _ => false

def isInput (t : TypeDef) : Bool := t.isLeaf || t.isInputObject

def isOutput (t : TypeDef) : Bool := t.isLeaf || t.isComposite

def inputFields : TypeDef → List InputValue
  | input o => o.fields
  | _ => []

end TypeDef

namespace Schema

def type? (s : Schema) (name : String) : Option TypeDef := s.types.find? (·.name == name)

def base? (s : Schema) (t : TypeRef) : Option TypeDef := s.type? t.baseName

def queryType? (s : Schema) : Option TypeDef := s.query.bind s.type?

def queryFields (s : Schema) : List Field := (s.queryType?.map TypeDef.fields).getD []

def queryField? (s : Schema) (name : String) : Option Field :=
  s.queryFields.find? (·.name == name)

/-- The object types behind a type: an object itself, the members of a union, the objects that
implement an interface, in schema order. -/
def possibleTypes (s : Schema) : TypeDef → List String
  | .object n _ _ => [n]
  | .union _ members => members
  | .interface n _ _ =>
    (s.types.filter fun t => t.isObject && t.interfaces.contains n).map TypeDef.name
  | _ => []

/-- The object types behind an abstract type; none for any other name. -/
def implementors (s : Schema) (name : String) : List String :=
  match s.type? name with
  | some t => if t.isAbstract then s.possibleTypes t else []
  | none => []

def isAbstract (s : Schema) (name : String) : Bool :=
  match s.type? name with
  | some t => t.isAbstract
  | none => false

def isSubType (s : Schema) (whole part : TypeDef) : Bool :=
  match whole with
  | .union _ members => members.contains part.name
  | .interface n _ _ =>
    (s.type? part.name).any fun t => t.isComposite && t.interfaces.contains n
  | _ => false

def isSubRef (s : Schema) : TypeRef → TypeRef → Bool
  | .nonNull a, .nonNull b => s.isSubRef a b
  | .nonNull a, b => s.isSubRef a b
  | _, .nonNull _ => false
  | .list a, .list b => s.isSubRef a b
  | .named a, .named b =>
    a == b ||
      match s.type? a, s.type? b with
      | some part, some whole => whole.isAbstract && part.isComposite && s.isSubType whole part
      | _, _ => false
  | _, _ => false

def directive? (s : Schema) (name : String) : Option DirectiveDef :=
  s.directives.find? (·.name == name)

def rootType? (s : Schema) : OperationKind → Option String
  | .query => s.query
  | .mutation => s.mutation
  | .subscription => s.subscription

end Schema

end Harvest.GraphQL
