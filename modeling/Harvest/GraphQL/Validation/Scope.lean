import Harvest.GraphQL.Schema.Standard

/-!
# Scopes

Where a place in a document stands in the schema: the type that is expected there, the composite type
around it and the field around it. Where the document leaves the schema, there is none of them.
-/

namespace Harvest.GraphQL

/-- What the schema knows about a place in a document. -/
structure Scope where
  schema : Schema
  /-- The output type of the innermost operation, fragment or field. -/
  type : Option TypeRef
  /-- The composite type whose fields are selected. -/
  parent : Option TypeDef
  /-- The innermost field. -/
  field : Option Field
  deriving Inhabited

namespace Schema

/-- A type as written in a document, if its name is known. -/
def known? (s : Schema) (t : TypeRef) : Option TypeRef :=
  if (s.base? t).isSome then some t else none

/-- The field that a composite type has under a name, the fields on the schema included. -/
def fieldOf? (s : Schema) (parent : TypeDef) (name : String) : Option Field :=
  let isQuery := s.query == some parent.name
  if name = "__schema" && isQuery then some Standard.schemaField
  else if name = "__type" && isQuery then some Standard.typeField
  else if name = "__typename" && parent.isComposite then some Standard.typenameField
  else parent.field? name

/-- Whether some object may be of both of two composite types. -/
def overlaps (s : Schema) (a b : TypeDef) : Bool :=
  a.name == b.name ||
    if a.isAbstract then
      if b.isAbstract then
        (s.possibleTypes a).any fun n => (s.type? n).any (s.isSubType b)
      else s.isSubType a b
    else b.isAbstract && s.isSubType b a

def composite? (s : Schema) (name : String) : Option TypeDef :=
  (s.type? name).filter TypeDef.isComposite

def compositeOf? (s : Schema) (t : Option TypeRef) : Option TypeDef :=
  t.bind fun t => s.composite? t.baseName

def inputOf? (s : Schema) (t : TypeRef) : Option TypeRef :=
  if (s.base? t).any TypeDef.isInput then some t else none

def outputOf? (s : Schema) (t : TypeRef) : Option TypeRef :=
  if (s.base? t).any TypeDef.isOutput then some t else none

def lastDirective? (s : Schema) (name : String) : Option DirectiveDef :=
  s.directives.reverse.find? (·.name == name)

end Schema

namespace Scope

def outside (s : Schema) : Scope := { schema := s, type := none, parent := none, field := none }

def operation (s : Schema) (kind : OperationKind) : Scope :=
  { outside s with type := (s.rootType? kind).map .named }

def fragment (s : Schema) (on : String) : Scope :=
  { outside s with type := s.outputOf? (.named on) }

def within (sc : Scope) : Scope := { sc with parent := sc.schema.compositeOf? sc.type }

def select (sc : Scope) (name : String) : Scope :=
  let f := sc.parent.bind fun p => sc.schema.fieldOf? p name
  { sc with field := f, type := f.bind fun f => sc.schema.outputOf? f.type }

/-- The scope of an inline fragment. Without a condition the type stays what it is, less its wrappers. -/
def inline (sc : Scope) (on : Option String) : Scope :=
  let t := match on with
    | some n => sc.schema.outputOf? (.named n)
    | none => sc.type.bind fun t => sc.schema.outputOf? (.named t.baseName)
  { sc with type := t }

end Scope

end Harvest.GraphQL
