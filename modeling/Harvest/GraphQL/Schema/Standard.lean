import Harvest.GraphQL.Schema

/-!
# Standard types

The types that every schema has beside its own: the scalars of the language, and the types through
which a schema describes itself. The latter are there for documents that ask for them; no entity is
ever sourced from them.
-/

namespace Harvest.GraphQL.Standard

def scalarNames : List String := ["Int", "Float", "String", "Boolean", "ID"]

/-- The scalars that exist whether a schema lists them or not. -/
def impliedScalars : List String := ["String", "Boolean"]

def plainField (name : String) (type : TypeRef) : Field := { name, type, args := [] }

def must (name : String) : TypeRef := .nonNull (.named name)

/-- A required list of required items. -/
def mustList (name : String) : TypeRef := .nonNull (.list (must name))

/-- The argument that asks for deprecated parts too. -/
def includeDeprecated : InputValue :=
  { name := "includeDeprecated", type := .named "Boolean", hasDefault := true, isDeprecated := false }

/-- A field that lists parts, deprecated ones on demand. -/
def listField (name : String) (type : TypeRef) : Field :=
  { name, type, args := [includeDeprecated] }

/-- The types through which a schema describes itself. -/
def introspectionTypes : List TypeDef := [
  .object "__Schema" [] [
    plainField "description" (.named "String"),
    plainField "types" (mustList "__Type"),
    plainField "queryType" (must "__Type"),
    plainField "mutationType" (.named "__Type"),
    plainField "subscriptionType" (.named "__Type"),
    listField "directives" (mustList "__Directive")],
  .object "__Type" [] [
    plainField "kind" (must "__TypeKind"),
    plainField "name" (.named "String"),
    plainField "description" (.named "String"),
    plainField "specifiedByURL" (.named "String"),
    listField "fields" (.list (must "__Field")),
    plainField "interfaces" (.list (must "__Type")),
    plainField "possibleTypes" (.list (must "__Type")),
    listField "enumValues" (.list (must "__EnumValue")),
    listField "inputFields" (.list (must "__InputValue")),
    plainField "ofType" (.named "__Type"),
    plainField "isOneOf" (.named "Boolean")],
  .enum "__TypeKind"
    ["SCALAR", "OBJECT", "INTERFACE", "UNION", "ENUM", "INPUT_OBJECT", "LIST", "NON_NULL"],
  .object "__Field" [] [
    plainField "name" (must "String"),
    plainField "description" (.named "String"),
    listField "args" (mustList "__InputValue"),
    plainField "type" (must "__Type"),
    plainField "isDeprecated" (must "Boolean"),
    plainField "deprecationReason" (.named "String")],
  .object "__InputValue" [] [
    plainField "name" (must "String"),
    plainField "description" (.named "String"),
    plainField "type" (must "__Type"),
    plainField "defaultValue" (.named "String"),
    plainField "isDeprecated" (must "Boolean"),
    plainField "deprecationReason" (.named "String")],
  .object "__EnumValue" [] [
    plainField "name" (must "String"),
    plainField "description" (.named "String"),
    plainField "isDeprecated" (must "Boolean"),
    plainField "deprecationReason" (.named "String")],
  .object "__Directive" [] [
    plainField "name" (must "String"),
    plainField "description" (.named "String"),
    plainField "isRepeatable" (must "Boolean"),
    plainField "locations" (mustList "__DirectiveLocation"),
    listField "args" (mustList "__InputValue"),
    plainField "isDeprecated" (must "Boolean"),
    plainField "deprecationReason" (.named "String")],
  .enum "__DirectiveLocation"
    ["QUERY", "MUTATION", "SUBSCRIPTION", "FIELD", "FRAGMENT_DEFINITION", "FRAGMENT_SPREAD",
     "INLINE_FRAGMENT", "VARIABLE_DEFINITION", "SCHEMA", "SCALAR", "OBJECT", "FIELD_DEFINITION",
     "ARGUMENT_DEFINITION", "INTERFACE", "UNION", "ENUM", "ENUM_VALUE", "INPUT_OBJECT",
     "INPUT_FIELD_DEFINITION", "DIRECTIVE_DEFINITION"]]

def type? (name : String) : Option TypeDef :=
  if scalarNames.contains name then some (.scalar name)
  else introspectionTypes.find? (·.name == name)

def implied : List TypeDef := introspectionTypes ++ impliedScalars.map TypeDef.scalar

/-- A schema's own types with the standard types that it lacks behind them. -/
def complete (types : List TypeDef) : List TypeDef :=
  types ++ implied.filter fun t => types.all fun u => u.name != t.name

/-- The field of the query root through which a schema describes itself. -/
def schemaField : Field := plainField "__schema" (must "__Schema")

/-- The field of the query root through which a type describes itself. -/
def typeField : Field :=
  { name := "__type", type := .named "__Type",
    args := [{ name := "name", type := must "String", hasDefault := false, isDeprecated := false }] }

/-- The field of every composite type that gives the name of the object's type. -/
def typenameField : Field := plainField "__typename" (must "String")

end Harvest.GraphQL.Standard
