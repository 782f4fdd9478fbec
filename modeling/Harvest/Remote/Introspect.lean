import Harvest.Failure

/-!
# Asking for the schema

The schema of a remote is the answer to one request. Its answer has to describe a schema with a query
root; anything else means that nothing can be sourced.
-/

namespace Harvest

open GraphQL

def introspectionOperation : String := "IntrospectionQuery"

/-- The lines of the document that asks for the schema. -/
def introspectionLines : List String := [
  "", "query IntrospectionQuery \x7b", "  __schema \x7b", "", "    queryType \x7b name kind \x7d",
  "    mutationType \x7b name kind \x7d", "    subscriptionType \x7b name kind \x7d",
  "    types \x7b", "      ...FullType", "    \x7d", "    directives \x7b", "      name", "", "",
  "", "", "      locations", "      args \x7b", "        ...InputValue", "      \x7d", "    \x7d",
  "  \x7d", "\x7d", "", "fragment FullType on __Type \x7b", "  kind", "  name", "", "", "",
  "  fields(includeDeprecated: true) \x7b", "    name", "", "    args \x7b", "      ...InputValue",
  "    \x7d", "    type \x7b", "      ...TypeRef", "    \x7d", "    isDeprecated",
  "    deprecationReason", "  \x7d", "  inputFields \x7b", "    ...InputValue", "  \x7d",
  "  interfaces \x7b", "    ...TypeRef", "  \x7d", "  enumValues(includeDeprecated: true) \x7b",
  "    name", "", "    isDeprecated", "    deprecationReason", "  \x7d", "  possibleTypes \x7b",
  "    ...TypeRef", "  \x7d", "\x7d", "", "fragment InputValue on __InputValue \x7b", "  name", "",
  "  type \x7b ...TypeRef \x7d", "  defaultValue", "", "", "\x7d", "",
  "fragment TypeRef on __Type \x7b", "  kind", "  name", "  ofType \x7b", "    name", "    kind",
  "    ofType \x7b", "      name", "      kind", "      ofType \x7b", "        name",
  "        kind", "        ofType \x7b", "          name", "          kind",
  "          ofType \x7b", "            name", "            kind", "            ofType \x7b",
  "              name", "              kind", "              ofType \x7b", "                name",
  "                kind", "                ofType \x7b", "                  name",
  "                  kind", "                  ofType \x7b", "                    name",
  "                    kind", "                  \x7d", "                \x7d",
  "              \x7d", "            \x7d", "          \x7d", "        \x7d", "      \x7d",
  "    \x7d", "  \x7d", "\x7d", ""]

def introspectionRequest : Request :=
  { query := "\n".intercalate introspectionLines
    operationName := some introspectionOperation
    variableValues := [] }

def remoteSchema (data : Value) : Except Failure Schema :=
  match data.field? "__schema" with
  | none => .error (.schema .noDescription)
  | some _ =>
    match Schema.ofIntrospection data with
    | .error e => .error (.schema (.unusable e))
    | .ok s => if s.query.isSome then .ok s else .error (.schema .noQueryRoot)

/-- The schema that the answer to the introspection request gives. -/
def schemaOfAnswer : Answer → Except Failure Schema
  | .data v => remoteSchema v
  | .failed e => .error (.schema (.request e))
  | .broken f => .error (.fault f)

def loadSchema {σ : Type} (ask : Executor σ) : StateM σ (Except Failure Schema) := do
  return schemaOfAnswer (← ask introspectionRequest)

end Harvest
