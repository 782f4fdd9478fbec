import Harvest.Entity.Descriptor
import Harvest.Failure

/-!
# Listings

A listing is the operation that asks for one page of the entities of a type in one language. Of each
entity it selects only what identifies it:

    query LIST_NodeArticle_EN($limit: Int, $offset: Int) {
      nodeQuery(limit: $limit, offset: $offset) {
        entities(language: EN) {
          ..._NodeArticleId_
        }
      }
    }

The variables have the types that the listing field gives to its arguments. A filter becomes one more
argument of the field, and is refused when it does not fit there.
-/

namespace Harvest

open GraphQL

/-- The listing of a type in a language. -/
structure ListingQuery where
  typeName : String
  language : String
  definition : Definition
  variableNames : List String
  deriving Repr, Inhabited

/-- The value to filter the listing of a type in a language by; null for no filter. -/
abbrev ListingFilter := Descriptor → String → Value

namespace ListingFilter

def none : ListingFilter := fun _ _ => .null

def byType (filters : Members) : ListingFilter := fun d _ => Members.field filters d.typeName

def byLanguage (filters : Value) : ListingFilter := fun d language =>
  (filters.field d.typeName).field language

end ListingFilter

namespace ListingQuery

def pageVariables : List String := ["limit", "offset"]

def operationName? (q : ListingQuery) : Option String := q.definition.name?

def text (q : ListingQuery) : String := q.definition.print

end ListingQuery

namespace Listing

/-- The type that a variable of a listing is declared with: that of the argument it is passed to. -/
def variableType (s : Schema) (queryField name : String) : TypeRef :=
  match (s.queryField? queryField).bind (·.arg? name) with
  | some arg => arg.type
  | none => .named "Int"

def variableDefinition (s : Schema) (queryField name : String) : VariableDefinition :=
  { description := none, name, type := variableType s queryField name,
    default := none, directives := [] }

/-- The argument that passes a variable on under its own name. -/
def variableArgument (name : String) : Argument := ⟨name, .variable name⟩

def filterLiteral (s : Schema) (filter : ListingFilter) (d : Descriptor) (language : String) :
    Except Failure (Option Literal) :=
  let v := filter d language
  if v.isNull then .ok none
  else
    match (s.queryField? d.queryField).bind (·.arg? "filter") with
    | none => .error (.configuration (.noFilterArgument d.queryField d.typeName))
    | some arg =>
      match Literal.ofValue? s arg.type v with
      | .error e => .error (.coercion e)
      | .ok none => .error (.configuration (.filterMismatch d.typeName arg.type.print))
      | .ok (some l) => .ok (some l)

def operation (s : Schema) (d : Descriptor) (language : String) (filter : Option Literal) :
    Operation :=
  let arguments := ListingQuery.pageVariables.map variableArgument
    ++ (filter.map (Argument.mk "filter")).toList
  let entities := Selection.field none entitiesField [⟨"language", .enum language⟩] []
    [.spread (Descriptor.identityName d.typeName) []]
  { description := none
    kind := .query
    name := some (Descriptor.operationName d.typeName language)
    variableDefinitions := ListingQuery.pageVariables.map (variableDefinition s d.queryField)
    directives := []
    selections := [.field none d.queryField arguments [] [entities]] }

/-- The listing of a type in a language. -/
def query (s : Schema) (filter : ListingFilter) (d : Descriptor) (language : String) :
    Except Failure ListingQuery := do
  let literal ← filterLiteral s filter d language
  return { typeName := d.typeName, language, definition := .operation (operation s d language literal),
           variableNames := ListingQuery.pageVariables }

/-- The listings of a type, one for each language. -/
def queries (s : Schema) (filter : ListingFilter) (d : Descriptor) (languages : List String) :
    Except Failure (List ListingQuery) :=
  languages.mapM (query s filter d)

/-- The fragment that selects what identifies an entity of a type. -/
def identityFragment (typeName : String) : Fragment :=
  { description := none
    name := Descriptor.identityName typeName
    on := typeName
    directives := []
    selections := [.plain "__typename" [], .plain "entityId" [],
      .plain "entityLanguage" [.plain "id" []]] }

end Listing

end Harvest
