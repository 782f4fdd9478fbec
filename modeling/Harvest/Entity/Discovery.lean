import Harvest.Entity.Descriptor
import Harvest.GraphQL.Schema
import Harvest.Text.Upper

/-!
# Discovery of entity types

A field of the query root lists entities when it is named after a composite type, `nodeQuery` after
`Node`, and returns a listing result. An abstract type stands for its implementors. A type that
several fields list belongs to the first of them.
-/

namespace Harvest

open GraphQL

/-- The part before a final `Query` in the name of a field, which must not be empty and lies on one
line. One line end may follow the name. -/
def queryPrefix? (fieldName : String) : Option String :=
  let cs := fieldName.toList
  let line := if cs.getLast? = some '\n' then cs.dropLast else cs
  let suffix := "Query".toList
  if suffix.isSuffixOf line then
    let before := line.take (line.length - suffix.length)
    if before.isEmpty ∨ '\n' ∈ before then none else some (String.ofList before)
  else none

/-- The entity type that a query field lists, if it lists any. -/
def entityType? (s : Schema) (fieldName : String) : Option String := do
  let before ← queryPrefix? fieldName
  let field ← s.queryField? fieldName
  let result ← field.type.nullable.named?
  if result ≠ listingResult then none
  else
    let name := Text.upperFirst before
    let type ← s.type? name
    if type.isComposite then some name else none

/-- The entity types that one query field lists. -/
def fieldEntities (s : Schema) (languages : List String) (fieldName : String) : List Descriptor :=
  match entityType? s fieldName with
  | none => []
  | some typeName =>
    if s.isAbstract typeName then
      (s.implementors typeName).map fun n =>
        { typeName := n, queryField := fieldName, languages, expanded := true,
          abstractType := some typeName }
    else
      [{ typeName, queryField := fieldName, languages, expanded := false, abstractType := none }]

/-- The descriptors of a list of which no earlier one has the same type. -/
def distinctTypes (ds : List Descriptor) : List Descriptor :=
  ds.foldl (fun kept d => if kept.any (·.typeName == d.typeName) then kept else kept ++ [d]) []

/-- The entity types of a remote, in the order of its query fields. -/
def entityTypes (s : Schema) (languages : List String) : List Descriptor :=
  distinctTypes ((s.queryFields.map Field.name).flatMap (fieldEntities s languages))

end Harvest
