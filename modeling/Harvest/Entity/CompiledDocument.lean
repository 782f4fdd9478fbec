import Harvest.Data.Keyed
import Harvest.Entity.Descriptor
import Harvest.GraphQL.Document

/-!
# Compiled documents

A compiled document is all that is sent for one entity type: the text of a document with one operation
for each language. A node definition says under which name the entities of the type are kept.
-/

namespace Harvest

open GraphQL

/-- The document of an entity type, with the operation of each language. -/
structure CompiledDocument where
  typeName : String
  queryField : String
  document : Document
  operations : Keyed String
  text : String
  deriving Repr, Inhabited

def CompiledDocument.fragment? (d : CompiledDocument) (name : String) : Option Fragment :=
  (Document.fragments d.document).find? (·.name == name)

/-- How the entities of a type are kept. -/
structure NodeDefinition where
  descriptor : Descriptor
  nodeType : String
  document : CompiledDocument
  idFields : List String
  deriving Repr, Inhabited

namespace NodeDefinition

def typeName (d : NodeDefinition) : String := d.descriptor.typeName

def make (before : String) (d : Descriptor) (document : CompiledDocument) : NodeDefinition :=
  { descriptor := d, nodeType := before ++ d.typeName, document, idFields := identityPaths }

/-- The definitions of those types that have a compiled document. -/
def ofDocuments (before : String) (ds : List Descriptor) (documents : Keyed CompiledDocument) :
    Keyed NodeDefinition :=
  .ofList (ds.filterMap fun d =>
    (documents.get? d.typeName).map fun document => (d.typeName, make before d document))

end NodeDefinition

end Harvest
