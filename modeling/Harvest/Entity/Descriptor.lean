/-!
# Entity types

An entity type is a concrete type of the remote that is listed page by page through one field of the
query root.
-/

namespace Harvest

/-- An entity type: its name, the field that lists it and the languages it is listed in. A type found
behind an interface or union names that abstract type. -/
structure Descriptor where
  typeName : String
  queryField : String
  languages : List String
  expanded : Bool
  abstractType : Option String
  deriving DecidableEq, Repr, Inhabited

namespace Descriptor

def identityName (typeName : String) : String := s!"_{typeName}Id_"

def operationName (typeName language : String) : String := s!"LIST_{typeName}_{language}"

end Descriptor

/-- The return type of every field that lists entities. -/
def listingResult : String := "EntityQueryResult"

def entitiesField : String := "entities"

def identityPaths : List String := ["__typename", "entityId", "entityLanguage.id"]

end Harvest
