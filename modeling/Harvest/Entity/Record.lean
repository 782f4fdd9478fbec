import Harvest.Data.Value.Display
import Harvest.Data.Value.Raw

/-!
# Entity records

A record is one entity as it was received. It is known by its type, its id and its language; where the
entity has no language of its own, the language of the listing stands in. The data of a `RawRecord` may
hold texts that are no texts of characters.
-/

namespace Harvest

/-- An entity as it came out of a page. -/
structure EntityRecord where
  typeName : String
  language : String
  data : Members
  deriving Repr, Inhabited

namespace EntityRecord

/-- The name of the type that the entity gives for itself. -/
def typename (r : EntityRecord) : Value := Members.field r.data "__typename"

def entityId (r : EntityRecord) : Value := Members.field r.data "entityId"

/-- The language of the entity, or else that of the listing. -/
def entityLanguage (r : EntityRecord) : Value :=
  let own := (Value.object r.data).atPath "entityLanguage.id"
  if own.isTruthy then own else .str r.language

/-- What a record is known by. -/
def identity (r : EntityRecord) : List Value := [r.typename, r.entityId, r.entityLanguage]

/-- The key of a record: its identity, joined by colons. -/
def nodeId (r : EntityRecord) : String := ":".intercalate (r.identity.map Value.display)

end EntityRecord

/-- A record whose texts are raw. -/
structure RawRecord where
  typeName : String
  language : String
  data : List (RawText × RawValue)
  deriving Repr, Inhabited

/-- A raw record as a record, if all texts of its data are texts of characters. -/
def RawRecord.record? (r : RawRecord) : Option EntityRecord :=
  (RawValue.members? r.data).map fun data => { typeName := r.typeName, language := r.language, data }

end Harvest
