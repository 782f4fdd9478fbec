import Harvest.Entity.CompiledDocument
import Harvest.Entity.DataFragment
import Harvest.Entity.Listing
import Harvest.GraphQL.Schema.Rules
import Harvest.GraphQL.Validation

/-!
# Compilation

The document of a type holds its listings, one for each language, the fragment that identifies an
entity and the data fragment. Each listing gets one more spread, so that a single answer brings both:

    query LIST_NodeArticle_EN($limit: Int, $offset: Int) {
      nodeQuery(limit: $limit, offset: $offset) {
        entities(language: EN) {
          ..._NodeArticleId_
          ...NodeArticle
        }
      }
    }

With a schema at hand every document is checked before anything is sent.
-/

namespace Harvest

open GraphQL

namespace Compilation

def spread (fragment : String) : Selection := .spread fragment []

/-- Adds a spread to the first entities among selections, if there are any. Entities without a
selection set have no place for it. -/
def addToEntities (fragment : String) : List Selection → Except Fault (Option (List Selection))
  | [] => .ok none
  | .field label name args ds inner :: rest =>
    if name = entitiesField then
      if inner.isEmpty then .error .part
      else .ok (some (.field label name args ds (inner ++ [spread fragment]) :: rest))
    else (addToEntities fragment rest).map (·.map (.field label name args ds inner :: ·))
  | s :: rest => (addToEntities fragment rest).map (·.map (s :: ·))

/-- Adds a spread to the entities below the first of some selections. -/
def addBelowRoot (fragment : String) : List Selection → Except Fault (Option (List Selection))
  | [] => .error .position
  | .field label name args ds inner :: rest =>
    if inner.isEmpty then .error .part
    else
      (addToEntities fragment inner).map (·.map fun inner => .field label name args ds inner :: rest)
  | .inline on ds inner :: rest =>
    (addToEntities fragment inner).map (·.map fun inner => .inline on ds inner :: rest)
  | .spread .. :: _ => .error .part

def withSelections (d : Definition) (ss : List Selection) : Definition :=
  match d with
  | .operation o => .operation { o with selections := ss }
  | .fragment f => .fragment { f with selections := ss }
  | .typeSystem => .typeSystem

/-- A listing in which the entities also spread a data fragment. -/
def merge (d : Definition) (fragment : String) : Except Failure Definition :=
  match d.selections? with
  | none => .error (.fault .part)
  | some ss =>
    match addBelowRoot fragment ss, d.name? with
    | .error f, _ => .error (.fault f)
    | .ok (some ss), _ => .ok (withSelections d ss)
    | .ok none, some name => .error (.unresolved name .entities)
    | .ok none, none => .error (.fault .part)

def validate (s : Schema) (typeName : String) (d : Document) : Except Failure Unit :=
  match s.flaws with
  | [] =>
    match Document.violations s d with
    | .error e => .error (.condition e)
    | .ok [] => .ok ()
    | .ok vs => .error (.invalidDocument typeName (vs.map Violation.message))
  | flaws => .error (.invalidSchema (flaws.map SchemaFlaw.message))

def operationsOf (listings : List ListingQuery) : Except Failure (Keyed String) := do
  let pairs ← listings.mapM fun q =>
    match q.operationName? with
    | some name => .ok (q.language, name)
    | none => .error (.fault .part)
  return .ofList pairs

/-- The document of a type. -/
def compileType (s : Option Schema) (d : Descriptor) (listings : List ListingQuery)
    (identity : Fragment) (data : DataFragment) : Except Failure CompiledDocument := do
  let merged ← listings.mapM fun q => merge q.definition data.name
  let document : Document := merged ++ (identity :: data.definitions).map .fragment
  match s with
  | some s => validate s d.typeName document
  | none => .ok ()
  let operations ← operationsOf listings
  return { typeName := d.typeName, queryField := d.queryField, document, operations,
           text := Document.print document }

/-- What the documents of types are put together from, by type. -/
structure Parts where
  listings : Keyed (List ListingQuery)
  identities : Keyed Fragment
  fragments : Keyed DataFragment
  deriving Repr, Inhabited

def require {α : Type} (part : Option α) (typeName : String) (missing : MissingPart) :
    Except Failure α :=
  match part with
  | some a => .ok a
  | none => .error (.unresolved typeName missing)

/-- The document of a type, put together from its parts. -/
def compileParts (s : Option Schema) (p : Parts) (d : Descriptor) :
    Except Failure CompiledDocument := do
  let data ← require (p.fragments.get? d.typeName) d.typeName .fragment
  let identity ← require (p.identities.get? d.typeName) d.typeName .identity
  let listings ← require ((p.listings.get? d.typeName).filter (!·.isEmpty)) d.typeName .listings
  compileType s d listings identity data

/-- The documents of types, in order. The first failure ends it. -/
def compile (s : Option Schema) (p : Parts) (ds : List Descriptor) :
    Except Failure (Keyed CompiledDocument) := do
  let documents ← ds.mapM fun d => do return (d.typeName, ← compileParts s p d)
  return .ofList documents

end Compilation

end Harvest
