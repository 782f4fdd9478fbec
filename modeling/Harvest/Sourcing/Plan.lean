import Harvest.Config
import Harvest.Entity.Compilation
import Harvest.Entity.Discovery
import Harvest.Paging.Contract
import Harvest.Paging.Strategy
import Harvest.Remote.Introspect
import Harvest.Sourcing.Site

/-!
# Plans

A plan holds everything that is settled before the first page is asked for: the entity types, their
listings and fragments, and the documents compiled from them. It comes about as a whole or not at all.
The configuration is checked before the remote is asked for its schema, which is the only request.
-/

namespace Harvest

open GraphQL

/-- What is to be sourced, and how. Its pages are walked by limit and offset, or by something else. -/
structure Order (π : Type := LimitOffset) where
  config : Config
  /-- Texts of fragments that override those in the cache. -/
  custom : Keyed String
  /-- The generator of missing fragments, if it is not the standard one. -/
  generator : Option FragmentGenerator
  /-- The filters, if they are not those of the configuration. -/
  filter : Option ListingFilter
  /-- The paging strategy, if it is not the one by the page size of the configuration. -/
  paging : Option (PagingProfile × π)

namespace Order

/-- A run by its configuration alone. -/
def ofConfig (config : Config) : Order :=
  { config, custom := .empty, generator := none, filter := none, paging := none }

variable {π : Type}

/-- How the paging strategy presents itself. -/
def profile (o : Order π) : PagingProfile := (o.paging.map (·.1)).getD .limitOffset

/-- The paging strategy. -/
def walking [Paging π] (o : Order π) : PagingStrategy :=
  (o.paging.map fun p => Paging.strategy p.2).getD (.bySize o.config.pageSize)

def listingFilter (o : Order π) : ListingFilter := o.filter.getD (.byType o.config.filters)

def fragmentGenerator (o : Order π) : FragmentGenerator :=
  o.generator.getD (.standard o.config.fragmentDepth)

/-- Refuses what cannot work, before anything is asked for. -/
def preflight (o : Order π) : Except Failure Unit := do
  o.config.check
  o.profile.check

end Order

/-- What is settled before the first page is asked for. -/
structure Plan where
  schema : Schema
  descriptors : List Descriptor
  listings : Keyed (List ListingQuery)
  identities : Keyed Fragment
  fragments : ResolvedFragments
  documents : Keyed CompiledDocument
  nodes : Keyed NodeDefinition
  deriving Inhabited

namespace Plan

/-- The types without a fragment, each with the sentence that says why. -/
def skipped (p : Plan) : List (String × String) :=
  p.fragments.failures.entries.map fun f => (f.1, Failure.message (.fragment f.1 f.2))

/-- The types that a document can be compiled for. -/
def compilable (ds : List Descriptor) (found : ResolvedFragments) : List Descriptor :=
  ds.filter fun d => found.contains d.typeName

variable {π : Type}

def listingsOf (o : Order π) (s : Schema) (ds : List Descriptor) :
    Except Failure (Keyed (List ListingQuery)) := do
  let pairs ← ds.mapM fun d => do
    return (d.typeName, ← Listing.queries s o.listingFilter d d.languages)
  return .ofList pairs

def complete (o : Order π) (s : Schema) (ds : List Descriptor)
    (listings : Keyed (List ListingQuery)) (found : ResolvedFragments) : Except Failure Plan := do
  let identities := Keyed.ofList (ds.map fun d => (d.typeName, Listing.identityFragment d.typeName))
  let parts : Compilation.Parts := { listings, identities, fragments := found.fragments }
  let documents ← Compilation.compile (some s) parts (compilable ds found)
  return {
    schema := s, descriptors := ds, listings, identities, fragments := found, documents
    nodes := NodeDefinition.ofDocuments o.config.typePrefix.display (compilable ds found) documents }

/-- The directory that a value names. -/
def directoryName : Value → Except Fault String
  | .str s => .ok s
  | _ => .error .kind

/-- Writes the compiled documents where the configuration asks for them. -/
def dump (c : Config) (p : Plan) (disk : Disk) : Except Fault Unit × Disk :=
  if c.debugDir.isTruthy then
    match directoryName c.debugDir with
    | .error f => (.error f, disk)
    | .ok name =>
      match writeTexts disk name (p.documents.map CompiledDocument.text).entries with
      | (.ok _, disk) => (.ok (), disk)
      | (.error f, disk) => (.error f, disk)
  else (.ok (), disk)

variable {σ : Type}

/-- Makes a plan from a schema. Fragments that had to be generated are kept in any case. -/
def ofSchema (site : Site σ) (o : Order π) (s : Schema) : StateM σ (Except Failure Plan) := do
  let ds := entityTypes s o.config.languages
  match listingsOf o s ds with
  | .error e => return .error e
  | .ok listings =>
    let (found, cache) := resolveFragments s (ds.map (·.typeName)) o.custom o.fragmentGenerator
      (site.cache (← get))
    modify (site.keep cache)
    match found with
    | .error e => return .error e
    | .ok found =>
      match complete o s ds listings found with
      | .error e => return .error e
      | .ok plan =>
        let cache := site.cache (← get)
        let (written, disk) := dump o.config plan cache.disk
        modify (site.keep { cache with disk })
        match written with
        | .error f => return .error (.fault f)
        | .ok _ => return .ok plan

/-- Makes the plan of a run. -/
def prepare (site : Site σ) (o : Order π) : StateM σ (Except Failure Plan) := do
  match o.preflight with
  | .error e => return .error e
  | .ok _ =>
    match ← loadSchema site.ask with
    | .error e => return .error e
    | .ok s => ofSchema site o s

end Plan

end Harvest
