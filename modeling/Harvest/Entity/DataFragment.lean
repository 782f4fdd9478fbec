import Harvest.Entity.DefaultFragment
import Harvest.Entity.Descriptor
import Harvest.GraphQL.Document.Parser
import Harvest.Storage.FragmentStore

/-!
# Data fragments

A data fragment says what is fetched of every entity of a type. Its text may hold several fragments;
the one that is spread into the listings is the first one on the type that is also named after it, or
else the first one on the type.

`resolveFragments` finds one fragment per type: the caller's, or else the stored one, or else a
generated one, which is then stored. What fails for one type leaves the others alone.
-/

namespace Harvest

open GraphQL

/-- Where the text of a fragment came from. -/
inductive FragmentSource where
  | custom
  | cache
  | generated
  deriving DecidableEq, Repr, Inhabited

def FragmentSource.word : FragmentSource → String
  | custom => "custom"
  | cache => "cache"
  | generated => "generated"

/-- The fragment of a type: its name, all fragments of its text with the main one first, and the
text. -/
structure DataFragment where
  typeName : String
  name : String
  definitions : List Fragment
  text : String
  source : FragmentSource
  deriving Repr, Inhabited

namespace DataFragment

/-- The main fragment of a list of fragments and the others in order, if one of them is on the
type. -/
def split? (typeName : String) (fs : List Fragment) : Option (Fragment × List Fragment) :=
  let isMain (f : Fragment) : Bool := f.on == typeName && f.name == typeName
  let isOn (f : Fragment) : Bool := f.on == typeName
  let at? (p : Fragment → Bool) : Option (Fragment × List Fragment) :=
    match fs.findIdx? p with
    | none => none
    | some i => fs[i]?.map fun f => (f, fs.eraseIdx i)
  (at? isMain).or (at? isOn)

def ofDocument (typeName text : String) (source : FragmentSource) (d : Document) :
    Except Failure DataFragment :=
  if !(Document.operations d).isEmpty then .error (.fragment typeName .hasOperations)
  else
    match split? typeName (Document.fragments d) with
    | none => .error (.fragment typeName .noneOnType)
    | some (main, others) =>
      .ok { typeName, name := main.name, definitions := main :: others, text, source }

/-- The fragment that a text holds for a type. An error of syntax is a failure of the type. -/
def parse (typeName text : String) (source : FragmentSource) : Except Failure DataFragment :=
  match Document.parse text with
  | .ok d => ofDocument typeName text source d
  | .error e => .error (.fragment typeName (.syntaxError e))

end DataFragment

/-! ### Finding the fragments of several types -/

/-- Makes the text of a fragment: from a schema, the names of all sourced types and the name of the
type. -/
abbrev FragmentGenerator := Schema → List String → String → Except FragmentProblem String

def FragmentGenerator.standard (maxDepth : Int) : FragmentGenerator := fun s sourced typeName =>
  match DefaultFragment.text s sourced maxDepth typeName with
  | .ok text => .ok text
  | .error (.problem p) => .error p
  | .error .unionReference =>
    .error (.generator "'GraphQLUnionType' object has no attribute 'fields'")

/-- A fragment store together with the disk that it may lie on. -/
structure FragmentCache where
  store : FragmentStore
  disk : Disk
  deriving Repr, Inhabited

namespace FragmentCache

/-- The text kept for a type. -/
def read (c : FragmentCache) (typeName : String) : Except Failure (Option String) :=
  match c.store.read c.disk typeName with
  | .ok text => .ok text
  | .error f => .error (.fault f)

/-- The cache with a text kept for a type. -/
def write (c : FragmentCache) (typeName text : String) : Except Failure Unit × FragmentCache :=
  match c.store.write c.disk typeName text with
  | (.ok store, disk) => (.ok (), ⟨store, disk⟩)
  | (.error f, disk) => (.error (.fault f), { c with disk })

end FragmentCache

/-- What fragments are found with: the schema, the sourced types, the texts of the caller and the
generator for types without any text. -/
structure FragmentRequest where
  schema : Schema
  sourced : List String
  custom : Keyed String
  generator : FragmentGenerator

namespace FragmentRequest

/-- Generates the fragment of a type. -/
def generate (r : FragmentRequest) (typeName : String) : Except Failure DataFragment :=
  match r.generator r.schema r.sourced typeName with
  | .ok text => DataFragment.parse typeName text .generated
  | .error p => .error (.fragment typeName p)

/-- Finds the fragment of a type, and keeps it when it had to be generated. -/
def provide (r : FragmentRequest) (typeName : String) (c : FragmentCache) :
    Except Failure DataFragment × FragmentCache :=
  match r.custom.get? typeName with
  | some text => (DataFragment.parse typeName text .custom, c)
  | none =>
    match c.read typeName with
    | .error e => (.error e, c)
    | .ok (some text) => (DataFragment.parse typeName text .cache, c)
    | .ok none =>
      match r.generate typeName with
      | .error e => (.error e, c)
      | .ok f =>
        let (kept, c) := c.write typeName f.text
        (kept.map fun _ => f, c)

end FragmentRequest

/-- The fragments that were found, and why the other types have none. -/
structure ResolvedFragments where
  fragments : Keyed DataFragment
  failures : Keyed FragmentProblem
  deriving Repr, Inhabited

namespace ResolvedFragments

/-- Nothing found and nothing failed. -/
def empty : ResolvedFragments := ⟨.empty, .empty⟩

def contains (r : ResolvedFragments) (typeName : String) : Bool := r.fragments.contains typeName

end ResolvedFragments

/-- Finds the fragments of types one after the other. Only a fault ends this early; the cache is
given back in any case. -/
def FragmentRequest.resolveAll (r : FragmentRequest) :
    List String → ResolvedFragments → FragmentCache → Except Failure ResolvedFragments × FragmentCache
  | [], found, c => (.ok found, c)
  | t :: ts, found, c =>
    match r.provide t c with
    | (.ok f, c) => r.resolveAll ts { found with fragments := found.fragments.insert t f } c
    | (.error (.fragment _ p), c) =>
      r.resolveAll ts { found with failures := found.failures.insert t p } c
    | (.error e, c) => (.error e, c)

/-- Finds one fragment for each of the types of a list, which are all taken to be sourced. -/
def resolveFragments (s : Schema) (types : List String) (custom : Keyed String)
    (generator : FragmentGenerator) (c : FragmentCache) :
    Except Failure ResolvedFragments × FragmentCache :=
  FragmentRequest.resolveAll { schema := s, sourced := types, custom, generator } types .empty c

end Harvest
