import Harvest.Proofs.Entity.DocumentTexts
import Harvest.Proofs.Entity.Filters

/-!
# The shape of listings

A listing pages through a field of the remote and has to fit it: it declares `limit` and `offset` with the types
that the field gives to the arguments of these names, under any lists and exclamation marks, and passes them on.
If a type did not fit, every request for the entities would be refused. Setting a filter adds an argument to the
field and leaves the rest of the query as it is.

The types of the variables are taken from the schema as they are. `TypeRef.parse_print` says that they are those
that are read from the printed types, so it is enough to know how the types print.

The shape is described as a whole by `Listing.Fits`: the variables of the operation, the arguments of its
field, what is spread, and the types that are declared. That a filter adds its argument and nothing else is
an equation between two queries, one with the argument taken out again (`query_without`).
-/

namespace Harvest

open GraphQL

/-! ## Types that are printed and read

The variables are declared by types, which are printed into the document. -/

namespace GraphQL

/-- Reads a type that nothing follows. -/
def Parser.soleType (fuel : Nat) : Parser TypeRef := do
  let t ← typeRef fuel
  match ← peek with
  | .eof => return t
  | found => throw (.expected "<EOF>" found)

def TypeRef.parse (text : String) : Except SyntaxError TypeRef := Parser.runOn Parser.soleType text

/-- **A type is read back from its print**, however its lists and exclamation marks are nested. -/
theorem TypeRef.parse_print {t : TypeRef} (h : t.IsProper) : TypeRef.parse t.print = .ok t := by
  apply Parser.runOn_of_reads [.eof] h.spells
  intro fuel hfuel
  have hend : Parser.Avoids [.bang] [.eof] := Parser.avoids_other .eof nofun _ _
  exact (Parser.typeRef_reads h (Nat.le_of_lt hfuel) hend).bind ((Parser.peek_reads .eof []).bind (.pure ..))

end GraphQL

/-! ## Queries without an argument

An argument is taken out of the field of the operation, by its name. -/

/-- An operation whose own fields lack an argument. -/
def GraphQL.Operation.without (name : String) (o : Operation) : Operation :=
  { o with
    selections := o.selections.map fun s =>
      match s with
      | .field label field arguments ds inner => .field label field (arguments.filter (·.name != name)) ds inner
      | s => s }

/-- A query whose field lacks an argument. -/
def ListingQuery.without (name : String) (q : ListingQuery) : ListingQuery :=
  { q with
    definition :=
      match q.definition with
      | .operation o => .operation (o.without name)
      | d => d }

namespace Listing

/-- How the type of an argument of the field is printed; the type of an argument that it does not have is taken
to be `Int`. -/
def argumentType (s : Schema) (queryField name : String) : String :=
  match (s.queryField? queryField).bind (·.arg? name) with
  | some arg => arg.type.print
  | none => "Int"

variable {s : Schema} {d : Descriptor} {l : String} {ls : List String} {f g : ListingFilter}

theorem print_variableType (s : Schema) (queryField name : String) :
    (variableType s queryField name).print = argumentType s queryField name := by
  unfold variableType argumentType
  cases (s.queryField? queryField).bind (·.arg? name) with
  | some arg => rfl
  | none => rfl

/-- Without its filter, the operation of a listing is the one that is made for none. -/
theorem without_operation (x : Option Literal) : (operation s d l x).without "filter" = operation s d l none := by
  cases x with
  | none => rfl
  | some x => rfl

/-- **A filter that is set adds to the query and does nothing else**: without it, the query is the one that is
made when no filter is set. -/
theorem query_without {q : ListingQuery} (h : query s f d l = .ok q) :
    query s ListingFilter.none d l = .ok (q.without "filter") := by
  obtain ⟨x, -, hq⟩ := bind_ok h
  cases hq
  show _ = Except.ok (ListingQuery.mk _ _ (.operation ((operation s d l x).without "filter")) _)
  rw [without_operation]
  rfl

theorem queries_without {qs : List ListingQuery} (h : queries s f d ls = .ok qs) :
    queries s ListingFilter.none d ls = .ok (qs.map (·.without "filter")) := by
  induction ls generalizing qs with
  | nil =>
      cases h
      rfl
  | cons l ls ih =>
      unfold queries at h ih ⊢
      rw [List.mapM_cons] at h ⊢
      obtain ⟨q, hq, h⟩ := bind_ok h
      obtain ⟨qs', hqs, h⟩ := bind_ok h
      cases h
      rw [query_without hq, ih hqs]
      rfl

/-! ## What a query asks for

The shape, from the function that makes the operation. -/

/-- Whether an operation asks for a page of the entities of a type in a language, with some arguments for the
field that lists them. -/
structure Asks (s : Schema) (d : Descriptor) (l : String) (arguments : List Argument) (o : Operation) : Prop where
  kind : o.kind = .query
  name : o.name = some (Descriptor.operationName d.typeName l)
  directives : o.directives = []
  declared : o.variableDefinitions.map (·.name) = ["limit", "offset"]
  types : ∀ v ∈ o.variableDefinitions, v.type.print = argumentType s d.queryField v.name
  undecorated : ∀ v ∈ o.variableDefinitions, v.default = none ∧ v.directives = [] ∧ v.description = none
  selections : o.selections = [.field none d.queryField arguments []
    [.field none entitiesField [⟨"language", .enum l⟩] [] [.spread (Descriptor.identityName d.typeName) []]]]

/-- Whether a query is the listing of a type in a language: it passes on what it declares, and has a filter
exactly if there is one for the language. -/
structure Fits (s : Schema) (filter : ListingFilter) (d : Descriptor) (l : String) (q : ListingQuery) : Prop where
  typeName : q.typeName = d.typeName
  language : q.language = l
  variableNames : q.variableNames = ["limit", "offset"]
  asks : ∃ o arguments, q.definition = .operation o ∧ Asks s d l arguments o
    ∧ arguments.filter (·.name != "filter") = [⟨"limit", .variable "limit"⟩, ⟨"offset", .variable "offset"⟩]
    ∧ ((∃ a ∈ arguments, a.name = "filter") ↔ (filter d l).isNull = false)

theorem asks_operation (x : Option Literal) :
    Asks s d l (ListingQuery.pageVariables.map variableArgument ++ (x.map (Argument.mk "filter")).toList)
      (operation s d l x) := by
  refine ⟨rfl, rfl, rfl, rfl, ?_, ?_, rfl⟩
  · intro v hv
    obtain ⟨name, -, rfl⟩ := List.mem_map.mp hv
    exact print_variableType s d.queryField name
  · intro v hv
    obtain ⟨name, -, rfl⟩ := List.mem_map.mp hv
    exact ⟨rfl, rfl, rfl⟩

theorem query_fits {q : ListingQuery} (h : query s f d l = .ok q) : Fits s f d l q := by
  obtain ⟨x, hx, hq⟩ := bind_ok h
  cases hq
  refine ⟨rfl, rfl, rfl, operation s d l x, _, rfl, asks_operation x, ?_, ?_⟩
  · cases x with
    | none => rfl
    | some x => rfl
  · cases filterLiteral_ok hx with
    | unset hv => simp [hv, variableArgument, ListingQuery.pageVariables]
    | written hv _ _ => simp [hv, variableArgument, ListingQuery.pageVariables]

/-- **Listings fit the field of the remote, and filters touch only the filter.** There is a query for each
language, in order, which declares its variables with the types of the arguments; for the schema of a remote these
are what is read from the printed types. With the filter taken out, the queries for two filters are the same, namely
those for none. -/
theorem queries_shape {qs rs : List ListingQuery} (hf : queries s f d ls = .ok qs)
    (hg : queries s g d ls = .ok rs) :
    List.Forall₂ (Fits s f d) ls qs
      ∧ (∀ data, Schema.ofIntrospection data = .ok s →
        ∀ n, TypeRef.parse (argumentType s d.queryField n) = .ok (variableType s d.queryField n))
      ∧ qs.map (·.without "filter") = rs.map (·.without "filter")
      ∧ queries s ListingFilter.none d ls = .ok (qs.map (·.without "filter")) := by
  have hsame := (queries_without hf).symm.trans (queries_without hg)
  refine ⟨(mapM_ok hf).imp fun l q hq => query_fits hq, ?_, Except.ok.inj hsame, queries_without hf⟩
  intro data hs n
  rw [← print_variableType]
  exact TypeRef.parse_print ((legible_ofIntrospection hs).isProper_variableType d.queryField n)

end Listing

/-! ## A field with wrapped types -/

namespace Sample

def wrapped (kind : String) (inner : Value) : Value := .record [("kind", .str kind), ("ofType", inner)]

/-- A remote whose nodes take a list of limits, no offset and a filter. -/
def wrappedNodes : Value :=
  .record [("__schema", .record [
    ("queryType", typeRef "OBJECT" "Query"),
    ("directives", .list []),
    ("types", .list [
      type "OBJECT" "Query" [] [field "nodeQuery"
        [.record [("name", .str "limit"),
            ("type", wrapped "NON_NULL" (wrapped "LIST" (wrapped "NON_NULL" (typeRef "SCALAR" "Int"))))],
          argument "filter" "SCALAR" "String"]
        (typeRef "OBJECT" "EntityQueryResult")],
      type "OBJECT" "EntityQueryResult" [] [field "count" [] (typeRef "SCALAR" "Int")],
      type "OBJECT" "Node" [] [field "title" [] (typeRef "SCALAR" "String")],
      typeRef "SCALAR" "Int", typeRef "SCALAR" "String"])])]

def wrappedSchema : Schema := (Schema.ofIntrospection wrappedNodes).toOption.getD default

/-- A filter for one language only. -/
def english : ListingFilter := fun _ l => if l = "EN" then .str "new" else .null

def everywhere : ListingFilter := .byType [(.str "Node", .str "old")]

/-- Two filters make the same queries but for the filter, and each variable has the type of its argument. -/
theorem wrapped_listings_shape :
    Listing.argumentType wrappedSchema "nodeQuery" "limit" = "[Int!]!"
      ∧ Listing.argumentType wrappedSchema "nodeQuery" "offset" = "Int"
      ∧ TypeRef.parse "[Int!]!" = .ok (Listing.variableType wrappedSchema "nodeQuery" "limit")
      ∧ ∃ qs rs, Listing.queries wrappedSchema english numberedNode ["EN", "DE"] = .ok qs
        ∧ Listing.queries wrappedSchema everywhere numberedNode ["EN", "DE"] = .ok rs
        ∧ List.Forall₂ (Listing.Fits wrappedSchema english numberedNode) ["EN", "DE"] qs
        ∧ qs.map (·.without "filter") = rs.map (·.without "filter") := by
  have hs : Schema.ofIntrospection wrappedNodes = .ok wrappedSchema := eq_ok_of_isSome (by decide +kernel)
  have hqs : (Listing.queries wrappedSchema english numberedNode ["EN", "DE"]).toOption.isSome = true := by
    decide +kernel
  have hrs : (Listing.queries wrappedSchema everywhere numberedNode ["EN", "DE"]).toOption.isSome = true := by
    decide +kernel
  have hqs := eq_ok_of_isSome hqs
  have hrs := eq_ok_of_isSome hrs
  obtain ⟨hfits, hread, hsame, -⟩ := Listing.queries_shape hqs hrs
  have hlimit : Listing.argumentType wrappedSchema "nodeQuery" "limit" = "[Int!]!" := by decide +kernel
  refine ⟨hlimit, by decide +kernel, ?_, _, _, hqs, hrs, hfits, hsame⟩
  have hlimits := hread wrappedNodes hs "limit"
  rwa [show numberedNode.queryField = "nodeQuery" from rfl, hlimit] at hlimits

end Sample

end Harvest
