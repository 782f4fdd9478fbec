import Mathlib.Data.Option.Basic
import Harvest.Proofs.Plan.Partition

/-!
# Aligned plans

The maps of a plan are filled one after the other: the listings and the fragments that identify
entities for all types, the data fragments where they are found, the documents and the node definitions
for the types that have one. `Plan.Aligned` says that they fit: each has exactly the types that it
should, in their order, and a document has exactly one operation for each language. So nothing is ever
missing when a document is put together, and `Plan.prepare` never fails for that reason.

There are two halves. One is about failures: `MissesNothing` says of a computation that it does not fail for
want of a part, and holds of all the steps that look for no part at all. The other is about the maps, whose
keys are computed from the order in which they are filled. They meet in `Plan.complete`, which looks its
parts up: the keys are there, so the look-ups succeed.

For a document more is needed than that it has operations. That each of them lists its type in its language,
and goes by the name that is kept for the language, is carried along by `ListingQuery.IsListing`,
`Operation.ListsIn` and `CompiledDocument.OperatesIn`, from the query through the merge to the document.
-/

namespace Harvest

open GraphQL

/-! ## Computations that miss nothing

The rules by which such computations are put together. -/

/-- Whether a computation does not fail for want of a part of a document. -/
def MissesNothing {α : Type} (x : Except Failure α) : Prop :=
  ∀ name part, x ≠ .error (.unresolved name part)

section MissesNothing

variable {α β : Type}

theorem missesNothing_ok (a : α) : MissesNothing (.ok a) := nofun

/-- The failure of one computation is no worse as that of another. -/
theorem MissesNothing.of_error {x : Except Failure α} {e : Failure} (h : MissesNothing x)
    (hx : x = .error e) : MissesNothing (.error e : Except Failure β) := by
  intro name part he
  cases he
  exact h name part hx

/-- One computation after the other misses nothing if neither does. -/
theorem MissesNothing.bind {x : Except Failure α} {f : α → Except Failure β} (hx : MissesNothing x)
    (hf : ∀ a, x = .ok a → MissesNothing (f a)) : MissesNothing (x >>= f) := by
  cases x with
  | error e => exact hx.of_error rfl
  | ok a => exact hf a rfl

/-- A list of computations misses nothing if none of them does. -/
theorem missesNothing_mapM {f : α → Except Failure β} {xs : List α}
    (h : ∀ x ∈ xs, MissesNothing (f x)) : MissesNothing (xs.mapM f) := by
  intro name part he
  obtain ⟨before, x, after, rfl, -, hx⟩ := mapM_error he
  exact h x (List.mem_append_right _ List.mem_cons_self) name part hx

end MissesNothing

/-! ## Operations and their languages

From a listing query to the operation that it becomes in the document. The data fragment is spread into the
selection of entities, which leaves the name of the operation and its language as they are. -/

/-- The language that a selection of entities asks for. -/
def GraphQL.Selection.entitiesLanguage? : Selection → Option String
  | .field _ name arguments _ _ =>
    if name = entitiesField then
      match arguments.find? (·.name == "language") with
      | some ⟨_, .enum l⟩ => some l
      | _ => none
    else none
  | _ => none

/-- The language of the entities below the only field of an operation. -/
def GraphQL.Operation.entitiesLanguage? (o : Operation) : Option String :=
  match o.selections with
  | [.field _ _ _ _ inner] => inner.findSome? Selection.entitiesLanguage?
  | _ => none

/-- Whether an operation asks for the entities of a type in a language, and goes by its name. -/
def GraphQL.Operation.ListsIn (o : Operation) (typeName l : String) : Prop :=
  o.name = some (Descriptor.operationName typeName l) ∧ o.entitiesLanguage? = some l

/-- Whether a query is the one that is made for a type in a language. -/
def ListingQuery.IsListing (s : Schema) (d : Descriptor) (l : String) (q : ListingQuery) : Prop :=
  q.typeName = d.typeName ∧ q.language = l
    ∧ ∃ literal, q.definition = .operation (Listing.operation s d l literal)

/-- Whether a document has one operation that goes by the name kept for a language, and asks for entities
in that language as no other operation does. -/
def CompiledDocument.OperatesIn (doc : CompiledDocument) (l : String) : Prop :=
  ∃ name o, doc.operations.get? l = some name
    ∧ (Document.operations doc.document).filter (·.name == some name) = [o]
    ∧ (Document.operations doc.document).filter (·.entitiesLanguage? == some l) = [o]

variable {s : Schema} {d : Descriptor} {l : String} {ls : List String}

/-! ### From listings to documents

A listing is made for a type in a language, spread into, and put into a document with the others. On the way
it remains the operation of its language. -/

theorem ListingQuery.IsListing.isFor {q : ListingQuery} (h : q.IsListing s d l) :
    q.IsFor d.typeName l := by
  obtain ⟨-, hl, literal, hq⟩ := h
  exact ⟨hl, _, hq, rfl⟩

/-- What is made as a listing is one. -/
theorem Listing.query_isListing {filter : ListingFilter} {q : ListingQuery}
    (h : query s filter d l = .ok q) : q.IsListing s d l := by
  obtain ⟨literal, -, h⟩ := bind_ok h
  cases h
  exact ⟨rfl, rfl, literal, rfl⟩

theorem Listing.query_missesNothing {filter : ListingFilter} :
    MissesNothing (query s filter d l) := by
  refine .bind ?_ fun _ _ => missesNothing_ok _
  unfold filterLiteral
  dsimp only
  split
  · exact missesNothing_ok _
  · split
    · nofun
    · split
      · nofun
      · nofun
      · exact missesNothing_ok _

namespace Compilation

/-- **A listing always has a place for the data fragment**, and stays the listing of its language. -/
theorem merge_listing (literal : Option Literal) (fragment : String) :
    ∃ o, merge (.operation (Listing.operation s d l literal)) fragment = .ok (.operation o)
      ∧ o.ListsIn d.typeName l := ⟨_, rfl, rfl, rfl⟩

/-- A listing into which a fragment was spread is an operation that lists the same. -/
theorem merge_isListing {q : ListingQuery} (hq : q.IsListing s d l) (fragment : String) :
    ∃ o, merge q.definition fragment = .ok (.operation o) ∧ o.ListsIn d.typeName l := by
  obtain ⟨-, -, literal, hdef⟩ := hq
  rw [hdef]
  exact merge_listing literal fragment

variable {qs : List ListingQuery} {fragment : String} {identity : Fragment} {data : DataFragment}

/-- All listings of a type become operations, in their order. -/
theorem merged_listings {merged : List Definition}
    (hq : List.Forall₂ (fun l q => q.IsListing s d l) ls qs)
    (h : qs.mapM (fun q => merge q.definition fragment) = .ok merged) :
    ∃ os : List Operation, merged = os.map .operation
      ∧ List.Forall₂ (fun l o => o.ListsIn d.typeName l) ls os := by
  have hm := mapM_ok h
  clear h
  induction hq generalizing merged with
  | nil =>
      cases hm
      exact ⟨[], rfl, .nil⟩
  | cons hl _ ih =>
      cases hm with
      | cons hm hms =>
          obtain ⟨os, rfl, hos⟩ := ih hms
          obtain ⟨o, ho, hlists⟩ := merge_isListing hl fragment
          cases ho.symm.trans hm
          exact ⟨o :: os, rfl, .cons hlists hos⟩

/-- The operations of a document are those that were put into it. -/
theorem operations_document (os : List Operation) (fs : List Fragment) :
    Document.operations (os.map .operation ++ fs.map .fragment) = os := by
  have hos : (os.map Definition.operation).filterMap Definition.operation? = os := by
    rw [List.filterMap_map]
    exact List.filterMap_some
  have hfs : (fs.map Definition.fragment).filterMap Definition.operation? = [] := by
    rw [List.filterMap_map]
    exact List.filterMap_eq_nil_iff.mpr fun _ _ => rfl
  rw [Document.operations, List.filterMap_append, hos, hfs, List.append_nil]

/-- Where no language is given twice, and no name taken twice, each language has its operation. -/
theorem operatesIn_of_lists {typeName : String} {doc : CompiledDocument} (hls : ls.Nodup)
    (hnames : (Document.operationNames doc.document).Nodup)
    (hos : List.Forall₂ (fun l o => Operation.ListsIn o typeName l) ls
      (Document.operations doc.document)) (hl : l ∈ ls)
    (hget : doc.operations.get? l = some (Descriptor.operationName typeName l)) :
    doc.OperatesIn l := by
  have hname : (Document.operations doc.document).map Operation.name
      = (ls.map (Descriptor.operationName typeName)).map some := by
    rw [List.map_map]
    exact map_eq_of_forall₂ (hos.imp fun _ _ h => h.1)
  have hlang : (Document.operations doc.document).map Operation.entitiesLanguage? = ls.map some :=
    map_eq_of_forall₂ (hos.imp fun _ _ h => h.2)
  -- neither names nor languages repeat, so each of them finds the operation
  have hnamed : ((Document.operations doc.document).map Operation.name).Nodup := by
    rw [hname]
    have hall : Document.operationNames doc.document
        = ((Document.operations doc.document).map Operation.name).filterMap id := by
      rw [List.filterMap_map]
      rfl
    rw [hall, hname, List.filterMap_map] at hnames
    exact (List.filterMap_some ▸ hnames).map (Option.some_injective _)
  have hlisted : ((Document.operations doc.document).map Operation.entitiesLanguage?).Nodup := by
    rw [hlang]
    exact hls.map (Option.some_injective _)
  obtain ⟨o, ho, hlists⟩ := exists_of_forall₂ hos hl
  refine ⟨_, o, hget, ?_, ?_⟩
  · rw [← hlists.1]
    exact filter_key hnamed ho
  · rw [← hlists.2]
    exact filter_key hlisted ho

/-- **A document that was found valid has one operation for each language of its type.** -/
theorem compileType_operatesIn {doc : CompiledDocument}
    (hq : List.Forall₂ (fun l q => q.IsListing s d l) d.languages qs)
    (h : compileType (some s) d qs identity data = .ok doc) : ∀ l ∈ d.languages, doc.OperatesIn l := by
  have hfor := compileType_isFor (hq.imp fun _ _ hl => hl.isFor) h
  obtain ⟨merged, hmerged, h⟩ := bind_ok h
  dsimp only at h
  obtain ⟨_, hvalid, h⟩ := bind_ok h
  obtain ⟨operations, -, h⟩ := bind_ok h
  cases h
  obtain ⟨os, rfl, hos⟩ := merged_listings hq hmerged
  intro l hl
  refine operatesIn_of_lists hfor.nodup (operationNames_nodup (validate_ok hvalid)) ?_ hl
    (hfor.operation_eq l hl)
  dsimp only
  rw [operations_document]
  exact hos

/-! ## Putting documents together

What has to be at hand for a document, and that nothing else is looked for. -/

/-- Validation complains about a document, never about a part that is not there. -/
theorem validate_missesNothing (typeName : String) (document : Document) :
    MissesNothing (validate s typeName document) := by
  unfold validate
  split
  · split <;> nofun
  · nofun

theorem operationsOf_missesNothing : MissesNothing (operationsOf qs) := by
  refine .bind (missesNothing_mapM fun q _ => ?_) fun _ _ => missesNothing_ok _
  split <;> rintro _ _ ⟨⟩

/-- With listings of a type, its document is put together without anything missing. -/
theorem compileType_missesNothing
    (hq : List.Forall₂ (fun l q => q.IsListing s d l) d.languages qs) :
    MissesNothing (compileType (some s) d qs identity data) := by
  refine .bind (missesNothing_mapM fun q hqs => ?_) fun merged _ => ?_
  · obtain ⟨l, -, hl⟩ := exists_of_forall₂ hq.flip hqs
    obtain ⟨o, ho, -⟩ := merge_isListing hl data.name
    rw [ho]
    exact missesNothing_ok _
  · dsimp only
    refine .bind (validate_missesNothing _ _) fun _ _ => ?_
    exact .bind operationsOf_missesNothing fun _ _ => missesNothing_ok _

/-- Whether everything is at hand that the document of a type is put together from. -/
structure Parts.Has (p : Parts) (s : Schema) (d : Descriptor) : Prop where
  fragment : p.fragments.contains d.typeName = true
  identity : p.identities.contains d.typeName = true
  listings : ∃ qs, p.listings.get? d.typeName = some qs
    ∧ List.Forall₂ (fun l q => q.IsListing s d l) d.languages qs
  languages : d.languages ≠ []

/-- What a map contains is found in it. -/
theorem require_of_contains {α : Type} {m : Keyed α} {name : String} (h : m.contains name = true)
    (missing : MissingPart) :
    ∃ a, require (m.get? name) name missing = .ok a := by
  obtain ⟨a, ha⟩ := Option.isSome_iff_exists.mp h
  rw [ha]
  exact ⟨a, rfl⟩

/-- With its parts at hand, the document of a type is a matter of its listings only. -/
theorem compileParts_eq {p : Parts} (h : p.Has s d) :
    ∃ qs identity data, List.Forall₂ (fun l q => q.IsListing s d l) d.languages qs
      ∧ compileParts (some s) p d = compileType (some s) d qs identity data := by
  obtain ⟨data, hdata⟩ := require_of_contains h.fragment .fragment
  obtain ⟨identity, hid⟩ := require_of_contains h.identity .identity
  obtain ⟨qs, hqs, hq⟩ := h.listings
  have hne : qs.isEmpty = false := by
    cases qs with
    | nil => exact absurd (List.forall₂_nil_right_iff.mp hq) h.languages
    | cons => rfl
  refine ⟨qs, identity, data, hq, ?_⟩
  rw [compileParts, hdata, hid, hqs, Option.filter_some, hne]
  rfl

end Compilation

/-! ## Plans

The maps of a plan in the order in which they are filled. A type is sourced if its fragment did not fail,
and the maps after the fragments have these types as their keys. -/

namespace Plan

/-- The types of a plan whose fragment did not fail. -/
def sourced (p : Plan) : List Descriptor :=
  p.descriptors.filter fun d => !p.fragments.failures.contains d.typeName

/-- Whether the maps of a plan for some languages fit each other. -/
structure Aligned (p : Plan) (languages : List String) : Prop where
  nodup : (p.descriptors.map Descriptor.typeName).Nodup
  languages_eq : ∀ d ∈ p.descriptors, d.languages = languages
  keys_listings : p.listings.keys = p.descriptors.map Descriptor.typeName
  keys_identities : p.identities.keys = p.descriptors.map Descriptor.typeName
  /-- One listing for each language, in order. -/
  listings : ∀ d ∈ p.descriptors, ∃ qs, p.listings.get? d.typeName = some qs
    ∧ List.Forall₂ (fun l q => q.IsListing p.schema d l) languages qs
  keys_fragments : p.fragments.fragments.keys = p.sourced.map Descriptor.typeName
  keys_documents : p.documents.keys = p.sourced.map Descriptor.typeName
  keys_nodes : p.nodes.keys = p.sourced.map Descriptor.typeName
  operates : ∀ d ∈ p.sourced, ∃ doc, p.documents.get? d.typeName = some doc
    ∧ ∀ l ∈ languages, doc.OperatesIn l
  /-- What is walked through is a document of the plan. -/
  nodes : ∀ e ∈ p.nodes.values, p.documents.get? e.typeName = some e.document

variable {π : Type} {o : Order π} {ds : List Descriptor} {listings : Keyed (List ListingQuery)}
  {found : ResolvedFragments} {p : Plan}

/-! ### The maps of a plan

All maps are made along the same list of types: listings and identities for every type, documents and node
definitions for those that have a fragment. -/

/-- Every type has its listings, one for each of its languages. -/
theorem listingsOf_isListing (hn : (ds.map Descriptor.typeName).Nodup)
    (h : listingsOf o s ds = .ok listings) :
    listings.keys = ds.map Descriptor.typeName
      ∧ ∀ d ∈ ds, ∃ qs, listings.get? d.typeName = some qs
        ∧ List.Forall₂ (fun l q => q.IsListing s d l) d.languages qs := by
  obtain ⟨hkeys, hget⟩ := get?_of_mapM hn h
  refine ⟨hkeys, fun d hd => ?_⟩
  obtain ⟨qs, hqs, hq⟩ := hget d hd
  exact ⟨qs, hqs, (mapM_ok hq).imp fun l q hq => Listing.query_isListing hq⟩

theorem listingsOf_missesNothing : MissesNothing (listingsOf o s ds) := by
  refine .bind (missesNothing_mapM fun d _ => ?_) fun _ _ => missesNothing_ok _
  exact .bind (missesNothing_mapM fun l _ => Listing.query_missesNothing)
    fun _ _ => missesNothing_ok _

/-- The map of the fragments that identify entities. -/
theorem keys_identities (hn : (ds.map Descriptor.typeName).Nodup) :
    (Keyed.ofList (ds.map fun d => (d.typeName, Listing.identityFragment d.typeName))).keys
      = ds.map Descriptor.typeName := by
  have hmap : (ds.map fun d => (d.typeName, Listing.identityFragment d.typeName)).map (·.1)
      = ds.map Descriptor.typeName := by
    rw [List.map_map]
    rfl
  rw [Keyed.keys, Keyed.entries_ofList (hmap ▸ hn), hmap]

/-- What a document is put together from is at hand for the types with a fragment. -/
theorem parts_has (hn : (ds.map Descriptor.typeName).Nodup) (hl : listingsOf o s ds = .ok listings)
    (hlang : ∀ d ∈ ds, d.languages ≠ []) {d : Descriptor} (hd : d ∈ compilable ds found) :
    Compilation.Parts.Has ⟨listings, .ofList (ds.map fun d =>
      (d.typeName, Listing.identityFragment d.typeName)), found.fragments⟩ s d := by
  obtain ⟨hmem, hfound⟩ := List.mem_filter.mp hd
  refine ⟨hfound, ?_, (listingsOf_isListing hn hl).2 d hmem, hlang d hmem⟩
  rw [Keyed.contains_iff_mem_keys, keys_identities hn]
  exact List.mem_map_of_mem hmem

/-- With all listings made and all types settled, a plan is completed or fails for another reason. -/
theorem complete_missesNothing (hn : (ds.map Descriptor.typeName).Nodup)
    (hl : listingsOf o s ds = .ok listings) (hlang : ∀ d ∈ ds, d.languages ≠ []) :
    MissesNothing (complete o s ds listings found) := by
  refine .bind ?_ fun _ _ => missesNothing_ok _
  refine .bind (missesNothing_mapM fun d hd => ?_) fun _ _ => missesNothing_ok _
  obtain ⟨qs, identity, data, hq, heq⟩ := Compilation.compileParts_eq (parts_has hn hl hlang hd)
  rw [heq]
  exact .bind (Compilation.compileType_missesNothing hq) fun _ _ => missesNothing_ok _

/-- Every type with a fragment has a node definition, if it has a document. -/
theorem keys_nodes {before : String} {documents : Keyed CompiledDocument}
    (hn : (ds.map Descriptor.typeName).Nodup)
    (h : ∀ d ∈ ds, ∃ doc, documents.get? d.typeName = some doc) :
    (NodeDefinition.ofDocuments before ds documents).keys = ds.map Descriptor.typeName := by
  have hpairs : (NodeDefinition.pairsOf before ds documents).map (·.1)
      = ds.map Descriptor.typeName := by
    clear hn
    induction ds with
    | nil => rfl
    | cons d ds ih =>
        obtain ⟨doc, hdoc⟩ := h d List.mem_cons_self
        rw [NodeDefinition.pairsOf, List.filterMap_cons_some (by rw [hdoc]; rfl), List.map_cons,
          List.map_cons]
        exact congrArg (d.typeName :: ·) (ih fun e he => h e (List.mem_cons_of_mem d he))
  rw [Keyed.keys, NodeDefinition.ofDocuments]
  exact (congrArg (List.map (·.1)) (Keyed.entries_ofList (hpairs ▸ hn))).trans hpairs

/-- The node definitions come in the order of their types. -/
theorem descriptors_nodes {before : String} {documents : Keyed CompiledDocument}
    (hn : (ds.map Descriptor.typeName).Nodup)
    (h : ∀ d ∈ ds, ∃ doc, documents.get? d.typeName = some doc) :
    (NodeDefinition.ofDocuments before ds documents).values.map (·.descriptor) = ds := by
  rw [NodeDefinition.values_ofDocuments hn, List.map_map]
  clear hn
  induction ds with
  | nil => rfl
  | cons d ds ih =>
      obtain ⟨doc, hdoc⟩ := h d List.mem_cons_self
      rw [NodeDefinition.pairsOf, List.filterMap_cons_some (by rw [hdoc]; rfl), List.map_cons]
      exact congrArg (d :: ·) (ih fun e he => h e (List.mem_cons_of_mem d he))

/-- Where every type was settled, the types with a fragment are those whose fragment did not fail. -/
theorem compilable_eq (hsettled : ∀ t ∈ ds.map Descriptor.typeName, found.Settles t) :
    compilable ds found = ds.filter fun d => !found.failures.contains d.typeName :=
  List.filter_congr fun _ hd => hsettled _ (List.mem_map_of_mem hd)

/-! ### Completed plans -/

/-- **A plan that is completed is aligned.** -/
theorem Completed.aligned (h : p.Completed o) : p.Aligned o.config.languages := by
  obtain ⟨s, found, cache, cache', hfound, listings, hl, hc⟩ := h
  have hlang : ∀ d ∈ entityTypes s o.config.languages, d.languages = o.config.languages :=
    fun d hd => languages_of_mem_entityTypes hd
  have hn : ((entityTypes s o.config.languages).map Descriptor.typeName).Nodup :=
    distinctTypes_nodup _
  -- from here on only the types' distinct names and their languages matter
  generalize entityTypes s o.config.languages = ds at hfound hl hc hlang hn
  -- the types to compile are the ones that have a fragment
  have hcomp := compilable_eq (FragmentRequest.settles_resolveAll hn (fun _ _ => ⟨rfl, rfl⟩) hfound)
  have hkeys : found.fragments.keys = (compilable ds found).map Descriptor.typeName := by
    rw [FragmentRequest.keys_resolveAll hn (fun _ _ => rfl) hfound, List.filter_map]
    rfl
  obtain ⟨hlkeys, hlistings⟩ := listingsOf_isListing hn hl
  obtain ⟨documents, hdocs, hc⟩ := bind_ok hc
  cases hc
  have hsub : (compilable ds found).Sublist ds := List.filter_sublist
  have hn' := hn.sublist (hsub.map Descriptor.typeName)
  obtain ⟨hdkeys, hdoc⟩ := get?_of_mapM hn' hdocs
  have hget (d : Descriptor) (hd : d ∈ compilable ds found) :
      ∃ doc, documents.get? d.typeName = some doc := (hdoc d hd).imp fun _ h => h.1
  refine ⟨hn, hlang, hlkeys, keys_identities hn, fun d hd => ?_, ?_, ?_, ?_, fun d hd => ?_,
    fun e he => ?_⟩
  · rw [← hlang d hd]
    exact hlistings d hd
  · rw [sourced, ← hcomp]
    exact hkeys
  · rw [sourced, ← hcomp]
    exact hdkeys
  · rw [sourced, ← hcomp]
    exact keys_nodes hn' hget
  · rw [sourced, ← hcomp] at hd
    obtain ⟨doc, hgetd, hparts⟩ := hdoc d hd
    refine ⟨doc, hgetd, fun l hlmem => ?_⟩
    have hne : ∀ e ∈ ds, e.languages ≠ [] := by
      intro e he
      rw [hlang e he]
      exact List.ne_nil_of_mem hlmem
    obtain ⟨qs, identity, data, hq, heq⟩ := Compilation.compileParts_eq (parts_has hn hl hne hd)
    refine Compilation.compileType_operatesIn hq (heq ▸ hparts) l ?_
    rw [hlang d (hsub.subset hd)]
    exact hlmem
  · obtain ⟨d, hd, doc, hgetd, rfl⟩ := (NodeDefinition.mem_ofDocuments hn').mp he
    exact hgetd

/-- The node definitions of a plan are those of its types with a fragment, in their order. -/
theorem Completed.descriptors_eq (h : p.Completed o) :
    p.nodes.values.map (·.descriptor) = p.sourced := by
  obtain ⟨s, found, cache, cache', hfound, listings, -, hc⟩ := h
  have hn : ((entityTypes s o.config.languages).map Descriptor.typeName).Nodup :=
    distinctTypes_nodup _
  have hcomp := compilable_eq (FragmentRequest.settles_resolveAll hn (fun _ _ => ⟨rfl, rfl⟩) hfound)
  have hsub : (compilable (entityTypes s o.config.languages) found).Sublist
      (entityTypes s o.config.languages) := List.filter_sublist
  have hn' := hn.sublist (hsub.map Descriptor.typeName)
  obtain ⟨documents, hdocs, hc⟩ := bind_ok hc
  cases hc
  obtain ⟨-, hdoc⟩ := get?_of_mapM hn' hdocs
  rw [sourced, ← hcomp]
  exact descriptors_nodes hn' fun d hd => (hdoc d hd).imp fun _ h => h.1

end Plan

/-! ## Fragments

The search for fragments may fail, but it fails for a reason of its own. -/

/-- A text that is no fragment is a complaint about the text. -/
theorem DataFragment.parse_missesNothing (typeName text : String) (source : FragmentSource) :
    MissesNothing (parse typeName text source) := by
  unfold parse ofDocument
  split
  · split
    · nofun
    · split
      · nofun
      · exact missesNothing_ok _
  · nofun

theorem FragmentRequest.provide_missesNothing (r : FragmentRequest) (typeName : String)
    (c : FragmentCache) : MissesNothing (r.provide typeName c).1 := by
  unfold provide
  split
  · exact DataFragment.parse_missesNothing _ _ _
  · split
    next e hread =>
      unfold FragmentCache.read at hread
      split at hread
      · cases hread
      · cases hread
        rintro _ _ ⟨⟩
    · exact DataFragment.parse_missesNothing _ _ _
    · split
      next e hgen =>
        unfold generate at hgen
        split at hgen
        · exact (DataFragment.parse_missesNothing _ _ _).of_error hgen
        · cases hgen
          rintro _ _ ⟨⟩
      next f _ =>
        dsimp only
        unfold FragmentCache.write
        split
        · exact missesNothing_ok _
        · rintro _ _ ⟨⟩

/-- The search through all types misses nothing if the search for one does not. -/
theorem FragmentRequest.resolveAll_missesNothing (r : FragmentRequest) (ts : List String)
    (found : ResolvedFragments) (c : FragmentCache) :
    MissesNothing (r.resolveAll ts found c).1 := by
  induction ts generalizing found c with
  | nil => exact missesNothing_ok _
  | cons t ts ih =>
      rw [resolveAll]
      have hp := r.provide_missesNothing t c
      split
      · exact ih _ _
      · exact ih _ _
      next e c' _ h =>
        rw [h] at hp
        exact hp.of_error rfl

namespace Plan

variable {π σ : Type} {o : Order π} {site : Site σ} {st : σ}

theorem preflight_missesNothing : MissesNothing o.preflight := by
  refine .bind ?_ fun _ _ => ?_
  · unfold Config.check
    split
    · nofun
    · exact missesNothing_ok _
  · unfold PagingProfile.check
    dsimp only
    split
    · nofun
    · split
      · exact missesNothing_ok _
      · split <;> nofun

/-- A run that begins has a language. -/
theorem languages_of_preflight (h : o.preflight = .ok ()) : o.config.languages ≠ [] := by
  obtain ⟨_, hc, -⟩ := bind_ok h
  unfold Config.check at hc
  split at hc
  · cases hc
  next hproblem => exact ((Config.problem?_eq_none_iff _).mp hproblem).2.1

theorem schemaOfAnswer_missesNothing (a : Answer) : MissesNothing (schemaOfAnswer a) := by
  unfold schemaOfAnswer remoteSchema
  split
  · split
    · nofun
    · split
      · nofun
      · split
        · exact missesNothing_ok _
        · nofun
  · nofun
  · nofun

theorem ofSchema_missesNothing {s : Schema} (hlang : o.config.languages ≠ []) :
    MissesNothing (ofSchema site o s st).1 := by
  have hne : ∀ d ∈ entityTypes s o.config.languages, d.languages ≠ [] := by
    intro d hd
    rw [languages_of_mem_entityTypes hd]
    exact hlang
  cases hl : listingsOf o s (entityTypes s o.config.languages) with
  | error e =>
      rw [ofSchema_unlisted hl]
      exact listingsOf_missesNothing.of_error hl
  | ok listings =>
      cases hf : (fragmentsOf site o s st).1 with
      | error e =>
          rw [ofSchema_unresolved hl hf]
          exact (FragmentRequest.resolveAll_missesNothing _ _ _ _).of_error hf
      | ok found =>
          cases hc : complete o s (entityTypes s o.config.languages) listings found with
          | error e =>
              rw [ofSchema_uncompiled hl hf hc]
              exact (complete_missesNothing (distinctTypes_nodup _) hl hne).of_error hc
          | ok p =>
              rw [ofSchema_dumped hl hf hc rfl]
              generalize (dump o.config p _).1 = written
              cases written with
              | error f => nofun
              | ok _ => exact missesNothing_ok _

/-- **No plan fails for want of a part, and every plan is aligned**, whatever it is made from. -/
theorem prepare_aligned (site : Site σ) (o : Order π) (st : σ) :
    MissesNothing (prepare site o st).1
      ∧ ∀ p, (prepare site o st).1 = .ok p → p.Aligned o.config.languages := by
  refine ⟨?_, fun p hp => (prepare_completed hp).aligned⟩
  cases hp : o.preflight with
  | error e =>
      rw [prepare_refused hp]
      exact preflight_missesNothing.of_error hp
  | ok _ =>
      cases hs : (loadSchema site.ask st).1 with
      | error e =>
          rw [prepare_unknown hp hs]
          exact (schemaOfAnswer_missesNothing _).of_error hs
      | ok s =>
          rw [prepare_known hp hs]
          exact ofSchema_missesNothing (languages_of_preflight hp)

end Plan

namespace Sample

/-- The plan for the small remote is aligned, with both of its languages. -/
theorem plan_aligned : plan.Aligned ["EN", "DE"] :=
  (Plan.prepare_aligned (answering fun _ => .data description) order ()).2 plan prepare_eq

end Sample

end Harvest
