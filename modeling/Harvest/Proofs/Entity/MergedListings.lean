import Harvest.Proofs.Plan.Documents

/-!
# Merged listings

A data fragment comes into a listing as one more spread among what is selected of its entities, and the listing
stays as it was in every other part. An operation of any form can stand for a listing as long as it has a place
for the spread: its first selection is a field, and the first entities below that have a selection set.
`EntitiesFrame` is an operation without this selection set, so what surrounds it is the same before and after.

`Compilation.compile_exact` is about merging, and about the documents that are put together without a schema.

That an operation has a place for a spread is a condition on its form, and every operation that meets it can
be written as a frame and what is selected inside (`exists_fill_iff`). On frames both edits, adding a spread
and taking it out again, are computations (`editEntities_fill`, `merge_fill`). The rest is bookkeeping: the
listings of a type one by one, the fragments behind them, and the types one after the other.

An operation may lack a name. It is merged like any other, but a document keeps the names of its operations,
and there is none to keep; `Parts.Make` has both outcomes.
-/

namespace Harvest

open GraphQL

/-! ## Operations around the entities

The frame, and how an operation is taken apart into a frame and its inside. -/

/-- Whether a selection is a field of entities, under its own name or another. -/
def GraphQL.Selection.isEntities : Selection → Bool
  | .field _ name _ _ _ => name == entitiesField
  | _ => false

/-- Whether the first selection of an operation is a field with entities below it. -/
def GraphQL.Operation.SelectsEntities (o : Operation) : Prop :=
  ∃ label name args ds ss rest, o.selections = .field label name args ds ss :: rest
    ∧ ∃ s ∈ ss, s.isEntities = true

/-- All of an operation but what is selected of the first entities below its first field. -/
structure EntitiesFrame where
  /-- The operation with the selections that follow its first field. -/
  operation : Operation
  rootLabel : Option String
  rootName : String
  rootArguments : List Argument
  rootDirectives : List Directive
  before : List Selection
  label : Option String
  arguments : List Argument
  directives : List Directive
  after : List Selection
  first : ∀ s ∈ before, s.isEntities = false

namespace EntitiesFrame

/-- The selections below the first field. -/
def below (c : EntitiesFrame) (inner : List Selection) : List Selection :=
  c.before ++ .field c.label entitiesField c.arguments c.directives inner :: c.after

/-- The operation in which something is selected of the entities. -/
def fill (c : EntitiesFrame) (inner : List Selection) : Operation :=
  { c.operation with
    selections := .field c.rootLabel c.rootName c.rootArguments c.rootDirectives (c.below inner)
      :: c.operation.selections }

variable {c : EntitiesFrame} {inner : List Selection}

theorem below_ne_nil : c.below inner ≠ [] := by simp [below]

/-- Every operation with entities below its first field is a frame and what is selected of the first of them. -/
theorem exists_fill_iff {o : Operation} :
    (∃ (c : EntitiesFrame) (inner : List Selection), o = c.fill inner) ↔ o.SelectsEntities := by
  constructor
  · rintro ⟨c, inner, rfl⟩
    exact ⟨_, _, _, _, _, _, rfl, .field c.label entitiesField c.arguments c.directives inner, by simp [below],
      beq_self_eq_true _⟩
  · rintro ⟨label, name, args, ds, ss, rest, ho, hentities⟩
    -- the entities are the first of the selections that are any
    obtain ⟨s, hfound⟩ := Option.isSome_iff_exists.mp (List.find?_isSome.mpr hentities)
    obtain ⟨hs, before, after, rfl, hbefore⟩ := List.find?_eq_some_iff_append.mp hfound
    cases s with
    | spread _ _ => cases hs
    | inline _ _ _ => cases hs
    | field entitiesLabel field entitiesArgs entitiesDs inner =>
        cases eq_of_beq hs
        refine ⟨⟨{ o with selections := rest }, label, name, args, ds, before, entitiesLabel, entitiesArgs,
          entitiesDs, after, ?_⟩, inner, ?_⟩
        · intro s hs
          simpa using hbefore s hs
        · cases o
          cases ho
          rfl

end EntitiesFrame

/-- Changes what is selected of the first entities among selections. -/
def GraphQL.Selection.editEntities (f : List Selection → List Selection) : List Selection → List Selection
  | [] => []
  | .field label name args ds inner :: rest =>
    if name = entitiesField then .field label name args ds (f inner) :: rest
    else .field label name args ds inner :: editEntities f rest
  | s :: rest => s :: editEntities f rest

/-- Changes what is selected of the first entities below the first field of an operation. -/
def GraphQL.Operation.editEntities (f : List Selection → List Selection) (o : Operation) : Operation :=
  match o.selections with
  | .field label name args ds inner :: rest =>
    { o with selections := .field label name args ds (Selection.editEntities f inner) :: rest }
  | _ => o

/-! ## Merging

The spread is added at the first entities below the first field, and what stands before them is passed over. -/

section Search

variable {s : Selection} {rest : List Selection}

theorem GraphQL.Selection.name_ne_entities {label : Option String} {name : String} {args : List Argument} {ds : List Directive}
    {inner : List Selection} (h : (Selection.field label name args ds inner).isEntities = false) :
    name ≠ entitiesField := by
  simpa [Selection.isEntities] using h

/-- An edit passes over what is no entities. -/
theorem GraphQL.Selection.editEntities_cons (f : List Selection → List Selection) (hs : s.isEntities = false) :
    editEntities f (s :: rest) = s :: editEntities f rest := by
  cases s with
  | field _ _ _ _ _ => rw [editEntities, if_neg (GraphQL.Selection.name_ne_entities hs)]
  | spread _ _ => rfl
  | inline _ _ _ => rfl

/-- So does the search for a place for a spread. -/
theorem Compilation.addToEntities_cons (fragment : String) (hs : s.isEntities = false) :
    addToEntities fragment (s :: rest) = (addToEntities fragment rest).map (·.map (s :: ·)) := by
  cases s with
  | field _ _ _ _ _ => rw [addToEntities, if_neg (GraphQL.Selection.name_ne_entities hs)]
  | spread _ _ => rfl
  | inline _ _ _ => rfl

end Search

namespace EntitiesFrame

variable {c : EntitiesFrame} {inner : List Selection}

/-! ### Frames

An operation with entities is a frame around what is selected of the first of them. An edit goes into the
frame and leaves it as it is, and so does the search for a place for a spread. -/

theorem editEntities_below (f : List Selection → List Selection) :
    Selection.editEntities f (c.below inner) = c.below (f inner) := by
  obtain ⟨_, _, _, _, _, before, label, arguments, directives, after, hfirst⟩ := c
  show Selection.editEntities f (before ++ _ :: after) = before ++ _ :: after
  induction before with
  | nil => simp [Selection.editEntities]
  | cons s before ih =>
      obtain ⟨hs, hbefore⟩ := List.forall_mem_cons.mp hfirst
      rw [List.cons_append, Selection.editEntities_cons f hs, ih hbefore, List.cons_append]

theorem editEntities_fill (f : List Selection → List Selection) :
    (c.fill inner).editEntities f = c.fill (f inner) := by
  simp only [fill, Operation.editEntities, editEntities_below]

end EntitiesFrame

namespace Compilation

variable {c : EntitiesFrame} {inner : List Selection}

theorem addToEntities_below (fragment : String) (hinner : inner ≠ []) :
    addToEntities fragment (c.below inner) = .ok (some (c.below (inner ++ [spread fragment]))) := by
  obtain ⟨_, _, _, _, _, before, label, arguments, directives, after, hfirst⟩ := c
  show addToEntities fragment (before ++ _ :: after) = .ok (some (before ++ _ :: after))
  induction before with
  | nil => simp [addToEntities, hinner]
  | cons s before ih =>
      obtain ⟨hs, hbefore⟩ := List.forall_mem_cons.mp hfirst
      rw [List.cons_append, addToEntities_cons fragment hs, ih hbefore]
      rfl

/-- **Merging adds one spread** to what is selected of the entities. -/
theorem merge_fill (c : EntitiesFrame) (fragment : String) (hinner : inner ≠ []) :
    merge (.operation (c.fill inner)) fragment = .ok (.operation (c.fill (inner ++ [spread fragment]))) := by
  have hadd := addToEntities_below (c := c) fragment hinner
  simp [merge, EntitiesFrame.fill, Definition.selections?, addBelowRoot, EntitiesFrame.below_ne_nil, hadd,
    Except.map, withSelections]

end Compilation

/-! ## The documents of types

With a supply of listings and fragments for each type, the documents are known part by part. -/

/-- Whether the operation of a listing has a place for a data fragment. -/
def ListingQuery.HasPlace (q : ListingQuery) : Prop :=
  ∃ c : EntitiesFrame, ∃ inner, inner ≠ [] ∧ q.definition = .operation (c.fill inner)

/-- Whether an operation is that of a listing with one more spread of its entities. -/
def ListingQuery.MergesInto (q : ListingQuery) (fragment : String) (o : Operation) : Prop :=
  ∃ c : EntitiesFrame, ∃ inner, inner ≠ [] ∧ q.definition = .operation (c.fill inner)
    ∧ o = c.fill (inner ++ [Compilation.spread fragment])

/-- What the document of a type is put together from. -/
structure Compilation.Parts.Supply (p : Parts) (d : Descriptor) (qs : List ListingQuery) (identity : Fragment)
    (data : DataFragment) : Prop where
  listings : p.listings.get? d.typeName = some qs
  identity : p.identities.get? d.typeName = some identity
  data : p.fragments.get? d.typeName = some data
  nonempty : qs ≠ []
  languages : (qs.map (·.language)).Nodup
  places : ∀ q ∈ qs, q.HasPlace

/-- Whether a document is put together from listings, the fragment that identifies entities and the data
fragment. -/
structure CompiledDocument.Assembles (doc : CompiledDocument) (d : Descriptor) (qs : List ListingQuery)
    (identity : Fragment) (data : DataFragment) : Prop where
  typeName : doc.typeName = d.typeName
  queryField : doc.queryField = d.queryField
  document : ∃ os, doc.document = os.map .operation ++ .fragment identity :: data.definitions.map .fragment
    ∧ List.Forall₂ (fun q o => q.MergesInto data.name o) qs os
  operations : doc.operations.entries.map (fun e => (e.1, some e.2)) = qs.map fun q => (q.language, q.operationName?)
  text : doc.text = Document.print doc.document

namespace Compilation

variable {p : Parts} {d : Descriptor} {ds : List Descriptor} {qs : List ListingQuery} {identity : Fragment}
  {data : DataFragment}

theorem merge_listings (fragment : String) (h : ∀ q ∈ qs, q.HasPlace) :
    ∃ os : List Operation, qs.mapM (fun q => merge q.definition fragment) = .ok (os.map .operation)
      ∧ List.Forall₂ (fun q o => q.MergesInto fragment o) qs os := by
  induction qs with
  | nil => exact ⟨[], rfl, .nil⟩
  | cons q qs ih =>
      obtain ⟨⟨c, inner, hinner, hq⟩, hqs⟩ := List.forall_mem_cons.mp h
      obtain ⟨os, hos, hmerged⟩ := ih hqs
      refine ⟨c.fill (inner ++ [spread fragment]) :: os, ?_, .cons ⟨c, inner, hinner, hq, rfl⟩ hmerged⟩
      rw [List.mapM_cons, hq, merge_fill c fragment hinner, hos]
      rfl

theorem operationsOf_ok {m : Keyed String} (hn : (qs.map (·.language)).Nodup) (h : operationsOf qs = .ok m) :
    (∀ q ∈ qs, q.operationName? ≠ none)
      ∧ m.entries.map (fun e => (e.1, some e.2)) = qs.map fun q => (q.language, q.operationName?) := by
  obtain ⟨pairs, hpairs, hm⟩ := bind_ok h
  cases hm
  have heach : List.Forall₂ (fun q e => (e.1, some e.2) = (q.language, q.operationName?)) qs pairs := by
    apply (mapM_ok hpairs).imp
    intro q e he
    split at he
    next name hname =>
      cases he
      rw [hname]
    next => cases he
  have hentries := map_eq_of_forall₂ heach
  have hkeys : pairs.map (·.1) = qs.map (·.language) :=
    map_eq_of_forall₂ (heach.imp fun q e he => congrArg Prod.fst he)
  refine ⟨?_, ?_⟩
  · intro q hq hname
    obtain ⟨e, -, he⟩ := exists_of_forall₂ heach hq
    rw [hname] at he
    exact Option.some_ne_none _ (congrArg Prod.snd he)
  · rw [Keyed.entries_ofList (hkeys ▸ hn)]
    exact hentries

theorem operationsOf_error {e : Failure} (h : operationsOf qs = .error e) :
    (∃ q ∈ qs, q.operationName? = none) ∧ e = .fault .part := by
  rcases bind_error h with h | ⟨pairs, -, h⟩
  · obtain ⟨before, q, after, rfl, -, he⟩ := mapM_error h
    split at he
    next => cases he
    next hname =>
      cases he
      exact ⟨⟨q, List.mem_append_right before List.mem_cons_self, hname⟩, rfl⟩
  · cases h

/-- Whether every listing of a type has a name to run it by. -/
def Parts.Names (p : Parts) (d : Descriptor) : Prop :=
  ∀ qs, p.listings.get? d.typeName = some qs → ∀ q ∈ qs, q.operationName? ≠ none

/-- Whether a document is what the parts of a type make. -/
def Parts.Make (p : Parts) (d : Descriptor) (doc : CompiledDocument) : Prop :=
  ∃ qs identity data, p.Supply d qs identity data ∧ doc.Assembles d qs identity data

/-! ### Outcomes of a compilation -/

/-- With its parts at hand, the document of a type is put together if its operations have names. -/
theorem compileParts_outcome (h : p.Supply d qs identity data) :
    (p.Names d ∧ ∃ doc, compileParts none p d = .ok doc ∧ p.Make d doc)
      ∨ (¬ p.Names d ∧ compileParts none p d = .error (.fault .part)) := by
  have hne : qs.isEmpty = false := by simpa using h.nonempty
  have hparts : compileParts none p d = compileType none d qs identity data := by
    rw [compileParts, h.data, h.identity, h.listings, Option.filter_some, hne]
    rfl
  obtain ⟨os, hos, hmerged⟩ := merge_listings data.name h.places
  rw [hparts]
  unfold compileType
  rw [hos]
  cases hnames : operationsOf qs with
  | ok m =>
      left
      obtain ⟨hname, hentries⟩ := operationsOf_ok h.languages hnames
      refine ⟨?_, _, rfl, qs, identity, data, h, rfl, rfl, ⟨os, rfl, hmerged⟩, hentries, rfl⟩
      intro qs' hqs'
      cases h.listings.symm.trans hqs'
      exact hname
  | error e =>
      right
      obtain ⟨⟨q, hq, hname⟩, rfl⟩ := operationsOf_error hnames
      exact ⟨fun hall => hall qs h.listings q hq hname, rfl⟩

/-- The documents of different types are put together one after the other, unless an operation has no name. -/
theorem compile_outcome (hn : (ds.map Descriptor.typeName).Nodup)
    (h : ∀ d ∈ ds, ∃ qs identity data, p.Supply d qs identity data) :
    ((∀ d ∈ ds, p.Names d) ∧ ∃ docs, compile none p ds = .ok docs
        ∧ List.Forall₂ (fun d e => e.1 = d.typeName ∧ p.Make d e.2) ds docs.entries)
      ∨ ((∃ d ∈ ds, ¬ p.Names d) ∧ compile none p ds = .error (.fault .part)) := by
  -- each type settles on its own, and the compilation stops at the first that has no document
  have houtcome : ∀ d ∈ ds, (p.Names d ∧ ∃ doc, compileParts none p d = .ok doc ∧ p.Make d doc)
      ∨ (¬ p.Names d ∧ compileParts none p d = .error (.fault .part)) := by
    intro d hd
    obtain ⟨qs, identity, data, hsupply⟩ := h d hd
    exact compileParts_outcome hsupply
  cases hc : compile none p ds with
  | ok docs =>
      left
      obtain ⟨pairs, hpairs, hdocs⟩ := bind_ok hc
      cases hdocs
      have heach : List.Forall₂ (fun d e => e.1 = d.typeName ∧ p.Names d ∧ p.Make d e.2) ds pairs := by
        apply ((List.forall₂_and_left ds pairs).mpr ⟨houtcome, mapM_ok hpairs⟩).imp
        rintro d e ⟨hd, he⟩
        obtain ⟨doc, hdoc, he⟩ := bind_ok he
        cases he
        rcases hd with ⟨hnames, doc', hdoc', hmake⟩ | ⟨-, herror⟩
        · cases hdoc.symm.trans hdoc'
          exact ⟨rfl, hnames, hmake⟩
        · cases hdoc.symm.trans herror
      have hkeys : pairs.map (·.1) = ds.map Descriptor.typeName :=
        map_eq_of_forall₂ (heach.imp fun d e he => he.1)
      refine ⟨?_, .ofList pairs, rfl, ?_⟩
      · intro d hd
        obtain ⟨e, -, -, hnames, -⟩ := exists_of_forall₂ heach hd
        exact hnames
      · rw [Keyed.entries_ofList (hkeys ▸ hn)]
        exact heach.imp fun d e he => ⟨he.1, he.2.2⟩
  | error e =>
      right
      rcases bind_error hc with herror | ⟨pairs, -, herror⟩
      · -- the first type without a document is one with a nameless operation
        obtain ⟨before, d, after, rfl, -, herror⟩ := mapM_error herror
        have hd : d ∈ before ++ d :: after := List.mem_append_right before List.mem_cons_self
        rcases houtcome d hd with ⟨-, doc, hdoc, -⟩ | ⟨hnames, hfault⟩
        · rw [hdoc] at herror
          cases herror
        · rw [hfault] at herror
          cases herror
          exact ⟨⟨d, hd, hnames⟩, rfl⟩
      · cases herror

/-- **Merging adds one spread and changes nothing else**: with it taken out again, an operation is what it was,
whatever surrounds its entities. If all operations have names to go by, the document of each type holds the merged
listings in their order, then the fragment that identifies entities and then those of the data fragment; each
language has the operation of its own listing. If one has none, no document is made (`Sample.nameless_listing`). -/
theorem compile_exact :
    (∀ o : Operation, o.SelectsEntities → ∃ (c : EntitiesFrame) (inner : List Selection), o = c.fill inner)
    ∧ (∀ (c : EntitiesFrame) (inner : List Selection) (fragment : String), inner ≠ [] →
      merge (.operation (c.fill inner)) fragment = .ok (.operation (c.fill (inner ++ [spread fragment])))
        ∧ (c.fill (inner ++ [spread fragment])).editEntities List.dropLast = c.fill inner)
    ∧ ∀ (p : Parts) (ds : List Descriptor), (ds.map Descriptor.typeName).Nodup →
      (∀ d ∈ ds, ∃ qs identity data, p.Supply d qs identity data) →
      ((∀ d ∈ ds, p.Names d) → ∃ docs, compile none p ds = .ok docs
          ∧ List.Forall₂ (fun d e => e.1 = d.typeName ∧ p.Make d e.2) ds docs.entries)
        ∧ ((∃ d ∈ ds, ¬ p.Names d) → compile none p ds = .error (.fault .part)) := by
  refine ⟨fun o ho => EntitiesFrame.exists_fill_iff.mpr ho, ?_, ?_⟩
  · intro c inner fragment hinner
    refine ⟨merge_fill c fragment hinner, ?_⟩
    rw [EntitiesFrame.editEntities_fill, List.dropLast_concat]
  · intro p ds hn h
    rcases compile_outcome hn h with ⟨hnames, hdocs⟩ | ⟨⟨d, hd, hnameless⟩, hfault⟩
    · exact ⟨fun _ => hdocs, fun ⟨d, hd, hnameless⟩ => absurd (hnames d hd) hnameless⟩
    · exact ⟨fun hnames => absurd (hnames d hd) hnameless, fun _ => hfault⟩

end Compilation

/-! ## A listing with more than its entities

The operation has entities twice, and others around them, so that it matters which of them get the spread. -/

namespace Sample

/-- An operation with other selections around its entities, which come twice and under other names. -/
def crowdedFrame (name : Option String) (language : String) : EntitiesFrame where
  operation :=
    { description := none, kind := .query, name, variableDefinitions := [], directives := [],
      selections := [.plain "info" []] }
  rootLabel := some "page"
  rootName := "articleQuery"
  rootArguments := [⟨"limit", .int "5"⟩]
  rootDirectives := []
  before := [.plain "count" [], .spread "Totals" []]
  label := some "items"
  arguments := [⟨"language", .enum language⟩]
  directives := []
  after := [.field (some "again") entitiesField [] [] [.plain "entityId" []]]
  first := by decide

def crowdedInner : List Selection := [.spread "_ArticleId_" []]

def crowdedListing (name : Option String) (language : String) : ListingQuery :=
  { typeName := "Article", language, definition := .operation ((crowdedFrame name language).fill crowdedInner),
    variableNames := ["limit"] }

def crowdedDescriptor : Descriptor :=
  { typeName := "Article", queryField := "articleQuery", languages := ["EN", "DE"], expanded := false,
    abstractType := none }

def crowdedData : DataFragment :=
  { typeName := "Article", name := "Body",
    definitions := ["Body", "Teaser"].map fun name => ⟨none, name, "Article", [], [.plain "title" []]⟩,
    text := "", source := .custom }

/-- The listings in two languages. -/
def crowdedListings (english german : Option String) : List ListingQuery :=
  [crowdedListing english "EN", crowdedListing german "DE"]

def crowdedParts (english german : Option String) : Compilation.Parts :=
  { listings := .ofList [("Article", crowdedListings english german)]
    identities := .ofList [("Article", Listing.identityFragment "Article")]
    fragments := .ofList [("Article", crowdedData)] }

theorem supply_crowded (english german : Option String) :
    (crowdedParts english german).Supply crowdedDescriptor (crowdedListings english german)
      (Listing.identityFragment "Article") crowdedData := by
  have hlanguages : ["EN", "DE"].Nodup := by decide
  refine ⟨rfl, rfl, rfl, List.cons_ne_nil _ _, hlanguages, ?_⟩
  intro q hq
  have hplace (name : Option String) (l : String) : (crowdedListing name l).HasPlace :=
    ⟨crowdedFrame name l, crowdedInner, List.cons_ne_nil _ _, rfl⟩
  rcases List.mem_pair.mp hq with rfl | rfl
  · exact hplace english "EN"
  · exact hplace german "DE"

/-- A spread goes among what is selected of the first entities only, and the document has its listings, the
fragment that identifies entities and both fragments of the data fragment. -/
theorem crowded_listing_merged :
    crowdedInner ≠ []
      ∧ Compilation.merge (crowdedListing (some "English") "EN").definition "Body"
          = .ok (.operation
            ((crowdedFrame (some "English") "EN").fill [.spread "_ArticleId_" [], .spread "Body" []]))
      ∧ ([crowdedDescriptor].map Descriptor.typeName).Nodup
      ∧ (crowdedParts (some "English") (some "German")).Names crowdedDescriptor
      ∧ ∃ doc, Compilation.compile none (crowdedParts (some "English") (some "German")) [crowdedDescriptor]
            = .ok ⟨[("Article", doc)]⟩
          ∧ doc.document.map Definition.name?
              = [some "English", some "German", some "_ArticleId_", some "Body", some "Teaser"]
          ∧ doc.operations.entries = [("EN", "English"), ("DE", "German")] := by
  have hn : ([crowdedDescriptor].map Descriptor.typeName).Nodup := by decide
  have hsupply := supply_crowded (some "English") (some "German")
  have hnames : (crowdedParts (some "English") (some "German")).Names crowdedDescriptor := by
    intro qs hqs q hq
    cases hsupply.listings.symm.trans hqs
    rcases List.mem_pair.mp hq with rfl | rfl <;> exact Option.some_ne_none _
  obtain ⟨-, hmerge, hcompile⟩ := Compilation.compile_exact
  refine ⟨List.cons_ne_nil _ _,
    (hmerge (crowdedFrame (some "English") "EN") crowdedInner "Body" (List.cons_ne_nil _ _)).1, hn, hnames, ?_⟩
  obtain ⟨docs, hdocs, -⟩ := (hcompile _ [crowdedDescriptor] hn
    (List.forall_mem_singleton.mpr ⟨_, _, _, hsupply⟩)).1 (List.forall_mem_singleton.mpr hnames)
  cases hdocs
  exact ⟨_, rfl, rfl, rfl⟩

/-- **A listing without a name is merged like any other, but no document comes of it**, as there is no name to
run it by. -/
theorem nameless_listing :
    ([crowdedDescriptor].map Descriptor.typeName).Nodup
      ∧ (∃ qs identity data, (crowdedParts none (some "German")).Supply crowdedDescriptor qs identity data)
      ∧ Compilation.compile none (crowdedParts none (some "German")) [crowdedDescriptor]
        = .error (.fault .part) :=
  ⟨by decide, ⟨_, _, _, supply_crowded none (some "German")⟩, rfl⟩

end Sample

end Harvest
