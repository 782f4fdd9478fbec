import Harvest.Proofs.Entity.EntityTypes
import Harvest.Proofs.Plan.Documents
import Harvest.Sourcing.Plan

/-!
# Plans

`Plan.Coherent` says what a run relies on in a plan: every node definition belongs to a different type,
fits its document, and there is one for every type that has a document. Every plan that `Plan.prepare`
makes is coherent, whatever the remote, the configuration and the state of the disk.

A plan is made in steps, each of which can fail: the order is checked, the schema is loaded, the listings
are made, the fragments are looked for, the documents are put together, and then they may be written to a
disk. There is one equation for each way in which this ends (`Plan.ofSchema_ok` and those before it), so
that later proofs need not look into `Plan.prepare`. `Plan.Completed` is what all plans have in common that
came through: they were put together from the listings and the fragments of the entity types of one schema.

From that, coherence is a matter of the map of node definitions, which is filled for types with different
names.
-/

namespace Harvest

open GraphQL

/-- Whether the node definitions of a plan fit its types and documents. -/
structure Plan.Coherent (p : Plan) : Prop where
  nodup : (p.nodes.values.map NodeDefinition.typeName).Nodup
  descriptor_mem : ∀ d ∈ p.nodes.values, d.descriptor ∈ p.descriptors
  isFor : ∀ d ∈ p.nodes.values, d.document.IsFor d.descriptor
  covers : ∀ {d doc}, d ∈ p.descriptors → p.documents.get? d.typeName = some doc →
    ∃ e ∈ p.nodes.values, e.descriptor = d ∧ e.document = doc

/-! ## Documents

Listings and documents belong to the type under whose name they stand. -/

/-- What is made for each of different types is found under its name. -/
theorem get?_of_mapM {β : Type} {f : Descriptor → Except Failure β} {ds : List Descriptor}
    {m : Keyed β} (hn : (ds.map Descriptor.typeName).Nodup)
    (h : (do
      let pairs ← ds.mapM fun d => do return (d.typeName, ← f d)
      return Keyed.ofList pairs) = .ok m) :
    m.keys = ds.map Descriptor.typeName
      ∧ ∀ d ∈ ds, ∃ b, m.get? d.typeName = some b ∧ f d = .ok b := by
  obtain ⟨pairs, hp, he⟩ := bind_ok h
  cases he
  have hm : List.Forall₂ (fun d y => y.1 = d.typeName ∧ f d = .ok y.2) ds pairs := by
    apply (mapM_ok hp).imp
    intro d y hy
    obtain ⟨b, hb, hy⟩ := bind_ok hy
    cases hy
    exact ⟨rfl, hb⟩
  have hkeys : pairs.map (·.1) = ds.map Descriptor.typeName := by
    clear hn hp h
    induction hm with
    | nil => rfl
    | cons hy _ ih => rw [List.map_cons, List.map_cons, ih, hy.1]
  have hn' : (pairs.map (·.1)).Nodup := hkeys ▸ hn
  refine ⟨?_, fun d hd => ?_⟩
  · rw [Keyed.keys, Keyed.entries_ofList hn', hkeys]
  · obtain ⟨⟨name, b⟩, hy, rfl, hf⟩ := exists_of_forall₂ hm hd
    exact ⟨b, Keyed.get?_ofList hn' hy, hf⟩

/-- Every type has a listing for each of its languages. -/
theorem Plan.listingsOf_isFor {π : Type} {o : Order π} {s : Schema} {ds : List Descriptor}
    {listings : Keyed (List ListingQuery)} (hn : (ds.map Descriptor.typeName).Nodup)
    (h : Plan.listingsOf o s ds = .ok listings) {d : Descriptor} (hd : d ∈ ds) :
    ∃ qs, listings.get? d.typeName = some qs
      ∧ List.Forall₂ (fun l q => q.IsFor d.typeName l) d.languages qs := by
  obtain ⟨qs, hqs, hq⟩ := (get?_of_mapM hn h).2 d hd
  exact ⟨qs, hqs, Listing.queries_isFor hq⟩

/-- The document that is put together for a type is one for it. -/
theorem Compilation.compileParts_isFor {s : Schema} {p : Parts} {d : Descriptor}
    {doc : CompiledDocument} {qs : List ListingQuery} (hl : p.listings.get? d.typeName = some qs)
    (hq : List.Forall₂ (fun l q => q.IsFor d.typeName l) d.languages qs)
    (h : compileParts (some s) p d = .ok doc) : doc.IsFor d := by
  obtain ⟨data, -, h⟩ := bind_ok h
  obtain ⟨identity, -, h⟩ := bind_ok h
  obtain ⟨qs', hreq, h⟩ := bind_ok h
  rw [hl] at hreq
  have hqs : qs' = qs := by
    unfold require at hreq
    split at hreq
    next he =>
      cases hreq
      exact (Option.some.inj (Option.filter_eq_some_iff.mp he).1).symm
    next => cases hreq
  exact compileType_isFor hq (hqs ▸ h)

/-! ## Node definitions

One for each type that has a document, in the order of the types. -/

namespace NodeDefinition

variable {before : String} {ds : List Descriptor} {documents : Keyed CompiledDocument}

/-- The node definitions of types, each under the name of its type. -/
def pairsOf (before : String) (ds : List Descriptor) (documents : Keyed CompiledDocument) :
    List (String × NodeDefinition) :=
  ds.filterMap fun d =>
    (documents.get? d.typeName).map fun document => (d.typeName, make before d document)

/-- A node definition is made for a type of the list with its document. -/
theorem mem_pairsOf {x : String × NodeDefinition} :
    x ∈ pairsOf before ds documents ↔
      ∃ d ∈ ds, ∃ doc, documents.get? d.typeName = some doc ∧ x = (d.typeName, make before d doc) := by
  rw [pairsOf, List.mem_filterMap]
  constructor
  · rintro ⟨d, hd, hx⟩
    obtain ⟨doc, hdoc, rfl⟩ := Option.map_eq_some_iff.mp hx
    exact ⟨d, hd, doc, hdoc, rfl⟩
  · rintro ⟨d, hd, doc, hdoc, rfl⟩
    exact ⟨d, hd, Option.map_eq_some_iff.mpr ⟨doc, hdoc, rfl⟩⟩

theorem pairsOf_sublist :
    ((pairsOf before ds documents).map (·.1)).Sublist (ds.map Descriptor.typeName) := by
  induction ds with
  | nil => exact List.Sublist.slnil
  | cons d ds ih =>
      cases hd : documents.get? d.typeName with
      | none =>
          have hskip : pairsOf before (d :: ds) documents = pairsOf before ds documents := by
            rw [pairsOf, List.filterMap_cons_none (by rw [hd]; rfl)]
            rfl
          rw [hskip]
          exact ih.cons _
      | some doc =>
          have hkeep : pairsOf before (d :: ds) documents
              = (d.typeName, make before d doc) :: pairsOf before ds documents := by
            rw [pairsOf, List.filterMap_cons_some (by rw [hd]; rfl)]
            rfl
          rw [hkeep]
          exact ih.cons_cons _

theorem values_ofDocuments (hn : (ds.map Descriptor.typeName).Nodup) :
    (ofDocuments before ds documents).values = (pairsOf before ds documents).map (·.2) := by
  rw [Keyed.values, ofDocuments]
  exact congrArg (List.map (·.2)) (Keyed.entries_ofList (hn.sublist pairsOf_sublist))

/-- The node definitions are those of the types that have a document. -/
theorem mem_ofDocuments (hn : (ds.map Descriptor.typeName).Nodup) {e : NodeDefinition} :
    e ∈ (ofDocuments before ds documents).values ↔
      ∃ d ∈ ds, ∃ doc, documents.get? d.typeName = some doc ∧ e = make before d doc := by
  rw [values_ofDocuments hn, List.mem_map]
  constructor
  · rintro ⟨x, hx, rfl⟩
    obtain ⟨d, hd, doc, hdoc, rfl⟩ := mem_pairsOf.mp hx
    exact ⟨d, hd, doc, hdoc, rfl⟩
  · rintro ⟨d, hd, doc, hdoc, rfl⟩
    exact ⟨_, mem_pairsOf.mpr ⟨d, hd, doc, hdoc, rfl⟩, rfl⟩

/-- The node definitions belong to different types. -/
theorem typeNames_ofDocuments (hn : (ds.map Descriptor.typeName).Nodup) :
    ((ofDocuments before ds documents).values.map typeName).Nodup := by
  have hnames : (ofDocuments before ds documents).values.map typeName
      = (pairsOf before ds documents).map (·.1) := by
    rw [values_ofDocuments hn, List.map_map]
    apply List.map_congr_left
    intro x hx
    obtain ⟨d, -, doc, -, rfl⟩ := mem_pairsOf.mp hx
    rfl
  rw [hnames]
  exact hn.sublist pairsOf_sublist

end NodeDefinition

/-! ## Plans

 -/

namespace Plan

variable {π : Type} {o : Order π} {s : Schema} {ds : List Descriptor}
  {listings : Keyed (List ListingQuery)} {found : ResolvedFragments} {p : Plan}

/-- **A plan that is completed is coherent.** -/
theorem complete_coherent (hn : (ds.map Descriptor.typeName).Nodup)
    (hl : listingsOf o s ds = .ok listings) (h : complete o s ds listings found = .ok p) :
    p.Coherent := by
  obtain ⟨documents, hdocs, h⟩ := bind_ok h
  cases h
  have hsub : (compilable ds found).Sublist ds := List.filter_sublist
  have hn' : ((compilable ds found).map Descriptor.typeName).Nodup :=
    hn.sublist (hsub.map Descriptor.typeName)
  obtain ⟨hkeys, hdoc⟩ := get?_of_mapM hn' hdocs
  refine ⟨NodeDefinition.typeNames_ofDocuments hn', ?_, ?_, ?_⟩
  · intro e he
    obtain ⟨d, hd, doc, -, rfl⟩ := (NodeDefinition.mem_ofDocuments hn').mp he
    exact hsub.subset hd
  · intro e he
    obtain ⟨d, hd, doc, hget, rfl⟩ := (NodeDefinition.mem_ofDocuments hn').mp he
    obtain ⟨doc', hget', hparts⟩ := hdoc d hd
    cases hget.symm.trans hget'
    obtain ⟨qs, hqs, hq⟩ := listingsOf_isFor hn hl (hsub.subset hd)
    exact Compilation.compileParts_isFor hqs hq hparts
  · intro d doc hd hget
    have hkey : d.typeName ∈ (compilable ds found).map Descriptor.typeName := by
      rw [← hkeys, ← Keyed.contains_iff_mem_keys, Keyed.contains]
      exact Option.isSome_iff_exists.mpr ⟨doc, hget⟩
    obtain ⟨c, hc, hname⟩ := List.mem_map.mp hkey
    obtain rfl : c = d := List.inj_on_of_nodup_map hn (hsub.subset hc) hd hname
    exact ⟨_, (NodeDefinition.mem_ofDocuments hn').mpr ⟨c, hc, doc, hget, rfl⟩, rfl, rfl⟩

/-! ### Steps towards a plan -/

variable {σ : Type} {site : Site σ} {st : σ}

section Steps

variable {e : Failure} {listings : Keyed (List ListingQuery)} {found : ResolvedFragments}

/-- The fragments of all entity types, and the cache after they were looked up. -/
def fragmentsOf (site : Site σ) (o : Order π) (s : Schema) (st : σ) :
    Except Failure ResolvedFragments × FragmentCache :=
  resolveFragments s ((entityTypes s o.config.languages).map (·.typeName)) o.custom
    o.fragmentGenerator (site.cache st)

theorem ofSchema_unlisted (h : listingsOf o s (entityTypes s o.config.languages) = .error e) :
    ofSchema site o s st = (.error e, st) := by
  rw [ofSchema, h]
  rfl

/-- A fragment that cannot be looked for ends the plan; what was written to the store stays. -/
theorem ofSchema_unresolved (h : listingsOf o s (entityTypes s o.config.languages) = .ok listings)
    (hf : (fragmentsOf site o s st).1 = .error e) :
    ofSchema site o s st = (.error e, site.keep (fragmentsOf site o s st).2 st) := by
  rw [fragmentsOf] at hf ⊢
  rw [ofSchema, h]
  dsimp only [bind, StateT.bind, get, getThe, MonadStateOf.get, StateT.get, modify, modifyGet,
    MonadStateOf.modifyGet, StateT.modifyGet, pure]
  rw [hf]
  rfl

theorem ofSchema_uncompiled (h : listingsOf o s (entityTypes s o.config.languages) = .ok listings)
    (hf : (fragmentsOf site o s st).1 = .ok found)
    (hc : complete o s (entityTypes s o.config.languages) listings found = .error e) :
    ofSchema site o s st = (.error e, site.keep (fragmentsOf site o s st).2 st) := by
  rw [fragmentsOf] at hf ⊢
  rw [ofSchema, h]
  dsimp only [bind, StateT.bind, get, getThe, MonadStateOf.get, StateT.get, modify, modifyGet,
    MonadStateOf.modifyGet, StateT.modifyGet, pure]
  rw [hf]
  dsimp only
  rw [hc]
  rfl

/-- Once a plan is complete, its documents are written to the disk, which can fail. -/
theorem ofSchema_dumped (h : listingsOf o s (entityTypes s o.config.languages) = .ok listings)
    (hf : (fragmentsOf site o s st).1 = .ok found)
    (hc : complete o s (entityTypes s o.config.languages) listings found = .ok p) {kept : σ}
    (hk : kept = site.keep (fragmentsOf site o s st).2 st) :
    ofSchema site o s st
      = (((dump o.config p (site.cache kept).disk).1.mapError Failure.fault).map fun _ => p,
          site.keep { site.cache kept with disk := (dump o.config p (site.cache kept).disk).2 }
            kept) := by
  rw [fragmentsOf] at hf hk
  rw [ofSchema, h]
  dsimp only [bind, StateT.bind, get, getThe, MonadStateOf.get, StateT.get, modify, modifyGet,
    MonadStateOf.modifyGet, StateT.modifyGet, pure]
  rw [hf]
  dsimp only
  rw [hc]
  dsimp only
  rw [← hk]
  dsimp only [bind, StateT.bind, StateT.get, StateT.modifyGet, pure]
  generalize dump o.config p (site.cache kept).disk = d
  obtain ⟨written, disk⟩ := d
  cases written with
  | error f => rfl
  | ok _ => rfl

/-- Once a plan is complete, no other plan comes of it. -/
theorem ofSchema_complete (h : listingsOf o s (entityTypes s o.config.languages) = .ok listings)
    (hf : (fragmentsOf site o s st).1 = .ok found)
    (hc : complete o s (entityTypes s o.config.languages) listings found = .ok p) :
    ∃ x cache, ofSchema site o s st
        = (x, site.keep cache (site.keep (fragmentsOf site o s st).2 st))
      ∧ ∀ q, x = .ok q → q = p := by
  refine ⟨_, _, ofSchema_dumped h hf hc rfl, fun q hq => ?_⟩
  revert hq
  generalize (dump o.config p _).1 = written
  cases written with
  | error f => nofun
  | ok _ => exact fun hq => (Except.ok.inj hq).symm

theorem prepare_refused (h : o.preflight = .error e) : prepare site o st = (.error e, st) := by
  rw [prepare, h]
  rfl

/-- Without a schema there is no plan. -/
theorem prepare_unknown (h : o.preflight = .ok ()) (hs : (loadSchema site.ask st).1 = .error e) :
    prepare site o st = (.error e, (loadSchema site.ask st).2) := by
  rw [prepare, h]
  dsimp only [bind, StateT.bind]
  generalize loadSchema site.ask st = l at hs ⊢
  obtain ⟨_, st'⟩ := l
  cases hs
  rfl

/-- With a schema the plan is made from it. -/
theorem prepare_known (h : o.preflight = .ok ()) (hs : (loadSchema site.ask st).1 = .ok s) :
    prepare site o st = ofSchema site o s (loadSchema site.ask st).2 := by
  rw [prepare, h]
  dsimp only [bind, StateT.bind]
  generalize loadSchema site.ask st = l at hs ⊢
  obtain ⟨_, st'⟩ := l
  cases hs
  rfl

end Steps

/-- Whether a plan was put together from the listings and the fragments of the entity types of a schema. -/
def Completed (o : Order π) (p : Plan) : Prop :=
  ∃ s found cache cache',
    resolveFragments s ((entityTypes s o.config.languages).map (·.typeName)) o.custom
        o.fragmentGenerator cache = (.ok found, cache')
      ∧ ∃ listings, listingsOf o s (entityTypes s o.config.languages) = .ok listings
        ∧ complete o s (entityTypes s o.config.languages) listings found = .ok p

/-! ### Plans that were made

Whatever was done around it, a plan comes from a schema, and was completed with the listings and fragments of
its entity types. What is proved of completed plans holds of every plan. -/

/-- A plan from a schema comes of its listings and fragments, whatever was written before and after. -/
theorem ofSchema_ok (h : (ofSchema site o s st).1 = .ok p) :
    ∃ listings found, listingsOf o s (entityTypes s o.config.languages) = .ok listings
      ∧ (fragmentsOf site o s st).1 = .ok found
      ∧ complete o s (entityTypes s o.config.languages) listings found = .ok p := by
  cases hl : listingsOf o s (entityTypes s o.config.languages) with
  | error e =>
      rw [ofSchema_unlisted hl] at h
      cases h
  | ok listings =>
      cases hf : (fragmentsOf site o s st).1 with
      | error e =>
          rw [ofSchema_unresolved hl hf] at h
          cases h
      | ok found =>
          cases hc : complete o s (entityTypes s o.config.languages) listings found with
          | error e =>
              rw [ofSchema_uncompiled hl hf hc] at h
              cases h
          | ok plan =>
              obtain ⟨x, cache, hx, hplan⟩ := ofSchema_complete hl hf hc
              rw [hx] at h
              rw [hplan p h]
              exact ⟨listings, found, rfl, rfl, hc⟩

/-- A plan from a schema is one that was completed. -/
theorem ofSchema_completed (h : (ofSchema site o s st).1 = .ok p) : p.Completed o := by
  obtain ⟨listings, found, hl, hf, hc⟩ := ofSchema_ok h
  exact ⟨s, found, site.cache st, (fragmentsOf site o s st).2, Prod.ext hf rfl, listings, hl, hc⟩

/-- A plan that was made is one from the schema of the remote. -/
theorem prepare_ok (h : (prepare site o st).1 = .ok p) :
    ∃ s, (loadSchema site.ask st).1 = .ok s
      ∧ (ofSchema site o s (loadSchema site.ask st).2).1 = .ok p := by
  cases hp : o.preflight with
  | error e =>
      rw [prepare_refused hp] at h
      cases h
  | ok _ =>
      cases hs : (loadSchema site.ask st).1 with
      | error e =>
          rw [prepare_unknown hp hs] at h
          cases h
      | ok s =>
          rw [prepare_known hp hs] at h
          exact ⟨s, rfl, h⟩

/-- **Every plan was completed**, whatever it was made from. -/
theorem prepare_completed (h : (prepare site o st).1 = .ok p) : p.Completed o := by
  obtain ⟨s, -, hs⟩ := prepare_ok h
  exact ofSchema_completed hs

/-- A plan is about the entity types of the schema that it was made from. -/
theorem descriptors_of_complete (h : complete o s ds listings found = .ok p) : p.descriptors = ds := by
  obtain ⟨documents, -, h⟩ := bind_ok h
  cases h
  rfl

/-- **Every plan is coherent.** -/
theorem prepare_coherent (h : (prepare site o st).1 = .ok p) : p.Coherent := by
  obtain ⟨s, found, -, -, -, listings, hl, hc⟩ := prepare_completed h
  exact complete_coherent (distinctTypes_nodup _) hl hc

end Plan

/-! ## A small remote

Two types behind one interface, each listed in two languages, are enough to see a plan. -/

namespace Sample

def typeRef (kind name : String) : Value := .record [("kind", .str kind), ("name", .str name)]

def field (name : String) (args : List Value) (type : Value) : Value :=
  .record [("name", .str name), ("args", .list args), ("type", type)]

def argument (name kind type : String) : Value :=
  .record [("name", .str name), ("type", typeRef kind type)]

/-- A type with fields and with the types that it implements. -/
def type (kind name : String) (interfaces fields : List Value) : Value :=
  .record [("kind", .str kind), ("name", .str name), ("interfaces", .list interfaces),
    ("fields", .list fields), ("possibleTypes", .list [typeRef "OBJECT" "Node", typeRef "OBJECT" "Term"])]

/-- A field that lists entities. -/
def listing (name : String) : Value :=
  field name [argument "limit" "SCALAR" "Int", argument "offset" "SCALAR" "Int"]
    (typeRef "OBJECT" "EntityQueryResult")

/-- What identifies an entity. -/
def identity : List Value :=
  [field "entityId" [] (typeRef "SCALAR" "String"),
    field "entityLanguage" [] (typeRef "OBJECT" "Language")]

def description : Value :=
  .record [("__schema", .record [
    ("queryType", typeRef "OBJECT" "Query"),
    ("directives", .list []),
    ("types", .list [
      type "OBJECT" "Query" [] [listing "nodeQuery", listing "termQuery"],
      type "OBJECT" "EntityQueryResult" [] [field "entities" [argument "language" "ENUM" "LanguageId"]
        (.record [("kind", .str "LIST"), ("ofType", typeRef "INTERFACE" "Entity")])],
      type "INTERFACE" "Entity" [] identity,
      type "OBJECT" "Node" [typeRef "INTERFACE" "Entity"] identity,
      type "OBJECT" "Term" [typeRef "INTERFACE" "Entity"] identity,
      type "OBJECT" "Language" [] [field "id" [] (typeRef "SCALAR" "String")],
      .record [("kind", .str "ENUM"), ("name", .str "LanguageId"),
        ("enumValues", .list [.record [("name", .str "EN")], .record [("name", .str "DE")]])],
      typeRef "SCALAR" "Int", typeRef "SCALAR" "String"])])]

/-- The site with a remote that answers by the request alone, and a receiver that forgets. -/
def answering (f : Request → Answer) : Site Unit :=
  { ask := fun r => return f r
    cancelled := fun _ => false
    declare := fun _ s => (.ok (), s)
    emit := fun _ _ s => s
    cache := fun _ => ⟨.memory .empty, .empty⟩
    keep := fun _ s => s }

/-- This receiver takes every type. -/
theorem declareAll_answering (f : Request → Answer) (ds : List NodeDefinition) :
    ((answering f).declareAll ds ()).1 = .ok () := by
  induction ds with
  | nil => rfl
  | cons d ds ih => exact ih

/-- What is sourced: two languages, pages of two items. -/
def order : Order :=
  .ofConfig { Config.standard with url := .str "http://remote", languages := ["EN", "DE"], pageSize := 2 }

/-- The plan for the remote. -/
def plan : Plan :=
  (Plan.prepare (answering fun _ => .data description) order ()).1.toOption.getD default

/-- What a plan settles about its types: their names, fields and languages. -/
def typesOf (p : Plan) : List (String × String × List String) :=
  p.nodes.values.map fun d => (d.typeName, d.descriptor.queryField, d.descriptor.languages)

theorem types_of_prepare :
    (Plan.prepare (answering fun _ => .data description) order ()).1.toOption.map typesOf
      = some [("Node", "nodeQuery", ["EN", "DE"]), ("Term", "termQuery", ["EN", "DE"])] := by
  decide +kernel

theorem prepare_eq : (Plan.prepare (answering fun _ => .data description) order ()).1 = .ok plan := by
  apply eq_ok_of_isSome
  have ht := congrArg Option.isSome types_of_prepare
  rwa [Option.isSome_map] at ht

theorem typesOf_plan :
    typesOf plan
      = [("Node", "nodeQuery", ["EN", "DE"]), ("Term", "termQuery", ["EN", "DE"])] := by
  have ht := types_of_prepare
  rw [prepare_eq] at ht
  exact Option.some.inj ht

theorem queryField_of_mem {d : NodeDefinition} (hd : d ∈ plan.nodes.values) :
    d.descriptor.queryField = "nodeQuery" ∨ d.descriptor.queryField = "termQuery" := by
  have hmem : (d.typeName, d.descriptor.queryField, d.descriptor.languages) ∈ typesOf plan :=
    List.mem_map_of_mem hd
  rw [typesOf_plan] at hmem
  rcases List.mem_cons.mp hmem with h | h
  · exact .inl (congrArg (·.2.1) h)
  · exact .inr (congrArg (·.2.1) (List.mem_singleton.mp h))

/-- An item that names a type. -/
def item (typeName id : String) : Value :=
  .record [("__typename", .str typeName), ("entityId", .str id)]

/-- The answer with the items of a page under the fields of both types. -/
def pageOf (items : List Value) : Answer :=
  .data (.record [("nodeQuery", .record [("entities", .list items)]),
    ("termQuery", .record [("entities", .list items)])])

end Sample

end Harvest
