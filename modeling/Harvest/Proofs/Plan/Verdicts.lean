import Harvest.Proofs.GraphQL.Verdicts
import Harvest.Proofs.Plan.Alignment
import Harvest.Proofs.Plan.Resolution

/-!
# How a plan can fail

A run without filters, with its fragments in memory and nowhere to dump its documents has only the remote
to rely on. `Plan.prepare_verdict` says how its plan can fail then, whatever the remote answers: there is
no schema in the answer, or a document is invalid. There is one more way, which is no failure of sourcing:
the schema breaks the rules for schemas, and a document is to be checked against it
(`Sample.empty_type_unreported`).

`Verdict` has three cases: the thing is there, the check has found it invalid, or the check could not be
made because the schema itself breaks the rules. Steps that cannot fail by themselves keep a verdict
(`Verdict.bind`), and for a list of things the first that is not in order decides (`Verdict.mapM`). With the
steps that can fail otherwise excluded by the assumptions on the order, a plan is such a list of documents.

The check of the schema is made when the first document is checked. So a schema that breaks the rules is
noticed only if there is a type with a fragment, which is what `Plan.Trips` says.
-/

namespace Harvest

open GraphQL

/-! ## Verdicts

The three cases, and how they go together. -/

/-- What comes of something that is checked against a schema. -/
inductive Verdict {α : Type} (s : Schema) : Except Failure α → Prop
  | passed (hs : s.flaws = []) (a : α) : Verdict s (.ok a)
  | invalid (hs : s.flaws = []) (typeName : String) (errors : List String) :
      Verdict s (.error (.invalidDocument typeName errors))
  | flawed (hs : s.flaws ≠ []) : Verdict s (.error (.invalidSchema (s.flaws.map SchemaFlaw.message)))

namespace Verdict

variable {α β : Type} {s : Schema}

/-- What follows a check and cannot fail leaves its verdict. -/
theorem bind {x : Except Failure α} {f : α → Except Failure β} (hx : Verdict s x)
    (hf : ∀ a, ∃ b, f a = .ok b) : Verdict s (x >>= f) := by
  cases hx with
  | passed hs a =>
      obtain ⟨b, hb⟩ := hf a
      show Verdict s (f a)
      rw [hb]
      exact .passed hs b
  | invalid hs t errors => exact .invalid hs t errors
  | flawed hs => exact .flawed hs

/-- The verdict on several things, of which there is at least one, is that on one of them. -/
theorem mapM {f : α → Except Failure β} {x : α} {xs : List α} (h : ∀ y ∈ x :: xs, Verdict s (f y)) :
    Verdict s ((x :: xs).mapM f) := by
  induction xs generalizing x with
  | nil =>
      rw [List.mapM_cons]
      exact (h x List.mem_cons_self).bind fun b => ⟨[b], rfl⟩
  | cons y ys ih =>
      have hrest : Verdict s ((y :: ys).mapM f) := ih fun z hz => h z (List.mem_cons_of_mem x hz)
      have hx := h x List.mem_cons_self
      rw [List.mapM_cons]
      cases hfx : f x with
      | ok b => exact hrest.bind fun bs => ⟨b :: bs, rfl⟩
      | error e =>
          rw [hfx] at hx
          cases hx with
          | invalid hs t errors => exact .invalid hs t errors
          | flawed hs => exact .flawed hs

end Verdict

/-! ## Documents

Everything in putting a document together succeeds here, so that only the check is left. -/

namespace Compilation

variable {s : Schema} {d : Descriptor} {ls : List String} {qs : List ListingQuery} {fragment : String}
  {identity : Fragment} {data : DataFragment}

theorem exists_merged (hq : List.Forall₂ (fun l q => q.IsListing s d l) ls qs) (fragment : String) :
    ∃ merged, qs.mapM (fun q => merge q.definition fragment) = .ok merged := by
  refine exists_mapM fun q hqs => ?_
  obtain ⟨l, -, hl⟩ := exists_of_forall₂ hq.flip hqs
  obtain ⟨o, ho, -⟩ := merge_isListing hl fragment
  exact ⟨_, ho⟩

theorem exists_operationsOf (hq : List.Forall₂ (fun l q => q.IsListing s d l) ls qs) :
    ∃ operations, operationsOf qs = .ok operations := by
  refine exists_bind (exists_mapM fun q hqs => ?_) fun pairs => ⟨.ofList pairs, rfl⟩
  obtain ⟨l, -, -, -, literal, hdef⟩ := exists_of_forall₂ hq.flip hqs
  rw [ListingQuery.operationName?, hdef]
  exact ⟨_, rfl⟩

/-- A listing stays a query when it spreads a fragment. -/
theorem merged_kind {merged : List Definition}
    (hq : List.Forall₂ (fun l q => q.IsListing s d l) ls qs)
    (h : qs.mapM (fun q => merge q.definition fragment) = .ok merged) {o : Operation}
    (ho : .operation o ∈ merged) : o.kind = .query := by
  obtain ⟨q, hqs, hm⟩ := exists_of_forall₂ (mapM_ok h).flip ho
  obtain ⟨l, -, -, -, literal, hdef⟩ := exists_of_forall₂ hq.flip hqs
  rw [hdef] at hm
  obtain ⟨ss, hss⟩ := merge_operation hm
  cases hss
  rfl

theorem operations_kind {merged : List Definition}
    (hq : List.Forall₂ (fun l q => q.IsListing s d l) ls qs)
    (h : qs.mapM (fun q => merge q.definition fragment) = .ok merged) (fs : List Fragment) :
    ∀ o ∈ Document.operations (merged ++ fs.map .fragment), o.kind = .query := by
  intro o ho
  obtain ⟨definition, hdef, hsome⟩ := List.mem_filterMap.mp ho
  rcases List.mem_append.mp hdef with hmem | hmem
  · cases definition with
    | operation o' =>
        cases hsome
        exact merged_kind hq h hmem
    | fragment f => cases hsome
    | typeSystem => cases hsome
  · obtain ⟨f, -, rfl⟩ := List.mem_map.mp hmem
    cases hsome

theorem validate_verdict (typeName : String) {document : Document}
    (h : ∀ o ∈ Document.operations document, o.kind ≠ .subscription) :
    Verdict s (validate s typeName document) := by
  obtain ⟨vs, hvs⟩ := Document.exists_violations s h
  unfold validate
  cases hs : s.flaws with
  | nil =>
      dsimp only
      rw [hvs]
      cases vs with
      | nil => exact .passed hs ()
      | cons v vs => exact .invalid hs typeName _
  | cons flaw flaws =>
      have hne : s.flaws ≠ [] := by
        rw [hs]
        exact List.cons_ne_nil flaw flaws
      show Verdict s (.error (.invalidSchema ((flaw :: flaws).map SchemaFlaw.message)))
      rw [← hs]
      exact .flawed hne

/-- The document of a type fails in the check or not at all. -/
theorem compileType_verdict (hq : List.Forall₂ (fun l q => q.IsListing s d l) ls qs) :
    Verdict s (compileType (some s) d qs identity data) := by
  obtain ⟨merged, hmerged⟩ := exists_merged hq data.name
  obtain ⟨operations, hoperations⟩ := exists_operationsOf hq
  -- A document of queries has a verdict, whatever fragments the caller or the store gave.
  have hkind : ∀ o ∈ Document.operations (merged ++ (identity :: data.definitions).map .fragment),
      o.kind ≠ .subscription := by
    intro o ho
    rw [operations_kind hq hmerged _ o ho]
    exact OperationKind.noConfusion
  unfold compileType
  rw [hmerged, hoperations]
  exact (validate_verdict d.typeName hkind).bind fun _ => ⟨_, rfl⟩

end Compilation

/-! ## Plans

The steps of a plan again, under the assumptions on its order. -/

namespace Plan

variable {π σ : Type} {site : Site σ} {o : Order π} {s : Schema} {st : σ}

/-- Without filters every type has its listings. -/
theorem exists_listingsOf (hfilters : o.config.filters = []) (hfilter : o.filter = none)
    (ds : List Descriptor) : ∃ listings, listingsOf o s ds = .ok listings := by
  have hnull (d : Descriptor) (l : String) : o.listingFilter d l = .null := by
    rw [Order.listingFilter, hfilter, hfilters]
    rfl
  have hquery (d : Descriptor) (l : String) : ∃ q, Listing.query s o.listingFilter d l = .ok q := by
    rw [Listing.query, Listing.filterLiteral, hnull]
    exact ⟨_, rfl⟩
  refine exists_bind (exists_mapM fun d _ => ?_) fun pairs => ⟨.ofList pairs, rfl⟩
  exact exists_bind (exists_mapM fun l _ => hquery d l) fun qs => ⟨(d.typeName, qs), rfl⟩

theorem complete_verdict {ds : List Descriptor} {listings : Keyed (List ListingQuery)}
    (found : ResolvedFragments) (hn : (ds.map Descriptor.typeName).Nodup)
    (hl : listingsOf o s ds = .ok listings) (hlang : ∀ d ∈ ds, d.languages ≠ []) :
    (compilable ds found = [] ∧ ∃ p, complete o s ds listings found = .ok p)
      ∨ compilable ds found ≠ [] ∧ Verdict s (complete o s ds listings found) := by
  unfold complete Compilation.compile
  cases hds : compilable ds found with
  | nil => exact .inl ⟨rfl, _, rfl⟩
  | cons d rest =>
      refine .inr ⟨List.cons_ne_nil d rest, ?_⟩
      -- The parts of every document are at hand, so each of them comes to be checked.
      have hall : ∀ e ∈ d :: rest, Verdict s (do
          return (e.typeName, ← Compilation.compileParts (some s) ⟨listings, .ofList (ds.map fun d =>
            (d.typeName, Listing.identityFragment d.typeName)), found.fragments⟩ e)) := by
        intro e he
        have hmem : e ∈ compilable ds found := hds ▸ he
        obtain ⟨qs, identity, data, hq, heq⟩ := Compilation.compileParts_eq (parts_has hn hl hlang hmem)
        rw [heq]
        exact (Compilation.compileType_verdict hq).bind fun _ => ⟨_, rfl⟩
      exact ((Verdict.mapM hall).bind fun _ => ⟨_, rfl⟩).bind fun _ => ⟨_, rfl⟩

/-- Whether a schema breaks the rules for schemas although there is a type that a document is to be
compiled for. -/
def Trips (site : Site σ) (o : Order π) (s : Schema) (st : σ) : Prop :=
  s.flaws ≠ [] ∧ ∃ found, (fragmentsOf site o s st).1 = .ok found
    ∧ ∃ d ∈ entityTypes s o.config.languages, found.contains d.typeName = true

theorem compilable_ne_nil_iff {ds : List Descriptor} {found : ResolvedFragments} :
    compilable ds found ≠ [] ↔ ∃ d ∈ ds, found.contains d.typeName = true := by
  simp [compilable]

/-! ### From a schema, and from an answer

There are entity types with a document to compile, or none. In the second case the schema is never looked at
as a whole, and may break any of its rules. -/

/-- A plan from a schema fails in the check of a document or not at all. -/
theorem ofSchema_verdict (hlang : o.config.languages ≠ []) (hfilters : o.config.filters = [])
    (hfilter : o.filter = none) (hdebug : o.config.debugDir.isTruthy = false) {texts : Keyed String}
    (hstore : (site.cache st).store = .memory texts) :
    (¬Trips site o s st ∧ ((∃ p, (ofSchema site o s st).1 = .ok p)
        ∨ ∃ t errors, (ofSchema site o s st).1 = .error (.invalidDocument t errors)))
      ∨ (Trips site o s st
        ∧ (ofSchema site o s st).1 = .error (.invalidSchema (s.flaws.map SchemaFlaw.message))) := by
  have hne : ∀ d ∈ entityTypes s o.config.languages, d.languages ≠ [] := by
    intro d hd
    rw [languages_of_mem_entityTypes hd]
    exact hlang
  obtain ⟨listings, hl⟩ := exists_listingsOf (s := s) hfilters hfilter (entityTypes s o.config.languages)
  obtain ⟨found, hf⟩ : ∃ found, (fragmentsOf site o s st).1 = .ok found :=
    FragmentRequest.resolveAll_memory hstore
  have htrips : Trips site o s st
      ↔ s.flaws ≠ [] ∧ compilable (entityTypes s o.config.languages) found ≠ [] := by
    constructor
    · rintro ⟨hs, found', hf', h⟩
      cases hf.symm.trans hf'
      exact ⟨hs, compilable_ne_nil_iff.mpr h⟩
    · rintro ⟨hs, h⟩
      exact ⟨hs, found, hf, compilable_ne_nil_iff.mp h⟩
  -- With nowhere to dump its documents, a plan that is complete is the result.
  have hplan {p : Plan} (hc : complete o s (entityTypes s o.config.languages) listings found = .ok p) :
      (ofSchema site o s st).1 = .ok p := by
    rw [ofSchema_dumped hl hf hc rfl, dump, hdebug]
    rfl
  have hn : ((entityTypes s o.config.languages).map Descriptor.typeName).Nodup := distinctTypes_nodup _
  rcases complete_verdict found hn hl hne with
    ⟨hnone, p, hc⟩ | ⟨hsome, hverdict⟩
  · exact .inl ⟨fun h => (htrips.mp h).2 hnone, .inl ⟨p, hplan hc⟩⟩
  · obtain ⟨x, hc⟩ : ∃ x, complete o s (entityTypes s o.config.languages) listings found = x := ⟨_, rfl⟩
    rw [hc] at hverdict
    cases hverdict with
    | passed hs p => exact .inl ⟨fun h => h.1 hs, .inl ⟨p, hplan hc⟩⟩
    | invalid hs t errors =>
        refine .inl ⟨fun h => h.1 hs, .inr ⟨t, errors, ?_⟩⟩
        rw [ofSchema_uncompiled hl hf hc]
    | flawed hs =>
        refine .inr ⟨htrips.mpr ⟨hs, hsome⟩, ?_⟩
        rw [ofSchema_uncompiled hl hf hc]

/-- Of the failures that a plan from a schema can have, only an invalid document is one of sourcing. -/
theorem ofSchema_reported (hlang : o.config.languages ≠ []) (hfilters : o.config.filters = [])
    (hfilter : o.filter = none) (hdebug : o.config.debugDir.isTruthy = false) {texts : Keyed String}
    (hstore : (site.cache st).store = .memory texts) {e : Failure}
    (h : (ofSchema site o s st).1 = .error e) (he : e.isReported = true) :
    ∃ t errors, e = .invalidDocument t errors := by
  rcases ofSchema_verdict (s := s) hlang hfilters hfilter hdebug hstore with
    ⟨-, ⟨p, hx⟩ | ⟨t, errors, hx⟩⟩ | ⟨-, hx⟩
  · cases h.symm.trans hx
  · exact ⟨t, errors, Except.error.inj (h.symm.trans hx)⟩
  · cases h.symm.trans hx
    cases he

theorem ofSchema_unreported_iff (hlang : o.config.languages ≠ []) (hfilters : o.config.filters = [])
    (hfilter : o.filter = none) (hdebug : o.config.debugDir.isTruthy = false) {texts : Keyed String}
    (hstore : (site.cache st).store = .memory texts) {e : Failure} :
    (ofSchema site o s st).1 = .error e ∧ e.isReported = false
      ↔ Trips site o s st ∧ e = .invalidSchema (s.flaws.map SchemaFlaw.message) := by
  rcases ofSchema_verdict (s := s) hlang hfilters hfilter hdebug hstore with
    ⟨htrips, hkept⟩ | ⟨htrips, hx⟩
  · refine ⟨?_, fun h => absurd h.1 htrips⟩
    rintro ⟨h, he⟩
    obtain ⟨p, hx⟩ | ⟨t, errors, hx⟩ := hkept
    · cases h.symm.trans hx
    · cases h.symm.trans hx
      cases he
  · constructor
    · rintro ⟨h, -⟩
      exact ⟨htrips, Except.error.inj (h.symm.trans hx)⟩
    · rintro ⟨-, rfl⟩
      exact ⟨hx, rfl⟩

theorem schemaOfAnswer_error {a : Answer} {e : Failure} (ha : ∀ f, a ≠ .broken f)
    (h : schemaOfAnswer a = .error e) : ∃ problem, e = .schema problem := by
  unfold schemaOfAnswer at h
  split at h
  next v =>
    unfold remoteSchema at h
    split at h
    · cases h
      exact ⟨_, rfl⟩
    · split at h
      · cases h
        exact ⟨_, rfl⟩
      · split at h
        · cases h
        · cases h
          exact ⟨_, rfl⟩
  next =>
    cases h
    exact ⟨_, rfl⟩
  next f => exact absurd rfl (ha f)

/-- **How the plan of a run can fail** when its configuration is in order, it has no filters, its fragments
are kept in memory and its documents are not dumped, whatever the remote answers. As a failure of sourcing
it fails for want of a schema or for an invalid document. Otherwise it fails exactly when the schema breaks
the rules for schemas and there is a type to compile a document for. -/
theorem prepare_verdict (site : Site σ) {o : Order π} (st : σ) (hcheck : o.config.check = .ok ())
    (hfilters : o.config.filters = []) (hfilter : o.filter = none) (hpaging : o.paging = none)
    (hdebug : o.config.debugDir.isTruthy = false)
    (hanswer : ∀ f, (site.ask introspectionRequest st).1 ≠ .broken f) {texts : Keyed String}
    (hstore : (site.cache (site.ask introspectionRequest st).2).store = .memory texts) :
    (∀ e, (prepare site o st).1 = .error e → e.isReported = true →
        (∃ problem, e = .schema problem) ∨ ∃ t errors, e = .invalidDocument t errors)
      ∧ ∀ e, (prepare site o st).1 = .error e ∧ e.isReported = false ↔
        ∃ s, schemaOfAnswer (site.ask introspectionRequest st).1 = .ok s
          ∧ Trips site o s (site.ask introspectionRequest st).2
          ∧ e = .invalidSchema (s.flaws.map SchemaFlaw.message) := by
  -- a checked configuration without filters passes the preflight, so the schema comes next
  have hpre : o.preflight = .ok () := by
    rw [Order.preflight, hcheck]
    show o.profile.check = .ok ()
    rw [Order.profile, hpaging]
    rfl
  have hload : (loadSchema site.ask st).1 = schemaOfAnswer (site.ask introspectionRequest st).1 := rfl
  have hafter : (loadSchema site.ask st).2 = (site.ask introspectionRequest st).2 := rfl
  cases hs : schemaOfAnswer (site.ask introspectionRequest st).1 with
  | error e' =>
      rw [prepare_unknown hpre (hload.trans hs)]
      obtain ⟨problem, rfl⟩ := schemaOfAnswer_error hanswer hs
      refine ⟨fun e he _ => .inl ⟨problem, (Except.error.inj he).symm⟩, fun e => ⟨?_, ?_⟩⟩
      · rintro ⟨he, hreported⟩
        cases he
        cases hreported
      · rintro ⟨s, hs', -⟩
        cases hs'
  | ok s =>
      rw [prepare_known hpre (hload.trans hs), hafter]
      have hlang := languages_of_preflight hpre
      refine ⟨fun e he hreported =>
        .inr (ofSchema_reported hlang hfilters hfilter hdebug hstore he hreported), fun e => ?_⟩
      rw [ofSchema_unreported_iff hlang hfilters hfilter hdebug hstore]
      constructor
      · rintro ⟨htrips, he⟩
        exact ⟨s, rfl, htrips, he⟩
      · rintro ⟨s', hs', htrips, he⟩
        cases hs'
        exact ⟨htrips, he⟩

end Plan

/-! ## A schema with a flaw -/

namespace Sample

/-- The description of a remote whose listings have a result without fields. -/
def barren : Value :=
  .record [("__schema", .record [
    ("queryType", typeRef "OBJECT" "Query"),
    ("directives", .list []),
    ("types", .list [
      type "OBJECT" "Query" [] [listing "nodeQuery"],
      type "OBJECT" "EntityQueryResult" [] [],
      type "OBJECT" "Node" [] [field "title" [] (typeRef "SCALAR" "String")],
      typeRef "SCALAR" "Int", typeRef "SCALAR" "String"])])]

/-- The flaws of a schema that a plan failed for. -/
def flawsOf : Except Failure Plan → List String
  | .error (.invalidSchema errors) => errors
  | _ => []

theorem flawsOf_barren :
    flawsOf (Plan.prepare (answering fun _ => .data barren) order ()).1
      = ["Type EntityQueryResult must define one or more fields."] := by
  decide +kernel

/-- The flaw is no failure of sourcing: the plan fails with something else. -/
theorem empty_type_unreported :
    (∃ e, (Plan.prepare (answering fun _ => .data barren) order ()).1 = .error e ∧ e.isReported = false)
      ∧ ∃ s, schemaOfAnswer (.data barren) = .ok s
        ∧ s.flaws.map SchemaFlaw.message = ["Type EntityQueryResult must define one or more fields."] := by
  have hflaws := flawsOf_barren
  generalize hx : (Plan.prepare (answering fun _ => .data barren) order ()).1 = x at hflaws ⊢
  unfold flawsOf at hflaws
  split at hflaws
  next errors =>
    obtain ⟨-, hiff⟩ := Plan.prepare_verdict (answering fun _ => .data barren) (o := order) () rfl rfl rfl
      rfl rfl nofun rfl
    obtain ⟨s, hs, -, he⟩ := (hiff _).mp ⟨hx, rfl⟩
    cases he
    exact ⟨⟨_, rfl, rfl⟩, s, hs, hflaws⟩
  next => cases hflaws

end Sample

end Harvest
