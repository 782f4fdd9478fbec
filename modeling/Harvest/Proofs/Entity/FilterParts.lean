import Harvest.Proofs.Entity.Filters
import Harvest.Proofs.GraphQL.RetainedParts

/-!
# Filters that are weakened

A filter that reaches its query need not reach it whole. What the type of the argument has no place for is
left out of the literal, and the listings are as many as the rest lets through: with a key that is misspelt
they are all of them (`Sample.misspelt_filter_weakened`).

`Listing.queries_retain` says that this is the only way in which a filter is weakened: a query carries the
whole filter exactly if the type accommodates it, and filters that are accommodated are never refused.

The relation between a value and a type was treated for literals in general
(`Harvest.Proofs.GraphQL.RetainedParts`). Here it is only carried over to the argument that takes the
filter: which argument that is, at which type, and what the query holds in its place.
-/

namespace Harvest

open GraphQL

namespace Listing

variable {s : Schema} {filter : ListingFilter} {d : Descriptor} {l : String} {ls : List String}

/-- Whether nothing of the filter for a language is lost: none is set, or the argument has a place for every
part of it. -/
def Suits (s : Schema) (filter : ListingFilter) (d : Descriptor) (l : String) : Prop :=
  (filter d l).isNull = true
    ∨ ∃ arg, filterArgument? s d = some arg ∧ Literal.Accommodates s arg.type (filter d l)

/-- What reaches a query is the whole filter exactly if the argument has a place for it. -/
theorem Reaches.retains_iff (hnames : ∀ t ∈ s.types, (t.inputFields.map InputValue.name).Nodup)
    (htree : (filter d l).isTree = true) {arg : InputValue} {x : Literal}
    (h : Reaches s filter d l (some x)) (harg : filterArgument? s d = some arg) :
    Literal.Retains (filter d l) x ↔ Literal.Accommodates s arg.type (filter d l) := by
  cases h with
  | written _ harg' hx =>
      cases harg.symm.trans harg'
      rw [← Literal.ofValue?_retains_iff hnames htree]
      refine ⟨fun hr => ⟨x, hx, hr⟩, ?_⟩
      rintro ⟨y, hy, hr⟩
      cases hx.symm.trans hy
      exact hr

/-- A filter that is accommodated is not refused. -/
theorem exists_query (hnames : ∀ t ∈ s.types, (t.inputFields.map InputValue.name).Nodup)
    (htree : (filter d l).isTree = true) (h : Suits s filter d l) : ∃ q, query s filter d l = .ok q := by
  suffices hliteral : ∃ x, filterLiteral s filter d l = .ok x from exists_bind hliteral fun _ => ⟨_, rfl⟩
  unfold filterLiteral
  dsimp only
  split
  next => exact ⟨none, rfl⟩
  next hv =>
    obtain ⟨arg, harg, hwhole⟩ := h.resolve_left hv
    obtain ⟨x, hx, -⟩ := (Literal.ofValue?_retains_iff hnames htree).mpr hwhole
    refine ⟨some x, ?_⟩
    rw [show (s.queryField? d.queryField).bind (·.arg? "filter") = some arg from harg]
    dsimp only
    rw [hx]

/-- **A query carries the whole of its filter exactly if the filter fits.** Where listings are made, every
part of the filter for a language has a counterpart in the query exactly if the argument has a place for
every part; and listings are made where no part of a filter is without one. -/
theorem queries_retain {data : Value} (hs : Schema.ofIntrospection data = .ok s)
    (htree : ∀ l ∈ ls, (filter d l).isTree = true) :
    (∀ qs, queries s filter d ls = .ok qs → List.Forall₂ (fun l q => Carries s filter d l q
        ∧ ∀ arg x, filterArgument? s d = some arg → q.argument? "filter" = some x →
          (Literal.Retains (filter d l) x ↔ Literal.Accommodates s arg.type (filter d l))) ls qs)
      ∧ ((∀ l ∈ ls, Suits s filter d l) → ∃ qs, queries s filter d ls = .ok qs) := by
  have hnames := inputFields_ofIntrospection hs
  refine ⟨fun qs h => ?_, fun h => exists_mapM fun l hl => exists_query hnames (htree l hl) (h l hl)⟩
  refine List.forall₂_iff_zip.mpr ⟨(mapM_ok h).length_eq, fun {l q} hlq => ?_⟩
  have hcarries := query_ok (List.forall₂_zip (mapM_ok h) hlq)
  refine ⟨hcarries, fun arg x harg hx => ?_⟩
  have hreaches := hcarries.reaches
  rw [hx] at hreaches
  exact hreaches.retains_iff hnames (htree l (List.of_mem_zip hlq).1) harg

end Listing

/-! ## A misspelt key

One key more than the type knows, and one less than it needs. -/

namespace Sample

/-- A remote whose nodes are filtered by conditions, of which there is one. -/
def conditional : Value :=
  .record [("__schema", .record [
    ("queryType", typeRef "OBJECT" "Query"),
    ("directives", .list []),
    ("types", .list [
      type "OBJECT" "Query" [] [field "nodeQuery" [argument "limit" "SCALAR" "Int",
        argument "offset" "SCALAR" "Int", argument "filter" "INPUT_OBJECT" "Conditions"]
        (typeRef "OBJECT" "EntityQueryResult")],
      type "OBJECT" "EntityQueryResult" [] [field "count" [] (typeRef "SCALAR" "Int")],
      type "OBJECT" "Node" [] [field "title" [] (typeRef "SCALAR" "String")],
      .record [("kind", .str "INPUT_OBJECT"), ("name", .str "Conditions"),
        ("inputFields", .list [argument "status" "SCALAR" "String"])],
      typeRef "SCALAR" "Int", typeRef "SCALAR" "String"])])]

def conditionalSchema : Schema := (Schema.ofIntrospection conditional).toOption.getD default

theorem ofIntrospection_conditional : Schema.ofIntrospection conditional = .ok conditionalSchema :=
  eq_ok_of_isSome (by decide +kernel)

/-- A filter of nodes by one condition under a key. -/
def filteredBy (key : String) : ListingFilter :=
  .byType [(.str "Node", .object [(.str key, .str "published")])]

/-- A condition under its key is carried. Under a key that is misspelt it is dropped, and the query asks
for all nodes. -/
theorem misspelt_filter_weakened :
    (∃ q x, Listing.queries conditionalSchema (filteredBy "status") numberedNode ["EN"] = .ok [q]
        ∧ q.argument? "filter" = some x ∧ Literal.Retains (filteredBy "status" numberedNode "EN") x)
      ∧ ∃ q, Listing.queries conditionalSchema (filteredBy "state") numberedNode ["EN"] = .ok [q]
        ∧ q.argument? "filter" = some (.object [])
        ∧ ¬Literal.Retains (filteredBy "state" numberedNode "EN") (.object []) := by
  have harg : Listing.filterArgument? conditionalSchema numberedNode
      = some ⟨"filter", .named "Conditions", false, false⟩ := by
    decide +kernel
  have ho : conditionalSchema.type? "Conditions"
      = some (.input ⟨"Conditions", [⟨"status", .named "String", false, false⟩], false⟩) := by
    decide +kernel
  have htree (key : String) : ∀ l ∈ ["EN"], (filteredBy key numberedNode l).isTree = true := fun _ _ => rfl
  -- both filters go through the same general result, and differ in whether the type accommodates them
  have hretain (key : String) := Listing.queries_retain ofIntrospection_conditional (htree key)
  constructor
  · have hfits : Literal.Accommodates conditionalSchema (.named "Conditions")
        (filteredBy "status" numberedNode "EN") := by
      refine .members ho (fun m hm => ?_) fun f hf w hw => ?_
      · cases List.mem_singleton.mp hm
        exact ⟨_, List.mem_cons_self, rfl⟩
      · cases List.mem_singleton.mp hf
        cases hw
        exact .scalar rfl (m := "String") (by decide +kernel) rfl
    obtain ⟨qs, hqs⟩ := (hretain "status").2 fun l hl => by
      cases List.mem_singleton.mp hl
      exact .inr ⟨_, harg, hfits⟩
    cases (hretain "status").1 qs hqs with
    | @cons _ q _ _ hq hrest =>
        cases hrest
        have hreaches := hq.1.reaches
        cases hx : q.argument? "filter" with
        | none =>
            rw [hx] at hreaches
            cases hreaches with
            | unset hv => cases hv
        | some x => exact ⟨q, x, hqs, hx, (hq.2 _ x harg hx).mpr hfits⟩
  · have hdropped : (Listing.queries conditionalSchema (filteredBy "state") numberedNode ["EN"]).toOption.map
        (fun qs => qs.map (·.argument? "filter")) = some [some (.object [])] := rfl
    obtain ⟨qs, hqs, hx⟩ := Option.map_eq_some_iff.mp hdropped
    have hqs := eq_ok_of_toOption hqs
    cases (hretain "state").1 qs hqs with
    | @cons _ q _ _ hq hrest =>
        cases hrest
        have hx := List.head_eq_of_cons_eq hx
        refine ⟨q, hqs, hx, fun hr => ?_⟩
        cases (hq.2 _ _ harg hx).mp hr with
        | members ho' hkeys =>
            cases ho.symm.trans ho'
            obtain ⟨f, hf, hname⟩ := hkeys _ List.mem_cons_self
            cases List.mem_singleton.mp hf
            exact absurd hname (by decide)
        | null _ hv => cases hv
        | scalar _ hm => cases ho.symm.trans hm
        | enum _ hm => cases ho.symm.trans hm

end Sample

end Harvest
