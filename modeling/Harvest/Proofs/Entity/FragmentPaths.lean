import Harvest.Proofs.Entity.FragmentTexts
import Harvest.Proofs.GraphQL.Routes

/-!
# Paths of default fragments

The type graph of a schema may have cycles, so that a type has fields at any depth. `make_paths` says which
of them the default fragment selects: the paths of the fragment are those that lead through objects and
interfaces to a leaf, a reference or a union, as long as the depth allows. They come depth-first in the
order of the fields, none of them twice, and only a type without any such path has no fragment.

On the side of the schema a path is a chain of fields (`Leads`) with something at its end (`Closes`). On the
side of the fragment it is a route through selections. `mem_routes_iff` says that they are the same by
induction on the depth: a route starts with the field that was selected, and goes on below it as the type of
the field allows.

The order is shown separately. The fields of a type are gone through in their order, so the routes of
different fields come in the order of the fields, and within one field the order is that of the level below.
-/

namespace Harvest

open GraphQL GraphQL.Schema

/-! ## Routes of bare selections

A plain field with selections below it leads to their routes, each after the name of the field. -/

namespace GraphQL.Selection

variable {x : Selection} {xs : List Selection} {n : String} {p : List String}

theorem routes_plain (h : xs ≠ []) : (plain n xs).routes = (allRoutes xs).map (n :: ·) := routes_field h

theorem mem_routes_plain (h : xs ≠ []) :
    p ∈ (plain n xs).routes ↔ ∃ q ∈ allRoutes xs, p = n :: q := by
  rw [routes_plain h, List.mem_map]
  exact exists_congr fun q => and_congr_right fun _ => eq_comm

theorem exists_of_mem_routes_plain (h : p ∈ (plain n xs).routes) : ∃ q, p = n :: q := by
  obtain ⟨q, hq, -⟩ := exists_of_mem_routes_field h
  exact ⟨q, hq⟩

/-- A bare selection leads to a leaf. -/
theorem IsBare.exists_mem_routes (h : x.IsBare) : ∃ p, p ∈ x.routes := by
  induction h with
  | @plain n xs hn hxs ih =>
      by_cases hne : xs = []
      · subst hne
        exact ⟨[n], List.mem_singleton_self _⟩
      · obtain ⟨y, hy⟩ := List.exists_mem_of_ne_nil xs hne
        obtain ⟨q, hq⟩ := ih y hy
        exact ⟨n :: q, (mem_routes_plain hne).mpr ⟨q, mem_allRoutes.mpr ⟨y, hy, hq⟩, rfl⟩⟩

end GraphQL.Selection

/-- The types that have fields are the composite ones but unions. -/
theorem GraphQL.TypeDef.isObject_or_isInterface_iff {b : TypeDef} :
    b.isObject = true ∨ b.isInterface = true ↔ b.isComposite = true ∧ b.isUnion = false := by
  cases b <;> simp [TypeDef.isComposite, TypeDef.isAbstract, TypeDef.isObject, TypeDef.isInterface,
    TypeDef.isUnion]

namespace DefaultFragment

variable {s : Schema} {sourced : List String} {depth : Nat} {t b u : TypeDef} {n : String}
  {p q : List String} {xs : List Selection}

/-! ## Paths through a schema

What the depth bounds is the number of fields that lead on; a path may be one longer. -/

/-- Whether a type has a field that needs no arguments, and of which type that field is. -/
def Offers (s : Schema) (t : TypeDef) (n : String) (b : TypeDef) : Prop :=
  ∃ f ∈ t.fields, f.name = n ∧ f.needsArguments = false ∧ s.base? f.type = some b

/-- Where fields lead that are of objects and interfaces which are not sourced. -/
inductive Leads (s : Schema) (sourced : List String) : TypeDef → List String → TypeDef → Prop
  | here {t : TypeDef} : Leads s sourced t [] t
  | through {t b u : TypeDef} {n : String} {p : List String} (hn : Offers s t n b)
      (hc : b.isObject = true ∨ b.isInterface = true) (hm : b.name ∉ sourced)
      (h : Leads s sourced b p u) : Leads s sourced t (n :: p) u

/-- What ends a path at a field of a type: nothing more below a leaf, the type name or the identifier below
a sourced type, and the type name below a union. -/
inductive Closes (sourced : List String) (b : TypeDef) : List String → Prop
  | leaf (hl : b.isLeaf = true) : Closes sourced b []
  | typeName (hm : b.name ∈ sourced) : Closes sourced b ["__typename"]
  | entityId (hm : b.name ∈ sourced) (hid : (b.field? "entityId").isSome = true) :
      Closes sourced b ["entityId"]
  | union (hu : b.isUnion = true) : Closes sourced b ["__typename"]

/-- Whether keys lead from a type to a leaf, to what is selected of a reference, or to the name of a type
in a union. -/
def IsPath (s : Schema) (sourced : List String) (t : TypeDef) (p : List String) : Prop :=
  ∃ before u n b rest, Leads s sourced t before u ∧ Offers s u n b ∧ Closes sourced b rest
    ∧ p = before ++ n :: rest

/-! ### Paths by their first key -/

/-- A path starts with a field, and either ends there or goes on below an object or interface. -/
theorem isPath_iff : IsPath s sourced t p ↔ ∃ n b q, p = n :: q ∧ Offers s t n b
    ∧ (Closes sourced b q ∨ (b.isObject = true ∨ b.isInterface = true) ∧ b.name ∉ sourced
      ∧ IsPath s sourced b q) := by
  constructor
  · rintro ⟨before, u, n, b, rest, hlead, hn, hclose, rfl⟩
    cases hlead with
    | here => exact ⟨n, b, rest, rfl, hn, .inl hclose⟩
    | @through _ b' _ n' p hn' hc hm hlead =>
        exact ⟨n', b', _, rfl, hn', .inr ⟨hc, hm, p, u, n, b, rest, hlead, hn, hclose, rfl⟩⟩
  · rintro ⟨n, b, q, rfl, hn, hclose | ⟨hc, hm, before, u, n', b', rest, hlead, hn', hclose, rfl⟩⟩
    · exact ⟨[], t, n, b, q, .here, hn, hclose, rfl⟩
    · exact ⟨n :: before, u, n', b', rest, .through hn hc hm hlead, hn', hclose, rfl⟩

theorem IsPath.ne_nil (h : IsPath s sourced t p) : p ≠ [] := by
  obtain ⟨n, b, q, rfl, -⟩ := isPath_iff.mp h
  exact List.cons_ne_nil n q

/-! ## What a fragment selects

The four ways to choose the selection of a field, each with its routes. -/

theorem mem_routes_identity : q ∈ Selection.allRoutes (identity b) ↔
    q = ["__typename"] ∨ q = ["entityId"] ∧ (b.field? "entityId").isSome = true := by
  rw [Selection.mem_allRoutes]
  constructor
  · rintro ⟨y, hy, hq⟩
    rcases mem_identity.mp hy with rfl | ⟨rfl, hid⟩
    · exact .inl (List.mem_singleton.mp hq)
    · exact .inr ⟨List.mem_singleton.mp hq, hid⟩
  · rintro (rfl | ⟨rfl, hid⟩)
    · exact ⟨_, mem_identity.mpr (.inl rfl), List.mem_singleton_self _⟩
    · exact ⟨_, mem_identity.mpr (.inr ⟨rfl, hid⟩), List.mem_singleton_self _⟩

theorem identity_ne_nil (b : TypeDef) : identity b ≠ [] := List.cons_ne_nil _ _

/-- **The routes of what is selected of a type** are its paths, as far as the depth allows. -/
theorem mem_routes_iff (hsrc : SourcesObjects s sourced) (h : selections s sourced depth t = .ok xs) :
    p ∈ Selection.allRoutes xs ↔ IsPath s sourced t p ∧ p.length ≤ depth + 1 := by
  -- below an object or interface that is followed the depth is one less
  induction depth using Nat.strongRecOn generalizing t xs p with
  | _ depth ih =>
      have hends (f : Field) (hf : f ∈ t.fields) (ha : f.needsArguments = false) (b : TypeDef)
          (hb : s.base? f.type = some b) {q : List String} (hclose : Closes sourced b q) :
          IsPath s sourced t (f.name :: q) :=
        isPath_iff.mpr ⟨f.name, b, q, rfl, ⟨f, hf, rfl, ha, hb⟩, .inl hclose⟩
      constructor
      · intro hp
        obtain ⟨x, hx, hp⟩ := Selection.mem_allRoutes.mp hp
        obtain ⟨f, hf, ha, hchosen⟩ := (mem_selections h).mp hx
        cases hchosen with
        | @leaf _ b hb hl =>
            cases List.mem_singleton.mp hp
            exact ⟨hends f hf ha b hb (.leaf hl), Nat.le_add_left 1 depth⟩
        | @reference d b hb hl hm hu =>
            obtain ⟨q, hq, rfl⟩ := (Selection.mem_routes_plain (identity_ne_nil b)).mp hp
            rcases mem_routes_identity.mp hq with rfl | ⟨rfl, hid⟩
            · exact ⟨hends f hf ha b hb (.typeName hm), Nat.le_add_left 2 d⟩
            · exact ⟨hends f hf ha b hb (.entityId hm hid), Nat.le_add_left 2 d⟩
        | @union d b hb hm hu =>
            cases List.mem_singleton.mp hp
            exact ⟨hends f hf ha b hb (.union hu), Nat.le_add_left 2 d⟩
        | @nested d b ys hb hl hm hu hys hne =>
            obtain ⟨q, hq, rfl⟩ := (Selection.mem_routes_plain hne).mp hp
            obtain ⟨hpath, hlength⟩ := (ih d (Nat.lt_succ_self d) hys).mp hq
            obtain ⟨y, hy⟩ := List.exists_mem_of_ne_nil ys hne
            obtain ⟨g, hg, -⟩ := (mem_selections hys).mp hy
            have hc := TypeDef.isObject_or_isInterface_iff.mpr ⟨(TypeDef.kind_of_mem_fields hg).1, hu⟩
            have hn : Offers s t f.name b := ⟨f, hf, rfl, ha, hb⟩
            exact ⟨isPath_iff.mpr ⟨f.name, b, q, rfl, hn, .inr ⟨hc, hm, hpath⟩⟩,
              Nat.succ_le_succ hlength⟩
      · rintro ⟨hpath, hlength⟩
        obtain ⟨n, b, q, rfl, ⟨f, hf, rfl, ha, hb⟩, hcases⟩ := isPath_iff.mp hpath
        have hmem := mem_of_type? hb
        suffices hchosen : ∃ x, Chosen s sourced f depth x ∧ f.name :: q ∈ x.routes by
          obtain ⟨x, hx, hq⟩ := hchosen
          exact Selection.mem_allRoutes.mpr ⟨x, (mem_selections h).mpr ⟨f, hf, ha, hx⟩, hq⟩
        -- whatever stands below the field takes one level of the depth
        have hbelow (hq : q ≠ []) : ∃ d, depth = d + 1 := by
          refine Nat.exists_eq_add_one_of_ne_zero ?_
          rintro rfl
          exact hq (List.eq_nil_of_length_eq_zero (Nat.le_zero.mp (Nat.le_of_succ_le_succ hlength)))
        have hreference (d : Nat) (hm : b.name ∈ sourced) :
            Chosen s sourced f (d + 1) (.plain f.name (identity b)) :=
          have hobject := hsrc b hmem hm
          .reference hb (TypeDef.isLeaf_of_isComposite (TypeDef.isComposite_of_isObject hobject)) hm
            (TypeDef.isUnion_of_isObject hobject)
        have hidentity {q : List String}
            (hq : q = ["__typename"] ∨ q = ["entityId"] ∧ (b.field? "entityId").isSome = true) :
            f.name :: q ∈ (Selection.plain f.name (identity b)).routes :=
          (Selection.mem_routes_plain (identity_ne_nil b)).mpr ⟨q, mem_routes_identity.mpr hq, rfl⟩
        rcases hcases with hclose | ⟨hc, hm, hpath⟩
        · cases hclose with
          | leaf hl => exact ⟨_, .leaf hb hl, List.mem_singleton_self _⟩
          | typeName hm =>
              obtain ⟨d, rfl⟩ := hbelow (List.cons_ne_nil _ _)
              exact ⟨_, hreference d hm, hidentity (.inl rfl)⟩
          | entityId hm hid =>
              obtain ⟨d, rfl⟩ := hbelow (List.cons_ne_nil _ _)
              exact ⟨_, hreference d hm, hidentity (.inr ⟨rfl, hid⟩)⟩
          | union hu =>
              obtain ⟨d, rfl⟩ := hbelow (List.cons_ne_nil _ _)
              have hm : b.name ∉ sourced := by
                intro hm
                rw [TypeDef.isUnion_of_isObject (hsrc b hmem hm)] at hu
                cases hu
              exact ⟨_, .union hb hm hu, List.mem_singleton_self _⟩
        · obtain ⟨d, rfl⟩ := hbelow hpath.ne_nil
          obtain ⟨ys, hys⟩ := selections_total hsrc d b
          have hq := (ih d (Nat.lt_succ_self d) hys).mpr ⟨hpath, Nat.le_of_succ_le_succ hlength⟩
          have hne : ys ≠ [] := by
            rintro rfl
            cases hq
          obtain ⟨hcomposite, hu⟩ := TypeDef.isObject_or_isInterface_iff.mp hc
          exact ⟨_, .nested hb (TypeDef.isLeaf_of_isComposite hcomposite) hm hu hys hne,
            (Selection.mem_routes_plain hne).mpr ⟨q, hq, rfl⟩⟩

/-! ## The order of paths

The order is that of the fields at the first key in which two paths differ. -/

/-- Which of two paths comes first, depth-first in the order of the fields: the one that starts with the
earlier field, or that comes first below the same field. -/
inductive Precedes (s : Schema) (sourced : List String) : TypeDef → List String → List String → Prop
  | field {t : TypeDef} {n m : String} {p q : List String}
      (h : [n, m].Sublist (t.fields.map Field.name)) : Precedes s sourced t (n :: p) (m :: q)
  | reference {t b : TypeDef} {n : String} (hn : Offers s t n b) (hm : b.name ∈ sourced) :
      Precedes s sourced t [n, "__typename"] [n, "entityId"]
  | inside {t b : TypeDef} {n : String} {p q : List String} (hn : Offers s t n b) (hm : b.name ∉ sourced)
      (h : Precedes s sourced b p q) : Precedes s sourced t (n :: p) (n :: q)

/-- No path comes before itself. -/
theorem Precedes.ne (hs : s.Unambiguous) (ht : t ∈ s.types) (h : Precedes s sourced t p q) : p ≠ q := by
  induction h with
  | @field t n m p q h =>
      intro heq
      have hnodup := (hs.fields t ht).sublist h
      rw [List.head_eq_of_cons_eq heq] at hnodup
      exact (List.nodup_cons.mp hnodup).1 List.mem_cons_self
  | reference => exact fun heq => absurd heq (by simp)
  | inside hn hm h ih =>
      obtain ⟨f, -, -, -, hb⟩ := hn
      exact fun heq => ih (mem_of_type? hb) (List.cons.inj heq).2

/-- What is selected of different fields comes in the order of the fields. -/
theorem pairwise_collectFields {select : Field → Except DefaultFragmentError (Option Selection)}
    {R : Selection → Selection → Prop} {fs : List Field} (h : collectFields select fs = .ok xs)
    (hR : ∀ f g x y, [f, g].Sublist fs → select f = .ok (some x) → select g = .ok (some y) → R x y) :
    xs.Pairwise R := by
  induction fs generalizing xs with
  | nil =>
      cases h
      exact .nil
  | cons f fs ih =>
      rw [collectFields] at h
      split at h
      next => cases h
      next o ho =>
        split at h
        next => cases h
        next ys hys =>
          cases h
          have hrest := ih hys fun f g x y hfg => hR f g x y (hfg.cons _)
          cases o with
          | none => exact hrest
          | some x =>
              refine List.pairwise_cons.mpr ⟨fun y hy => ?_, hrest⟩
              obtain ⟨g, hg, hgy⟩ := (mem_collectFields hys).mp hy
              exact hR f g x y ((List.singleton_sublist.mpr hg).cons_cons f) ho hgy

theorem exists_of_chosen {f : Field} {x : Selection} (h : Chosen s sourced f depth x) :
    ∃ ys, x = .plain f.name ys := by
  cases h <;> exact ⟨_, rfl⟩

/-- **The routes of what is selected of a type** come in the order of paths. -/
theorem pairwise_routes (h : selections s sourced depth t = .ok xs) :
    (Selection.allRoutes xs).Pairwise (Precedes s sourced t) := by
  -- on the depth: a nested selection is made with less of it
  induction depth using Nat.strongRecOn generalizing t xs with
  | _ depth ih =>
      rw [Selection.allRoutes_eq, List.pairwise_flatMap]
      constructor
      · -- below one field
        intro x hx
        obtain ⟨f, hf, ha, hchosen⟩ := (mem_selections h).mp hx
        cases hchosen with
        | leaf => exact List.pairwise_singleton _ _
        | union => exact List.pairwise_singleton _ _
        | @reference d b hb hl hm hu =>
            rw [Selection.routes_plain (identity_ne_nil b), identity]
            split
            next =>
              refine List.pairwise_cons.mpr ⟨fun q hq => ?_, List.pairwise_singleton _ _⟩
              cases List.mem_singleton.mp hq
              exact .reference ⟨f, hf, rfl, ha, hb⟩ hm
            next => exact List.pairwise_singleton _ _
        | @nested d b ys hb hl hm hu hys hne =>
            rw [Selection.routes_plain hne, List.pairwise_map]
            exact (ih d (Nat.lt_succ_self d) hys).imp fun h => .inside ⟨f, hf, rfl, ha, hb⟩ hm h
      · -- below different fields
        rw [selections_eq] at h
        refine pairwise_collectFields h fun f g x y hfg hx hy p hp q hq => ?_
        obtain ⟨ys, rfl⟩ := exists_of_chosen (chosen_of_fieldSelection hx).2
        obtain ⟨zs, rfl⟩ := exists_of_chosen (chosen_of_fieldSelection hy).2
        obtain ⟨p, rfl⟩ := Selection.exists_of_mem_routes_plain hp
        obtain ⟨q, rfl⟩ := Selection.exists_of_mem_routes_plain hq
        exact .field (hfg.map Field.name)

/-! ## Paths of fragments

All of it in one statement, with the condition for there being a fragment at all. -/

/-- **What a default fragment selects.** The paths of the default fragment of an object type are those
through objects and interfaces that are not sourced to a leaf, a reference or a union, down to the depth.
They come depth-first in the order of the fields, and none occurs twice. Only a type without such a path
has no fragment. -/
theorem make_paths {data : Value} (hs : Schema.ofIntrospection data = .ok s) {typeName : String}
    (ht : s.type? typeName = some t) (hobject : t.isObject = true) (hsrc : SourcesObjects s sourced)
    (maxDepth : Int) :
    (∃ fragment, ∃ routes : List (List String), make s sourced maxDepth typeName = .ok fragment
        ∧ text s sourced maxDepth typeName = .ok (fragment.print ++ "\n")
        ∧ Selection.allPaths "" fragment.selections = routes.map dotted
        ∧ (∀ p, p ∈ routes ↔ IsPath s sourced t p ∧ (p.length : Int) - 1 ≤ max maxDepth 0)
        ∧ routes.Pairwise (Precedes s sourced t)
        ∧ (Selection.allPaths "" fragment.selections).Nodup ∧ routes ≠ [])
      ∨ make s sourced maxDepth typeName = .error (.problem .noFields)
        ∧ text s sourced maxDepth typeName = .error (.problem .noFields)
        ∧ ∀ p, IsPath s sourced t p → max maxDepth 0 < (p.length : Int) - 1 := by
  have hmem := mem_of_type? ht
  obtain ⟨xs, hxs⟩ := selections_total hsrc maxDepth.toNat t
  have hbare := bare_of_selections (wellNamed_ofIntrospection hs) hmem hxs
  -- the selection made at this depth lists the allowed paths; a fragment exists iff there is one
  have hroutes (p : List String) : p ∈ Selection.allRoutes xs
      ↔ IsPath s sourced t p ∧ (p.length : Int) - 1 ≤ max maxDepth 0 := by
    rw [mem_routes_iff hsrc hxs]
    exact and_congr_right fun _ => by omega
  have hordered := pairwise_routes hxs
  by_cases hne : xs = []
  · have hmake : make s sourced maxDepth typeName = .error (.problem .noFields) := by
      rw [make_eq ht hobject hxs, if_pos hne]
    refine .inr ⟨hmake, ?_, fun p hp => ?_⟩
    · rw [text_eq ht hobject hxs, if_pos hne]
    · by_contra hnot
      have hp := (hroutes p).mpr ⟨hp, not_lt.mp hnot⟩
      rw [hne] at hp
      cases hp
  · have hmake : make s sourced maxDepth typeName = .ok ⟨none, typeName, typeName, [], xs⟩ := by
      rw [make_eq ht hobject hxs, if_neg hne]
    have hpaths := Selection.allPaths_eq_dotted xs
    refine .inl ⟨_, Selection.allRoutes xs, hmake, ?_, hpaths, hroutes, hordered, ?_, ?_⟩
    · rw [text_eq ht hobject hxs, if_neg hne]
    · show (Selection.allPaths "" xs).Nodup
      have hdistinct : (Selection.allRoutes xs).Nodup :=
        hordered.imp fun h => h.ne (unambiguous_ofIntrospection hs) hmem
      exact Selection.nodup_allPaths_of_routes (fun x hx => (hbare x hx).isNamed) hdistinct
    · obtain ⟨x, hx⟩ := List.exists_mem_of_ne_nil xs hne
      obtain ⟨p, hp⟩ := (hbare x hx).exists_mem_routes
      exact List.ne_nil_of_mem (Selection.mem_allRoutes.mpr ⟨x, hx, hp⟩)

end DefaultFragment

/-! ## Types that lead to each other

A small graph with a cycle and with each of the four ways to end. -/

namespace Sample

open DefaultFragment

/-- A remote where a node has an author who has nodes, refers to a term, shows one of several things and
can be searched for a key. -/
def cyclic : Value :=
  .record [("__schema", .record [
    ("queryType", typeRef "OBJECT" "Query"),
    ("directives", .list []),
    ("types", .list [
      type "OBJECT" "Query" [] [listing "nodeQuery", listing "termQuery"],
      type "OBJECT" "EntityQueryResult" [] [field "count" [] (typeRef "SCALAR" "Int")],
      type "OBJECT" "Node" [] [field "title" [] (typeRef "SCALAR" "String"),
        field "author" [] (typeRef "OBJECT" "Person"), field "term" [] (typeRef "OBJECT" "Term"),
        field "shown" [] (typeRef "UNION" "Thing"),
        field "search" [.record [("name", .str "key"), ("type",
          .record [("kind", .str "NON_NULL"), ("ofType", typeRef "SCALAR" "String")])]]
          (typeRef "SCALAR" "String")],
      type "OBJECT" "Person" [] [field "name" [] (typeRef "SCALAR" "String"),
        field "node" [] (typeRef "OBJECT" "Node")],
      type "OBJECT" "Term" [] [field "name" [] (typeRef "SCALAR" "String"),
        field "entityId" [] (typeRef "SCALAR" "String")],
      type "UNION" "Thing" [] [],
      typeRef "SCALAR" "Int", typeRef "SCALAR" "String"])])]

def cyclicSchema : Schema := (Schema.ofIntrospection cyclic).toOption.getD default

theorem ofIntrospection_cyclic : Schema.ofIntrospection cyclic = .ok cyclicSchema :=
  eq_ok_of_isSome (by decide +kernel)

/-- Down to the depth of two, the fragment of a node leads to its author's node and no further. -/
theorem cyclic_fragment_paths :
    ∃ t fragment, cyclicSchema.type? "Node" = some t
      ∧ make cyclicSchema ["Term"] 2 "Node" = .ok fragment
      ∧ Selection.allPaths "" fragment.selections = ["title", "author.name", "author.node.title",
        "term.__typename", "term.entityId", "shown.__typename"]
      ∧ ∀ p, IsPath cyclicSchema ["Term"] t p → p.length ≤ 3 →
        dotted p ∈ Selection.allPaths "" fragment.selections := by
  have hsrc : SourcesObjects cyclicSchema ["Term"] := by
    unfold SourcesObjects
    decide +kernel
  obtain ⟨t, ht, hobject⟩ : ∃ t, cyclicSchema.type? "Node" = some t ∧ t.isObject = true :=
    Option.map_eq_some_iff.mp (by decide +kernel)
  have hlisted : (make cyclicSchema ["Term"] 2 "Node").toOption.map
      (fun fragment => Selection.allPaths "" fragment.selections)
      = some ["title", "author.name", "author.node.title", "term.__typename", "term.entityId",
        "shown.__typename"] := by
    decide +kernel
  obtain ⟨fragment, routes, hmake, -, hpaths, hroutes, -⟩ | ⟨hmake, -⟩ :=
    make_paths ofIntrospection_cyclic ht hobject hsrc 2
  · rw [hmake] at hlisted
    refine ⟨t, fragment, ht, hmake, Option.some.inj hlisted, fun p hp hlength => ?_⟩
    rw [hpaths]
    exact List.mem_map_of_mem ((hroutes p).mpr ⟨hp, by omega⟩)
  · rw [hmake] at hlisted
    cases hlisted

end Sample

end Harvest
