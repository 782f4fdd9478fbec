import Harvest.Entity.Record
import Harvest.Proofs.Entity.FragmentTexts
import Harvest.Proofs.GraphQL.Routes

/-!
# Paths as addresses

The paths of a selection set are made from its syntax and followed through the payload that answers it.
`allPaths_address` says that they fit: each path leads to the value of its leaf, and no two leaves share one.
Following a path goes down the payload as its route goes down the selection, so both parts are shown for
routes first; from routes to paths it is a matter of names, which have no dots in them. The identity of a record
is read along such paths, and `EntityRecord.identity_of_answers` says that it is what the entity answered.

An answer may hold more than was asked for, and in another order, so `Answers` only says what is found under
the keys of each selection. Distinctness is about keys at one level, where fields and the fields of inline
fragments stand side by side; from there `nodup_allRoutes` goes down the selection set.
-/

namespace Harvest

namespace GraphQL.Selection

variable {x : Selection} {xs : List Selection} {ms : Members} {vs : List Value}

/-! ## Answers

The relation has one case for each kind of selection, and the values of the leaves in their order. -/

/-- Whether an object answers a selection set, and which values it has for the leaves, in document order. It
has any value at the key of a leaf, and an object that answers the inner selection set at the key of another
field. What fragments elsewhere select may be in it or not. -/
inductive Answers : Members → List Selection → List Value → Prop
  | nil {ms : Members} : Answers ms [] []
  | leaf {ms : Members} {label : Option String} {name : String} {args : List Argument} {ds : List Directive}
      {xs : List Selection} {v : Value} {vs : List Value}
      (hv : Members.field? ms (responseKey label name) = some v) (hxs : Answers ms xs vs) :
      Answers ms (.field label name args ds [] :: xs) (v :: vs)
  | object {ms ns : Members} {label : Option String} {name : String} {args : List Argument}
      {ds : List Directive} {inner xs : List Selection} {us vs : List Value} (hne : inner ≠ [])
      (hns : Members.field? ms (responseKey label name) = some (.object ns)) (hinner : Answers ns inner us)
      (hxs : Answers ms xs vs) : Answers ms (.field label name args ds inner :: xs) (us ++ vs)
  | spread {ms : Members} {name : String} {ds : List Directive} {xs : List Selection} {vs : List Value}
      (hxs : Answers ms xs vs) : Answers ms (.spread name ds :: xs) vs
  | inline {ms : Members} {on : Option String} {ds : List Directive} {inner xs : List Selection}
      {us vs : List Value} (hinner : Answers ms inner us) (hxs : Answers ms xs vs) :
      Answers ms (.inline on ds inner :: xs) (us ++ vs)

namespace Answers

/-- The routes of a selection set lead to the values of its leaves. -/
theorem follow_routes (h : Answers ms xs vs) : (allRoutes xs).map (Value.object ms).follow = vs := by
  -- a leaf ends its route, an object takes the first key from the routes below it
  induction h with
  | nil => rfl
  | @leaf ms label name args ds xs v vs hv hxs ih =>
      have hleaf : (Value.object ms).follow [responseKey label name] = v := by
        rw [Value.follow_object, hv, Value.follow_nil, Option.getD_some]
      rw [allRoutes, List.map_append, ih]
      show [(Value.object ms).follow [responseKey label name]] ++ vs = v :: vs
      rw [hleaf, List.singleton_append]
  | @object ms ns label name args ds inner xs us vs hne hns hinner hxs ihinner ihxs =>
      have hbelow (q : List String) :
          (Value.object ms).follow (responseKey label name :: q) = (Value.object ns).follow q := by
        rw [Value.follow_object, hns, Option.getD_some]
      rw [allRoutes, List.map_append, ihxs, routes_field hne, List.map_map, ← ihinner]
      exact congrArg (· ++ vs) (List.map_congr_left fun q _ => hbelow q)
  | spread hxs ih => exact ih
  | inline hinner hxs ihinner ihxs => rw [allRoutes, routes, List.map_append, ihinner, ihxs]

/-- The paths of a named selection set lead to the values of its leaves. -/
theorem atPath_allPaths (h : Answers ms xs vs) (hnamed : ∀ x ∈ xs, x.IsNamed) :
    (allPaths "" xs).map (Value.object ms).atPath = vs := by
  have hroutes : ∀ p ∈ allRoutes xs, (Value.object ms).atPath (dotted p) = (Value.object ms).follow p := by
    intro p hp
    rw [Value.atPath, pathKeys_of_mem_allRoutes hnamed hp]
  rw [allPaths_eq_dotted, List.map_map, ← h.follow_routes]
  exact List.map_congr_left hroutes

end Answers

/-! ## Distinct keys

Two leaves with one route would have a key in common at some level. -/

/-- Whether no key is met twice at any level below a selection. -/
inductive IsDistinct : Selection → Prop
  | field {label : Option String} {name : String} {args : List Argument} {ds : List Directive}
      {inner : List Selection} (hkeys : (allKeys inner).Nodup) (hinner : ∀ s ∈ inner, IsDistinct s) :
      IsDistinct (.field label name args ds inner)
  | spread {name : String} {ds : List Directive} : IsDistinct (.spread name ds)
  | inline {on : Option String} {ds : List Directive} {inner : List Selection}
      (hinner : ∀ s ∈ inner, IsDistinct s) : IsDistinct (.inline on ds inner)

/-- Whether no key is met twice at any level of a selection set. -/
structure HasDistinctKeys (xs : List Selection) : Prop where
  here : (allKeys xs).Nodup
  below : ∀ x ∈ xs, x.IsDistinct

/-- Selections at one level that have no key in common have no route in common either. -/
theorem nodup_allRoutes_of_keys (hkeys : (allKeys xs).Nodup)
    (h : ∀ x ∈ xs, x.keys.Nodup → x.routes.Nodup) : (allRoutes xs).Nodup := by
  rw [allKeys_eq, List.nodup_flatMap] at hkeys
  rw [allRoutes_eq, List.nodup_flatMap]
  refine ⟨fun x hx => h x hx (hkeys.1 x hx), hkeys.2.imp ?_⟩
  -- a route in both would start with a key of both
  intro x y hdisjoint p hp hq
  obtain ⟨k, hk, q, rfl⟩ := exists_key_of_mem_routes hp
  obtain ⟨l, hl, r, heq⟩ := exists_key_of_mem_routes hq
  cases heq
  exact hdisjoint hk hl

/-- No route of a selection comes twice if no key does, at its own level or below. -/
theorem IsDistinct.nodup_routes (h : x.IsDistinct) (hkeys : x.keys.Nodup) : x.routes.Nodup := by
  induction h with
  | @field label name args ds inner hinner hbelow ih =>
      by_cases hne : inner = []
      · subst hne
        exact List.nodup_singleton _
      · rw [routes_field hne]
        exact (nodup_allRoutes_of_keys hinner ih).map List.cons_injective
  | spread => exact List.nodup_nil
  | inline hbelow ih => exact nodup_allRoutes_of_keys hkeys ih

/-- No two leaves of a selection set with distinct keys share a route. -/
theorem HasDistinctKeys.nodup_allRoutes (h : HasDistinctKeys xs) : (allRoutes xs).Nodup :=
  nodup_allRoutes_of_keys h.here fun x hx => (h.below x hx).nodup_routes

/-! ## Addresses

Both parts together, for paths. -/

/-- **The paths of a selection set address the payloads that answer it.** Where fields appear under names, as
they do in every text, and no key is met twice at a level, the paths lead to the values of the leaves, one by
one in document order; no two of them are equal; and a beginning that is given stands before each of them. -/
theorem allPaths_address (hnamed : ∀ x ∈ xs, x.IsNamed) (hdistinct : HasDistinctKeys xs) :
    (∀ ms vs, Answers ms xs vs → (allPaths "" xs).map (Value.object ms).atPath = vs)
      ∧ (allPaths "" xs).Nodup
      ∧ ∀ before, allPaths before xs = (allPaths "" xs).map (before ++ ·) := by
  have hnodup := nodup_allPaths_of_routes hnamed hdistinct.nodup_allRoutes
  refine ⟨fun ms vs h => h.atPath_allPaths hnamed, hnodup, fun before => ?_⟩
  rw [allPaths_eq_dotted, allPaths_eq_append, List.map_map]
  rfl

end GraphQL.Selection

namespace Sample

open GraphQL GraphQL.Selection

def portraitText : String :=
  "\x7b __typename id: entityId ... on Node \x7b\n"
    ++ "  entityLanguage \x7b id \x7d ...Extra author \x7b ... on Person \x7b name \x7d \x7d \x7d \x7d"

/-- A selection set with a label, and with fragments on two levels. -/
def portrait : List Selection :=
  [.plain "__typename" [], .field (some "id") "entityId" [] [] [],
    .inline (some "Node") [] [.plain "entityLanguage" [.plain "id" []], .spread "Extra" [],
      .plain "author" [.inline (some "Person") [] [.plain "name" []]]]]

/-- An answer to it, in another order and with more in it than is asked for. -/
def portraitData : Members :=
  [(.str "author", .record [("name", .null), ("age", .int 40)]), (.str "id", .int 7),
    (.str "entityLanguage", .record [("id", .str "en")]), (.str "extra", .bool true),
    (.str "__typename", .str "Node")]

theorem parse_portraitText :
    Document.parse portraitText = .ok [.operation ⟨none, .query, none, [], [], portrait⟩] := by
  rfl

theorem hasDistinctKeys_portrait : HasDistinctKeys portrait where
  here := by decide
  below := by
    have hleaf (label : Option String) (name : String) : (Selection.field label name [] [] []).IsDistinct :=
      .field .nil nofun
    simp only [portrait, Selection.plain, List.forall_mem_cons]
    refine ⟨hleaf _ _, hleaf _ _, .inline ?_, nofun⟩
    simp only [List.forall_mem_cons]
    refine ⟨.field (by decide) ?_, .spread, .field (by decide) ?_, nofun⟩
    · exact List.forall_mem_singleton.mpr (hleaf _ _)
    · exact List.forall_mem_singleton.mpr (.inline (List.forall_mem_singleton.mpr (hleaf _ _)))

theorem answers_portrait :
    Answers portraitData portrait [.str "Node", .int 7, .str "en", .null] :=
  .leaf rfl (.leaf rfl (.inline
    (.object (List.cons_ne_nil _ _) rfl (.leaf rfl .nil) (.spread
      (.object (List.cons_ne_nil _ _) rfl (.inline (.leaf rfl .nil) .nil) .nil))) .nil))

/-- The language and the author's name are found below the level that the fragments belong to. -/
theorem portrait_addressed :
    (∀ x ∈ portrait, x.IsNamed) ∧ HasDistinctKeys portrait
      ∧ allPaths "" portrait = ["__typename", "id", "entityLanguage.id", "author.name"]
      ∧ (allPaths "" portrait).map (Value.object portraitData).atPath
        = [.str "Node", .int 7, .str "en", .null]
      ∧ (allPaths "" portrait).Nodup
      ∧ allPaths "node." portrait = (allPaths "" portrait).map ("node." ++ ·) := by
  have hnamed : ∀ x ∈ portrait, x.IsNamed :=
    Document.isNamed_of_parse parse_portraitText _ List.mem_cons_self portrait rfl
  obtain ⟨hvalues, hnodup, hbefore⟩ := allPaths_address hnamed hasDistinctKeys_portrait
  exact ⟨hnamed, hasDistinctKeys_portrait, rfl, hvalues _ _ answers_portrait, hnodup, hbefore "node."⟩

end Sample

/-! ## Identities

The fragment that identifies an entity has three leaves, and their paths are fixed. -/

open GraphQL.Selection

/-- The paths of the fragment that identifies an entity are those under which nodes keep their identity. -/
theorem Listing.allPaths_identityFragment (typeName : String) :
    allPaths "" (identityFragment typeName).selections = identityPaths := rfl

/-- **A record is known by what its entity answers to the fragment that identifies it.** The language of the
listing stands in for an empty one. -/
theorem EntityRecord.identity_of_answers {r : EntityRecord} {typeName : String} {n i l : Value}
    (h : Answers r.data (Listing.identityFragment typeName).selections [n, i, l]) :
    r.identity = [n, i, if l.isTruthy then l else .str r.language] := by
  have hvalues := h.atPath_allPaths fun x hx => (Listing.identityFragment_bare typeName x hx).isNamed
  have htypename : (Value.object r.data).atPath "__typename" = r.typename := rfl
  have hid : (Value.object r.data).atPath "entityId" = r.entityId := rfl
  have hlanguage : r.entityLanguage
      = if ((Value.object r.data).atPath "entityLanguage.id").isTruthy
        then (Value.object r.data).atPath "entityLanguage.id" else .str r.language := rfl
  rw [Listing.allPaths_identityFragment, identityPaths, List.map_cons, List.map_cons, List.map_cons,
    List.map_nil] at hvalues
  obtain ⟨hn, hi, hl⟩ : _ ∧ _ ∧ _ := by simpa only [List.cons.injEq, and_true] using hvalues
  rw [identity, hlanguage, ← htypename, ← hid, hn, hi, hl]

end Harvest
