import Harvest.Data.Value
import Harvest.GraphQL.Document.Paths
import Harvest.Proofs.GraphQL.Names

/-!
# Routes

A path is a text; its keys make the route. The paths of a selection set are its routes, written with dots
(`allPaths_eq_dotted`). A name has no dots in it, so a path along names tells its route (`pathKeys_dotted`), and
different routes have different paths.

Routes are easier to reason about than paths: they are lists, so that a step down is a step in the list, and
equality is that of the keys one by one. All statements on paths are shown for routes first and carried over
by `allPaths_eq_dotted`, which needs that names have no dots in them.
-/

namespace Harvest.GraphQL

/-- The path along some keys. -/
def dotted (keys : List String) : String := ".".intercalate keys

theorem dotted_cons {p : List String} (h : p ≠ []) (n : String) :
    dotted (n :: p) = n ++ "." ++ dotted p := by
  obtain ⟨k, ks, rfl⟩ := List.exists_cons_of_ne_nil h
  exact String.intercalate_cons_cons ..

/-- **A path along names tells its keys.** -/
theorem pathKeys_dotted {p : List String} (hne : p ≠ []) (hnames : ∀ k ∈ p, IsName k) :
    Value.pathKeys (dotted p) = p := by
  have hsplit : (dotted p).toList.splitOn '.' = p.map String.toList := by
    rw [dotted, String.toList_intercalate]
    refine List.splitOn_intercalate '.' (fun cs hcs => ?_) (List.map_eq_nil_iff.not.mpr hne)
    -- all dots of the path stand between its keys
    obtain ⟨k, hk, rfl⟩ := List.mem_map.mp hcs
    exact fun hdot => absurd ((hnames k hk).isNameContinue hdot) (by decide)
  rw [Value.pathKeys, hsplit, List.map_map]
  exact List.map_id'' (fun _ => String.ofList_toList) p

namespace Selection

/-- Induction over a selection: a property holds of it if it passes from what stands directly below a
selection to the selection itself. -/
@[elab_as_elim, induction_eliminator]
theorem ind {motive : Selection → Prop}
    (field : ∀ label name args ds inner, (∀ s ∈ inner, motive s) → motive (.field label name args ds inner))
    (spread : ∀ name ds, motive (.spread name ds))
    (inline : ∀ on ds inner, (∀ s ∈ inner, motive s) → motive (.inline on ds inner)) : ∀ x, motive x
  | .field label name args ds inner =>
    field label name args ds inner fun s _ => ind field spread inline s
  | .spread name ds => spread name ds
  | .inline on ds inner => inline on ds inner fun s _ => ind field spread inline s

/-! ## Routes

The keys on the way to a leaf. An inline fragment has no key of its own. -/

mutual

/-- The keys on the way to each leaf of a selection. -/
def routes : Selection → List (List String)
  | .field label name _ _ inner =>
    match inner with
    | [] => [[responseKey label name]]
    | s :: ss => (routes s ++ allRoutes ss).map (responseKey label name :: ·)
  | .spread .. => []
  | .inline _ _ inner => allRoutes inner

/-- The keys on the way to each leaf of a selection set, in document order. -/
def allRoutes : List Selection → List (List String)
  | [] => []
  | s :: ss => routes s ++ allRoutes ss

end

variable {x : Selection} {xs inner : List Selection} {label : Option String} {name : String}
  {args : List Argument} {ds : List Directive} {p : List String}

theorem allRoutes_eq (xs : List Selection) : allRoutes xs = xs.flatMap routes := by
  induction xs with
  | nil => rfl
  | cons x xs ih => rw [allRoutes, ih, List.flatMap_cons]

theorem mem_allRoutes : p ∈ allRoutes xs ↔ ∃ x ∈ xs, p ∈ x.routes := by
  rw [allRoutes_eq, List.mem_flatMap]

/-- The routes of a field with a selection set lead through its key. -/
theorem routes_field (h : inner ≠ []) :
    (Selection.field label name args ds inner).routes
      = (allRoutes inner).map (responseKey label name :: ·) := by
  obtain ⟨y, ys, rfl⟩ := List.exists_cons_of_ne_nil h
  rfl

/-- A route of a field starts with its key, and ends there or goes on below it. -/
theorem exists_of_mem_routes_field (h : p ∈ (Selection.field label name args ds inner).routes) :
    ∃ q, p = responseKey label name :: q ∧ (q = [] ∨ q ∈ allRoutes inner) := by
  by_cases hne : inner = []
  · subst hne
    exact ⟨[], List.mem_singleton.mp h, .inl rfl⟩
  · rw [routes_field hne] at h
    obtain ⟨q, hq, rfl⟩ := List.mem_map.mp h
    exact ⟨q, rfl, .inr hq⟩

/-- The keys on the way to a leaf of a named selection are names. -/
theorem IsNamed.isName_of_mem_routes (h : x.IsNamed) (hp : p ∈ x.routes) : ∀ k ∈ p, IsName k := by
  induction h generalizing p with
  | field hkey hinner ih =>
      obtain ⟨q, rfl, rfl | hq⟩ := exists_of_mem_routes_field hp
      · exact List.forall_mem_singleton.mpr hkey
      · obtain ⟨y, hy, hq⟩ := mem_allRoutes.mp hq
        exact List.forall_mem_cons.mpr ⟨hkey, ih y hy hq⟩
  | spread => cases hp
  | inline hinner ih =>
      obtain ⟨y, hy, hp⟩ := mem_allRoutes.mp hp
      exact ih y hy hp

/-! ## Levels

What stands at one level of a selection set, with the inline fragments dissolved. -/

mutual

/-- The keys under which a selection appears; an inline fragment belongs to the level around it. -/
def keys : Selection → List String
  | .field label name _ _ _ => [responseKey label name]
  | .spread .. => []
  | .inline _ _ inner => allKeys inner

/-- The keys that are met at the level of a selection set. -/
def allKeys : List Selection → List String
  | [] => []
  | s :: ss => keys s ++ allKeys ss

end

theorem allKeys_eq (xs : List Selection) : allKeys xs = xs.flatMap keys := by
  induction xs with
  | nil => rfl
  | cons x xs ih => rw [allKeys, ih, List.flatMap_cons]

/-- A route starts at the level of its selection. -/
theorem exists_key_of_mem_routes (h : p ∈ x.routes) : ∃ k ∈ x.keys, ∃ q, p = k :: q := by
  induction x generalizing p with
  | field label name args ds inner ih =>
      obtain ⟨q, rfl, -⟩ := exists_of_mem_routes_field h
      exact ⟨_, List.mem_singleton_self _, q, rfl⟩
  | spread name ds => cases h
  | inline on ds inner ih =>
      obtain ⟨y, hy, hp⟩ := mem_allRoutes.mp h
      obtain ⟨k, hk, hq⟩ := ih y hy hp
      rw [keys, allKeys_eq]
      exact ⟨k, List.mem_flatMap_of_mem hy hk, hq⟩

theorem ne_nil_of_mem_routes (h : p ∈ x.routes) : p ≠ [] := by
  obtain ⟨k, -, q, rfl⟩ := exists_key_of_mem_routes h
  exact List.cons_ne_nil k q

/-! ## Paths

The texts that are made from the keys, with what stands before them. -/

theorem allPaths_eq (before : String) (xs : List Selection) :
    allPaths before xs = xs.flatMap (paths before) := by
  induction xs with
  | nil => rfl
  | cons x xs ih => rw [allPaths, ih, List.flatMap_cons]

/-- The paths of a field with a selection set go on after its key and a dot. -/
theorem paths_field (h : inner ≠ []) (before : String) :
    (Selection.field label name args ds inner).paths before
      = allPaths (before ++ responseKey label name ++ ".") inner := by
  obtain ⟨y, ys, rfl⟩ := List.exists_cons_of_ne_nil h
  rfl

/-- Where the paths of selections follow their routes, those of all of them do. -/
theorem allPaths_of_paths {before start : String}
    (h : ∀ x ∈ xs, x.paths before = x.routes.map fun p => start ++ dotted p) :
    allPaths before xs = (allRoutes xs).map fun p => start ++ dotted p := by
  rw [allPaths_eq, allRoutes_eq, List.map_flatMap]
  exact List.flatMap_congr h

/-- The paths of a selection follow its routes. -/
theorem paths_eq (x : Selection) (before : String) :
    x.paths before = x.routes.map fun p => before ++ dotted p := by
  induction x generalizing before with
  | field label name args ds inner ih =>
      by_cases hne : inner = []
      · subst hne
        simp [paths, routes, dotted]
      · have hroutes : ∀ q ∈ allRoutes inner, before ++ responseKey label name ++ "." ++ dotted q
            = before ++ dotted (responseKey label name :: q) := by
          intro q hq
          obtain ⟨y, -, hq⟩ := mem_allRoutes.mp hq
          rw [dotted_cons (ne_nil_of_mem_routes hq), String.append_assoc, String.append_assoc,
            String.append_assoc]
        rw [paths_field hne, routes_field hne, List.map_map, allPaths_of_paths fun y hy => ih y hy _]
        exact List.map_congr_left hroutes
  | spread name ds => rfl
  | inline on ds inner ih =>
      rw [paths, routes]
      exact allPaths_of_paths fun y hy => ih y hy before

/-- The paths of a selection set follow its routes, each after the beginning that is given. -/
theorem allPaths_eq_append (before : String) (xs : List Selection) :
    allPaths before xs = (allRoutes xs).map fun p => before ++ dotted p :=
  allPaths_of_paths fun x _ => x.paths_eq before

/-- **The paths of a selection set are its routes**, written with dots. -/
theorem allPaths_eq_dotted (xs : List Selection) : allPaths "" xs = (allRoutes xs).map dotted := by
  rw [allPaths_eq_append]
  exact List.map_congr_left fun _ _ => String.empty_append

/-- The path along a route of named selections tells the route. -/
theorem pathKeys_of_mem_allRoutes (hnamed : ∀ x ∈ xs, x.IsNamed) (hp : p ∈ allRoutes xs) :
    Value.pathKeys (dotted p) = p := by
  obtain ⟨x, hx, hp⟩ := mem_allRoutes.mp hp
  exact pathKeys_dotted (ne_nil_of_mem_routes hp) ((hnamed x hx).isName_of_mem_routes hp)

/-- Where no two routes of named selections are equal, no two paths are. -/
theorem nodup_allPaths_of_routes (hnamed : ∀ x ∈ xs, x.IsNamed) (h : (allRoutes xs).Nodup) :
    (allPaths "" xs).Nodup := by
  rw [allPaths_eq_dotted]
  refine h.map_on fun p hp q hq hpq => ?_
  rw [← pathKeys_of_mem_allRoutes hnamed hp, ← pathKeys_of_mem_allRoutes hnamed hq, hpq]

end Selection

end Harvest.GraphQL
