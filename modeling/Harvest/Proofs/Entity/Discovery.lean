import Harvest.Proofs.Entity.EntityTypes
import Harvest.Proofs.GraphQL.SchemaNames
import Harvest.Proofs.Plan.Coherence
import Mathlib.Data.List.Induction

/-!
# Which types are entity types

A query field lists a type when it is named after it and gives a listing result; under the name of an
abstract type it lists the objects behind it. `Discovered` says what follows from that for the list of all
entity types: which types are on it, what each is described with, and in which order they come.
`entityTypes_discovered` is that discovery gives this list.

Discovery goes through the query fields and, for each, through the objects behind its type, and keeps a type
when it comes for the first time. So the list is that of the first occurrences in a longer one, in which
every finding has two places: the number of the query field, and the number of the object behind it.
`placedEntities` is this longer list with the places written beside it, and it is sorted by them
(`pairwise_placedEntities`). What `Discovered` says about first fields and about the order is then a
statement on the first of its kind in a sorted list.
-/

namespace Harvest

open GraphQL GraphQL.Schema

/-! ## What discovery promises

A field asks for a type by its name and by its own type. Both have to be right, and only the objects behind
the type come on the list. -/

/-- Whether a query field asks for listings of a type: it is named after the type, and its own type is
that of listings, required or not, but no list of them. -/
structure GraphQL.Field.AsksFor (s : Schema) (f : Field) (t : TypeDef) : Prop where
  name : ∃ p, p ≠ "" ∧ f.name = p ++ "Query" ∧ s.type? (Text.upperFirst p) = some t
  result : f.type = .named listingResult ∨ f.type = .nonNull (.named listingResult)

/-- Whether objects of a type are found under another: it is that type itself, or one of those behind an
interface or union. -/
def GraphQL.Schema.Behind (s : Schema) (t : TypeDef) (n : String) : Prop :=
  t.isObject = true ∧ t.name = n ∨ t.isAbstract = true ∧ n ∈ s.possibleTypes t

/-- Whether a query field lists an object type, under a type that it asks for. -/
structure GraphQL.Field.Lists (s : Schema) (f : Field) (t : TypeDef) (n : String) : Prop where
  asksFor : f.AsksFor s t
  behind : s.Behind t n

/-- Where an object type is listed first: by which field, under which type, at which place among the
query fields and at which among the objects behind that type. -/
structure FirstListed (s : Schema) (n : String) (f : Field) (t : TypeDef) (i j : Nat) : Prop where
  field : s.queryFields[i]? = some f
  lists : f.Lists s t n
  first : ∀ k < i, ∀ g, s.queryFields[k]? = some g → ∀ u, ¬g.Lists s u n
  place : j = (s.possibleTypes t).idxOf n

/-- The entity type that a field lists under a type. -/
def Descriptor.found (f : Field) (t : TypeDef) (languages : List String) (n : String) : Descriptor :=
  { typeName := n, queryField := f.name, languages, expanded := t.isAbstract,
    abstractType := if t.isAbstract then some t.name else none }

/-- What the list of all entity types is. -/
structure Discovered (s : Schema) (languages : List String) (ds : List Descriptor) : Prop where
  nodup : (ds.map Descriptor.typeName).Nodup
  isObject : ∀ d ∈ ds, ∃ t, s.type? d.typeName = some t ∧ t.isObject = true
  listed_iff : ∀ n, n ∈ ds.map Descriptor.typeName ↔ ∃ f ∈ s.queryFields, ∃ t, f.Lists s t n
  described : ∀ d ∈ ds, ∃ f t i j,
    FirstListed s d.typeName f t i j ∧ d = .found f t languages d.typeName
  ordered : ds.Pairwise fun d e => ∀ f t i j g u k l,
    FirstListed s d.typeName f t i j → FirstListed s e.typeName g u k l → i < k ∨ i = k ∧ j < l

/-! ## Names of query fields

The name of a query field is the name of a type, with its first letter in lower case, and an ending. -/

theorem text_eq_append_iff {n p q : String} : n = p ++ q ↔ n.toList = p.toList ++ q.toList := by
  rw [← String.toList_append, String.toList_inj]

/-- On one line, the part before the ending is what the ending is put to. -/
theorem queryPrefix?_eq_some_iff {n p : String} (hn : '\n' ∉ n.toList) :
    queryPrefix? n = some p ↔ p ≠ "" ∧ n = p ++ "Query" := by
  -- a name has no line end, so the end of the text is where the suffix must stand
  have hline : n.toList.getLast? ≠ some '\n' := fun h => hn (List.mem_of_getLast? h)
  have htake (cs : List Char) :
      (cs ++ "Query".toList).take ((cs ++ "Query".toList).length - "Query".toList.length) = cs := by
    rw [List.length_append, Nat.add_sub_cancel, List.take_left]
  unfold queryPrefix?
  simp only [if_neg hline]
  rw [text_eq_append_iff]
  constructor
  · intro h
    split at h
    next hsuffix =>
      obtain ⟨cs, hcs⟩ := List.isSuffixOf_iff_suffix.mp hsuffix
      rw [← hcs, htake] at h
      split at h
      · cases h
      next hempty =>
        cases h
        rw [String.toList_ofList]
        refine ⟨fun hp => hempty (.inl ?_), hcs.symm⟩
        rw [List.isEmpty_iff, ← String.toList_ofList (l := cs), hp]
        rfl
    next => cases h
  · rintro ⟨hp, hcs⟩
    rw [if_pos (List.isSuffixOf_iff_suffix.mpr ⟨p.toList, hcs.symm⟩), hcs, htake, if_neg,
      String.ofList_toList]
    rintro (hempty | hmem)
    · exact hp (String.toList_eq_nil_iff.mp (List.isEmpty_iff.mp hempty))
    · exact hn (hcs ▸ List.mem_append_left _ hmem)

/-! ## What a query field lists

For one field: whether it asks for a type, for which one, and which objects are behind it. The names of a
schema that was read mean one thing, which is needed whenever a field or a type is looked up. -/

section Fields

variable {s : Schema} {f : Field} {t u : TypeDef} {n : String} {languages : List String}

/-- What discovery needs of a schema: its names are unambiguous, and proper. -/
structure GraphQL.Schema.Legible (s : Schema) : Prop where
  unambiguous : s.Unambiguous
  wellNamed : s.WellNamed

theorem legible_ofIntrospection {data : Value} (h : Schema.ofIntrospection data = .ok s) : s.Legible :=
  ⟨unambiguous_ofIntrospection h, wellNamed_ofIntrospection h⟩

/-- Query fields are the fields of the query root. -/
theorem mem_queryFields (hf : f ∈ s.queryFields) : ∃ root ∈ s.types, s.queryType? = some root ∧ f ∈ root.fields := by
  unfold queryFields at hf
  cases hroot : s.queryType? with
  | none => rw [hroot] at hf; cases hf
  | some root =>
      rw [hroot] at hf
      obtain ⟨n, -, hn⟩ := Option.bind_eq_some_iff.mp hroot
      exact ⟨root, mem_of_type? hn, rfl, hf⟩

/-- A query field is found by its name. -/
theorem GraphQL.Schema.Legible.queryField?_name (hs : s.Legible) (hf : f ∈ s.queryFields) :
    s.queryField? f.name = some f := by
  obtain ⟨root, hmem, hroot, hfield⟩ := mem_queryFields hf
  rw [queryField?, queryFields, hroot]
  exact hs.unambiguous.field?_name hmem hfield

theorem GraphQL.Schema.Legible.isName_queryField (hs : s.Legible) (hf : f ∈ s.queryFields) : IsName f.name := by
  obtain ⟨root, hmem, -, hfield⟩ := mem_queryFields hf
  exact ((hs.wellNamed root hmem).fields f hfield).name

theorem line_end_not_mem (hn : IsName n) : '\n' ∉ n.toList :=
  fun h => absurd (hn.isNameContinue h) (by decide)

/-- The type of a field, without a wrapper that makes it required. -/
theorem nullable_eq_named_iff {r : TypeRef} :
    r.nullable.named? = some n ↔ r = .named n ∨ r = .nonNull (.named n) := by
  cases r with
  | named m => simp [TypeRef.nullable, TypeRef.named?]
  | list item => simp [TypeRef.nullable, TypeRef.named?]
  | nonNull r => cases r <;> simp [TypeRef.nullable, TypeRef.named?]

theorem type?_name {m : String} (h : s.type? m = some t) : t.name = m :=
  eq_of_beq (List.find?_some (p := fun t : TypeDef => t.name == m) h)

/-- The type that a field asks for is found by the name of the field, if it is a composite one. -/
theorem entityType?_eq_some_iff (hs : s.Legible) (hf : f ∈ s.queryFields) :
    entityType? s f.name = some n ↔ ∃ t, f.AsksFor s t ∧ t.isComposite = true ∧ t.name = n := by
  have hline := line_end_not_mem (hs.isName_queryField hf)
  unfold entityType?
  constructor
  · intro h
    obtain ⟨p, hp, h⟩ := Option.bind_eq_some_iff.mp h
    obtain ⟨field, hfield, h⟩ := Option.bind_eq_some_iff.mp h
    rw [hs.queryField?_name hf] at hfield
    cases hfield
    obtain ⟨result, hresult, hrest⟩ := Option.bind_eq_some_iff.mp h
    split at hrest
    · cases hrest
    next hlisting =>
      obtain ⟨t, ht, h⟩ := Option.bind_eq_some_iff.mp hrest
      split at h
      next hcomposite =>
        cases h
        obtain ⟨hne, hname⟩ := (queryPrefix?_eq_some_iff hline).mp hp
        refine ⟨t, ⟨⟨p, hne, hname, ht⟩, ?_⟩, hcomposite, type?_name ht⟩
        rw [← nullable_eq_named_iff, ← not_ne_iff.mp hlisting]
        exact hresult
      next => cases h
  · rintro ⟨t, ⟨⟨p, hne, hname, ht⟩, hresult⟩, hcomposite, rfl⟩
    have hp : queryPrefix? f.name = some p := (queryPrefix?_eq_some_iff hline).mpr ⟨hne, hname⟩
    have hlisting : f.type.nullable.named? = some listingResult := nullable_eq_named_iff.mpr hresult
    simp only [hp, hs.queryField?_name hf, hlisting, Option.bind_eq_bind, Option.bind_some,
      ne_eq, not_true_eq_false, if_false, ht, hcomposite, if_true, type?_name ht]

/-- A field asks for one type only. -/
theorem GraphQL.Field.AsksFor.unique (ht : f.AsksFor s t) (hu : f.AsksFor s u) : t = u := by
  obtain ⟨p, -, hp, ht⟩ := ht.name
  obtain ⟨q, -, hq, hu⟩ := hu.name
  rw [hp, text_eq_append_iff, String.toList_append, List.append_cancel_right_eq, String.toList_inj] at hq
  subst hq
  exact Option.some.inj (ht.symm.trans hu)

/-! ### The objects of a field

An object lists itself, a union its members, and an interface the objects that implement it. -/

/-- The objects behind a composite type are its possible types. -/
theorem behind_iff (ht : t.isComposite = true) : s.Behind t n ↔ n ∈ s.possibleTypes t := by
  cases t with
  | object m is fs => simp [Behind, TypeDef.isObject, TypeDef.isAbstract, TypeDef.isInterface,
      TypeDef.isUnion, TypeDef.name, possibleTypes, eq_comm]
  | interface m is fs => simp [Behind, TypeDef.isObject, TypeDef.isAbstract, TypeDef.isInterface]
  | union m ms => simp [Behind, TypeDef.isObject, TypeDef.isAbstract, TypeDef.isUnion]
  | _ => cases ht

theorem isComposite_of_behind (h : s.Behind t n) : t.isComposite = true := by
  rw [TypeDef.isComposite, Bool.or_eq_true]
  exact h.imp And.left And.left

/-- What a query field lists, in the order of the objects behind the type that it asks for. -/
theorem fieldEntities_of_asksFor (hs : s.Legible) (hf : f ∈ s.queryFields) (ht : f.AsksFor s t)
    (hcomposite : t.isComposite = true) :
    fieldEntities s languages f.name = (s.possibleTypes t).map (.found f t languages) := by
  have hname : entityType? s f.name = some t.name :=
    (entityType?_eq_some_iff hs hf).mpr ⟨t, ht, hcomposite, rfl⟩
  obtain ⟨p, -, -, hp⟩ := ht.name
  have htype : s.type? t.name = some t := hs.unambiguous.type?_name (mem_of_type? hp)
  have habstract : s.isAbstract t.name = t.isAbstract := by rw [isAbstract, htype]
  unfold fieldEntities
  rw [hname]
  dsimp only
  rw [habstract]
  split
  next h =>
    rw [implementors, htype]
    dsimp only
    rw [if_pos h]
    refine List.map_congr_left fun n _ => ?_
    rw [Descriptor.found, h]
    rfl
  next h =>
    cases t with
    | object m is fs => rfl
    | interface m is fs => exact absurd rfl h
    | union m ms => exact absurd rfl h
    | _ => cases hcomposite

/-- A field that asks for no composite type lists nothing. -/
theorem fieldEntities_eq_nil (hs : s.Legible) (hf : f ∈ s.queryFields)
    (h : ∀ t, f.AsksFor s t → t.isComposite = false) : fieldEntities s languages f.name = [] := by
  cases hname : entityType? s f.name with
  | none => rw [fieldEntities, hname]
  | some n =>
      obtain ⟨t, ht, hcomposite, -⟩ := (entityType?_eq_some_iff hs hf).mp hname
      rw [h t ht] at hcomposite
      cases hcomposite

/-- What a query field lists at a place: the object there, under the type that it asks for. -/
theorem getElem?_fieldEntities (hs : s.Legible) (hf : f ∈ s.queryFields) {j : Nat} {d : Descriptor} :
    (fieldEntities s languages f.name)[j]? = some d ↔
      ∃ t, f.Lists s t d.typeName ∧ (s.possibleTypes t)[j]? = some d.typeName
        ∧ d = .found f t languages d.typeName := by
  constructor
  · intro h
    by_cases hasks : ∃ t, f.AsksFor s t ∧ t.isComposite = true
    · obtain ⟨t, ht, hcomposite⟩ := hasks
      rw [fieldEntities_of_asksFor hs hf ht hcomposite, List.getElem?_map] at h
      obtain ⟨n, hn, rfl⟩ := Option.map_eq_some_iff.mp h
      exact ⟨t, ⟨ht, (behind_iff hcomposite).mpr (List.mem_of_getElem? hn)⟩, hn, rfl⟩
    · rw [fieldEntities_eq_nil hs hf fun t ht => Bool.eq_false_iff.mpr fun hc => hasks ⟨t, ht, hc⟩] at h
      cases h
  · rintro ⟨t, ht, hn, hd⟩
    rw [fieldEntities_of_asksFor hs hf ht.asksFor (isComposite_of_behind ht.behind), List.getElem?_map, hn,
      hd]
    rfl

end Fields

/-! ## First occurrences

What is kept when only the first finding of each type counts, for any list of findings. -/

section Distinct

variable {τ : Type} {R : τ → τ → Prop} {xs : List (τ × Descriptor)}

theorem distinctTypes_concat (ds : List Descriptor) (d : Descriptor) :
    distinctTypes (ds ++ [d]) = addDistinct (distinctTypes ds) d := by
  rw [distinctTypes_eq, List.foldl_append]
  rfl

/-- The descriptors that are kept are the first ones of their types: of those that stand in order, each
comes with one that is kept, or is it. -/
theorem exists_first (h : xs.Pairwise fun x y => R x.1 y.1) :
    ∃ ys : List (τ × Descriptor), ys.Sublist xs ∧ ys.map Prod.snd = distinctTypes (xs.map Prod.snd)
      ∧ ∀ x ∈ xs, ∃ y ∈ ys, y.2.typeName = x.2.typeName ∧ (y = x ∨ R y.1 x.1) := by
  induction xs using List.reverseRecOn with
  | nil => exact ⟨[], List.Sublist.refl _, rfl, nofun⟩
  | append_singleton xs x ih =>
      obtain ⟨hxs, -, hlast⟩ := List.pairwise_append.mp h
      obtain ⟨ys, hsub, hmap, hfirst⟩ := ih hxs
      rw [List.map_append, List.map_singleton, distinctTypes_concat, ← hmap, addDistinct]
      split
      next hany =>
        refine ⟨ys, hsub.trans (List.sublist_append_left xs [x]), rfl, fun z hz => ?_⟩
        rcases List.mem_append.mp hz with hz | hz
        · exact hfirst z hz
        · cases List.mem_singleton.mp hz
          obtain ⟨d, hd, hname⟩ := List.any_eq_true.mp hany
          obtain ⟨y, hy, rfl⟩ := List.mem_map.mp hd
          exact ⟨y, hy, eq_of_beq hname, .inr (hlast y (hsub.subset hy) x List.mem_cons_self)⟩
      next =>
        refine ⟨ys ++ [x], hsub.append (List.Sublist.refl _), List.map_append, fun z hz => ?_⟩
        rcases List.mem_append.mp hz with hz | hz
        · obtain ⟨y, hy, hyz⟩ := hfirst z hz
          exact ⟨y, List.mem_append_left _ hy, hyz⟩
        · exact ⟨z, List.mem_append_right _ hz, rfl, .inl rfl⟩

end Distinct

/-! ## The places of findings

The list of all findings in their order, with the places at which they were made. -/

section Places

variable {s : Schema} {languages : List String} {f g : Field} {t u : TypeDef} {n : String} {d : Descriptor}
  {i j k l : Nat}

/-- All that the query fields list, each with its places: among the query fields, and among what its field
lists. -/
def placedEntities (s : Schema) (languages : List String) : List ((Nat × Nat) × Descriptor) :=
  s.queryFields.zipIdx.flatMap fun f =>
    (fieldEntities s languages f.1.name).zipIdx.map fun d => ((f.2, d.2), d.1)

/-- Whether one place comes before another. -/
def PlacedBefore (p q : Nat × Nat) : Prop := p.1 < q.1 ∨ p.1 = q.1 ∧ p.2 < q.2

/-! ### Findings and their places

Places are compared field by field and, within a field, object by object. A type that is found twice goes by
its first place, so that the list of entity types is in the order of these. -/

/-- A finding is at its places if the field lists it there. -/
theorem mem_placedEntities : ((i, j), d) ∈ placedEntities s languages ↔
    ∃ f, s.queryFields[i]? = some f ∧ (fieldEntities s languages f.name)[j]? = some d := by
  unfold placedEntities
  constructor
  · intro h
    obtain ⟨⟨f, i⟩, hf, h⟩ := List.mem_flatMap.mp h
    obtain ⟨⟨d, j⟩, hd, h⟩ := List.mem_map.mp h
    cases h
    exact ⟨f, List.mk_mem_zipIdx_iff_getElem?.mp hf, List.mk_mem_zipIdx_iff_getElem?.mp hd⟩
  · rintro ⟨f, hf, hd⟩
    exact List.mem_flatMap.mpr ⟨(f, i), List.mk_mem_zipIdx_iff_getElem?.mpr hf,
      List.mem_map.mpr ⟨(d, j), List.mk_mem_zipIdx_iff_getElem?.mpr hd, rfl⟩⟩

/-- The entity types are the first findings of their types. -/
theorem distinctTypes_placedEntities (s : Schema) (languages : List String) :
    distinctTypes ((placedEntities s languages).map Prod.snd) = entityTypes s languages := by
  rw [entityTypes, placedEntities, List.map_flatMap, List.flatMap_map]
  congr 1
  conv_rhs => rw [← List.zipIdx_map_fst 0 s.queryFields, List.flatMap_map]
  refine List.flatMap_congr fun f _ => ?_
  rw [List.map_map]
  exact List.zipIdx_map_fst 0 _

theorem pairwise_zipIdx {α : Type} (xs : List α) : xs.zipIdx.Pairwise fun x y => x.2 < y.2 := by
  rw [List.pairwise_iff_getElem]
  intro i j hi hj hij
  rw [List.getElem_zipIdx, List.getElem_zipIdx]
  exact Nat.add_lt_add_left hij 0

/-- The findings come in the order of their places. -/
theorem pairwise_placedEntities (s : Schema) (languages : List String) :
    (placedEntities s languages).Pairwise fun x y => PlacedBefore x.1 y.1 := by
  rw [placedEntities, List.pairwise_flatMap]
  refine ⟨fun f _ => ?_, (pairwise_zipIdx _).imp fun {f g} hfg x hx y hy => ?_⟩
  · rw [List.pairwise_map]
    exact (pairwise_zipIdx _).imp fun h => .inr ⟨rfl, h⟩
  · obtain ⟨d, -, rfl⟩ := List.mem_map.mp hx
    obtain ⟨e, -, rfl⟩ := List.mem_map.mp hy
    exact .inl hfg

/-- A type that a field lists stands at the place of its first occurrence behind the type asked for. -/
theorem GraphQL.Field.Lists.mem_placedEntities (hs : s.Legible) (hf : s.queryFields[i]? = some f)
    (h : f.Lists s t n) :
    ((i, (s.possibleTypes t).idxOf n), .found f t languages n) ∈ placedEntities s languages := by
  refine Harvest.mem_placedEntities.mpr ⟨f, hf, ?_⟩
  rw [getElem?_fieldEntities hs (List.mem_of_getElem? hf)]
  exact ⟨t, h, List.getElem?_idxOf ((behind_iff (isComposite_of_behind h.behind)).mp h.behind), rfl⟩

/-- A type is first listed at one place only. -/
theorem FirstListed.unique (h : FirstListed s n f t i j) (h' : FirstListed s n g u k l) :
    i = k ∧ j = l := by
  have hik : i = k := by
    rcases Nat.lt_trichotomy i k with hlt | heq | hlt
    · exact absurd h.lists (h'.first i hlt f h.field t)
    · exact heq
    · exact absurd h'.lists (h.first k hlt g h'.field u)
  subst hik
  cases h.field.symm.trans h'.field
  rw [h.place, h'.place, h.lists.asksFor.unique h'.lists.asksFor]
  exact ⟨rfl, rfl⟩

/-- Something listed that comes before all else of its type is where the type is first listed. -/
theorem firstListed_of_mem (hs : s.Legible) (h : ((i, j), d) ∈ placedEntities s languages)
    (hfirst : ∀ x ∈ placedEntities s languages, x.2.typeName = d.typeName →
      x = ((i, j), d) ∨ PlacedBefore (i, j) x.1) :
    ∃ f t, FirstListed s d.typeName f t i j ∧ d = .found f t languages d.typeName := by
  obtain ⟨f, hf, hd⟩ := mem_placedEntities.mp h
  obtain ⟨t, ht, hn, hd⟩ := (getElem?_fieldEntities hs (List.mem_of_getElem? hf)).mp hd
  refine ⟨f, t, ⟨hf, ht, fun k hk g hg u hu => ?_, ?_⟩, hd⟩
  · rcases hfirst _ (hu.mem_placedEntities hs hg) rfl with heq | hlt | ⟨heq, -⟩
    · exact absurd (congrArg (·.1.1) heq) (Nat.ne_of_lt hk)
    · exact absurd hlt (Nat.not_lt_of_lt hk)
    · exact absurd heq.symm (Nat.ne_of_lt hk)
  · rcases hfirst _ (ht.mem_placedEntities hs hf) rfl with heq | hlt | ⟨-, hlt⟩
    · exact (congrArg (·.1.2) heq).symm
    · exact absurd hlt (Nat.lt_irrefl i)
    · obtain ⟨hj, hget⟩ := List.getElem?_eq_some_iff.mp hn
      have hne := List.not_of_lt_findIdx (p := (· == d.typeName)) hlt
      exact absurd hget (ne_of_beq_false hne)

end Places

/-- **Discovery finds the entity types of a remote and no others: each once, under the first query field
that lists it, in the order in which they are listed.** -/
theorem entityTypes_discovered {data : Value} {s : Schema} (hdata : Schema.ofIntrospection data = .ok s)
    (languages : List String) : Discovered s languages (entityTypes s languages) := by
  have hs := legible_ofIntrospection hdata
  obtain ⟨ys, hsub, hmap, hfirst⟩ := exists_first (pairwise_placedEntities s languages)
  rw [distinctTypes_placedEntities] at hmap
  have hnodup : (ys.map fun y => y.2.typeName).Nodup := by
    have h := distinctTypes_nodup ((placedEntities s languages).map Prod.snd)
    rw [distinctTypes_placedEntities, ← hmap, List.map_map] at h
    exact h
  -- what is kept comes before all else of its type, because one kept entry has the type's name
  have hkept (y : (Nat × Nat) × Descriptor) (hy : y ∈ ys) :
      ∃ f t, FirstListed s y.2.typeName f t y.1.1 y.1.2 ∧ y.2 = .found f t languages y.2.typeName := by
    refine firstListed_of_mem hs (hsub.subset hy) fun x hx hname => ?_
    obtain ⟨z, hz, hzx, hcases⟩ := hfirst x hx
    obtain rfl : z = y := List.inj_on_of_nodup_map hnodup hz hy (hzx.trans hname)
    exact hcases.imp_left Eq.symm
  refine ⟨distinctTypes_nodup _, fun d hd => isObject_of_mem_entityTypes hs.unambiguous hd, fun n => ?_,
    fun d hd => ?_, ?_⟩
  · rw [← hmap, List.map_map]
    constructor
    · intro hn
      obtain ⟨y, hy, rfl⟩ := List.mem_map.mp hn
      obtain ⟨f, t, h, -⟩ := hkept y hy
      exact ⟨f, List.mem_of_getElem? h.field, t, h.lists⟩
    · rintro ⟨f, hf, t, ht⟩
      obtain ⟨i, hi⟩ := List.getElem?_of_mem hf
      obtain ⟨y, hy, hname, -⟩ := hfirst _ (ht.mem_placedEntities hs hi)
      exact List.mem_map.mpr ⟨y, hy, hname⟩
  · rw [← hmap] at hd
    obtain ⟨y, hy, rfl⟩ := List.mem_map.mp hd
    obtain ⟨f, t, h⟩ := hkept y hy
    exact ⟨f, t, _, _, h⟩
  · rw [← hmap, List.pairwise_map]
    refine ((pairwise_placedEntities s languages).sublist hsub).imp_of_mem
      fun {y z} hy hz hyz f t i j g u k l hf hg => ?_
    obtain ⟨f', t', hy', -⟩ := hkept y hy
    obtain ⟨g', u', hz', -⟩ := hkept z hz
    obtain ⟨rfl, rfl⟩ := hy'.unique hf
    obtain ⟨rfl, rfl⟩ := hz'.unique hg
    exact hyz

/-! ## A remote with types listed twice -/

namespace Sample

/-- A remote that lists its query root, an interface, a union and a type by itself. Nodes are behind all
three of these, and terms in two ways. -/
def browsed : Value :=
  .record [("__schema", .record [
    ("queryType", typeRef "OBJECT" "Query"),
    ("directives", .list []),
    ("types", .list [
      type "OBJECT" "Query" [] [listing "queryQuery", listing "contentQuery", listing "Query",
        field "nodeQuery" [] (.record [("kind", .str "NON_NULL"), ("ofType", typeRef "OBJECT" "EntityQueryResult")]),
        field "termQuery" [] (.record [("kind", .str "LIST"), ("ofType", typeRef "OBJECT" "EntityQueryResult")]),
        listing "anyQuery"],
      type "OBJECT" "EntityQueryResult" [] [field "count" [] (typeRef "SCALAR" "Int")],
      type "INTERFACE" "Content" [] identity,
      type "OBJECT" "Page" [typeRef "INTERFACE" "Content"] identity,
      type "OBJECT" "Node" [typeRef "INTERFACE" "Content"] identity,
      type "OBJECT" "Term" [] identity,
      type "OBJECT" "Language" [] [field "id" [] (typeRef "SCALAR" "String")],
      type "UNION" "Any" [] [],
      typeRef "SCALAR" "Int", typeRef "SCALAR" "String"])])]

def browsedSchema : Schema := (Schema.ofIntrospection browsed).toOption.getD default

/-- A type goes by the field that lists it first, and a list of listings is none. -/
theorem discovered_browsed :
    Schema.ofIntrospection browsed = .ok browsedSchema
      ∧ Discovered browsedSchema ["EN", "DE"] (entityTypes browsedSchema ["EN", "DE"])
      ∧ (entityTypes browsedSchema ["EN", "DE"]).map (fun d => (d.typeName, d.queryField, d.abstractType))
        = [("Query", "queryQuery", none), ("Page", "contentQuery", some "Content"),
          ("Node", "contentQuery", some "Content"), ("Term", "anyQuery", some "Any")] := by
  have hdata : Schema.ofIntrospection browsed = .ok browsedSchema := eq_ok_of_isSome (by decide +kernel)
  exact ⟨hdata, entityTypes_discovered hdata ["EN", "DE"], by decide +kernel⟩

end Sample

end Harvest
