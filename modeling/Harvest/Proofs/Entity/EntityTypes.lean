import Harvest.Entity.Discovery
import Harvest.Proofs.GraphQL.Schemas

/-!
# Entity types

The entity types of a remote are found once each, and all of them are object types: an abstract type
is never sourced itself.

The first half is about keeping the first of each type, by one step for each descriptor; `addDistinct` is
that step. The second half follows a query field to what it lists. Behind an interface or a union stand
objects, and a composite type that is neither is an object itself, so nothing else gets on the list.
-/

namespace Harvest

open GraphQL GraphQL.Schema

/-! ## Distinct types

A descriptor is added at the end, unless its type is there. -/

section Distinct

variable {ds kept : List Descriptor} {d e : Descriptor}

/-- A list with a descriptor at its end, unless its type is there already. -/
def addDistinct (kept : List Descriptor) (d : Descriptor) : List Descriptor :=
  if kept.any (·.typeName == d.typeName) then kept else kept ++ [d]

theorem distinctTypes_eq (ds : List Descriptor) : distinctTypes ds = ds.foldl addDistinct [] := rfl

theorem mem_addDistinct (h : d ∈ addDistinct kept e) : d ∈ kept ∨ d = e := by
  unfold addDistinct at h
  split at h
  · exact .inl h
  · exact (List.mem_append.mp h).imp_right List.mem_singleton.mp

/-- No type is added twice. -/
theorem nodup_addDistinct (h : (kept.map Descriptor.typeName).Nodup) :
    ((addDistinct kept d).map Descriptor.typeName).Nodup := by
  unfold addDistinct
  split
  next => exact h
  next hd =>
    rw [List.map_append, List.nodup_append]
    refine ⟨h, List.nodup_singleton _, ?_⟩
    rintro t ht _ ht' rfl
    cases List.mem_singleton.mp ht'
    obtain ⟨e, he, hte⟩ := List.mem_map.mp ht
    exact hd (List.any_eq_true.mpr ⟨e, he, beq_iff_eq.mpr hte⟩)

theorem mem_foldl_addDistinct (h : d ∈ ds.foldl addDistinct kept) : d ∈ kept ∨ d ∈ ds := by
  induction ds generalizing kept with
  | nil => exact .inl h
  | cons e es ih =>
      rcases ih h with h | h
      · rcases mem_addDistinct h with h | rfl
        · exact .inl h
        · exact .inr List.mem_cons_self
      · exact .inr (List.mem_cons_of_mem e h)

theorem nodup_foldl_addDistinct (h : (kept.map Descriptor.typeName).Nodup) :
    ((ds.foldl addDistinct kept).map Descriptor.typeName).Nodup := by
  induction ds generalizing kept with
  | nil => exact h
  | cons d ds ih => exact ih (nodup_addDistinct h)

theorem distinctTypes_nodup (ds : List Descriptor) :
    ((distinctTypes ds).map Descriptor.typeName).Nodup := by
  rw [distinctTypes_eq]
  exact nodup_foldl_addDistinct List.nodup_nil

theorem mem_of_mem_distinctTypes (h : d ∈ distinctTypes ds) : d ∈ ds := by
  rw [distinctTypes_eq] at h
  exact (mem_foldl_addDistinct h).resolve_left List.not_mem_nil

end Distinct

/-! ## Object types

What a query field lists, by the kind of the type that it asks for. -/

variable {s : Schema}

/-- What implements a type is an object. -/
theorem isObject_of_mem_implementors (hs : s.Unambiguous) {n m : String}
    (h : m ∈ s.implementors n) : ∃ t, s.type? m = some t ∧ t.isObject = true := by
  unfold implementors at h
  split at h
  next t ht =>
    split at h
    next habs =>
      cases t with
      | union n ms => exact hs.members n ms (mem_of_type? ht) m h
      | interface n is fs =>
          obtain ⟨t, ht, rfl⟩ := List.mem_map.mp h
          obtain ⟨ht, hobj⟩ := List.mem_filter.mp ht
          exact ⟨t, hs.type?_name ht, (Bool.and_eq_true_iff.mp hobj).1⟩
      | _ => cases habs
    next => cases h
  next => cases h

/-- A field asks for a composite type, if it asks for one. -/
theorem isComposite_of_entityType? {n name : String} (h : entityType? s n = some name) :
    ∃ t, s.type? name = some t ∧ t.isComposite = true := by
  unfold entityType? at h
  obtain ⟨before, -, h⟩ := Option.bind_eq_some_iff.mp h
  obtain ⟨field, -, h⟩ := Option.bind_eq_some_iff.mp h
  obtain ⟨result, -, h⟩ := Option.bind_eq_some_iff.mp h
  split at h
  · cases h
  · obtain ⟨t, ht, h⟩ := Option.bind_eq_some_iff.mp h
    split at h
    next hc =>
      cases h
      exact ⟨t, ht, hc⟩
    next => cases h

/-- What a query field lists are objects. -/
theorem isObject_of_mem_fieldEntities (hs : s.Unambiguous) {languages : List String} {n : String}
    {d : Descriptor} (h : d ∈ fieldEntities s languages n) :
    ∃ t, s.type? d.typeName = some t ∧ t.isObject = true := by
  unfold fieldEntities at h
  split at h
  · cases h
  next name hname =>
    split at h
    next =>
      obtain ⟨m, hm, rfl⟩ := List.mem_map.mp h
      exact isObject_of_mem_implementors hs hm
    next habs =>
      cases List.mem_singleton.mp h
      obtain ⟨t, ht, hc⟩ := isComposite_of_entityType? hname
      refine ⟨t, ht, ?_⟩
      have habs : t.isAbstract = false := by
        rw [isAbstract, ht] at habs
        exact Bool.eq_false_iff.mpr habs
      rw [TypeDef.isComposite, habs, Bool.or_false] at hc
      exact hc

/-- What a query field lists goes by that field, in the languages that it was looked for in. -/
theorem listed_of_mem_fieldEntities {languages : List String} {n : String} {d : Descriptor}
    (h : d ∈ fieldEntities s languages n) : d.languages = languages ∧ d.queryField = n := by
  unfold fieldEntities at h
  split at h
  · cases h
  · split at h
    · obtain ⟨m, -, rfl⟩ := List.mem_map.mp h
      exact ⟨rfl, rfl⟩
    · cases List.mem_singleton.mp h
      exact ⟨rfl, rfl⟩

/-- Entity types are listed in the languages that they were looked for in. -/
theorem languages_of_mem_entityTypes {languages : List String} {d : Descriptor}
    (h : d ∈ entityTypes s languages) : d.languages = languages := by
  obtain ⟨n, -, hd⟩ := List.mem_flatMap.mp (mem_of_mem_distinctTypes h)
  exact (listed_of_mem_fieldEntities hd).1

/-- Entity types are listed by query fields. -/
theorem queryField_of_mem_entityTypes {languages : List String} {d : Descriptor}
    (h : d ∈ entityTypes s languages) : ∃ f ∈ s.queryFields, d.queryField = f.name := by
  obtain ⟨n, hn, hd⟩ := List.mem_flatMap.mp (mem_of_mem_distinctTypes h)
  obtain ⟨f, hf, rfl⟩ := List.mem_map.mp hn
  exact ⟨f, hf, (listed_of_mem_fieldEntities hd).2⟩

/-- Entity types are object types. -/
theorem isObject_of_mem_entityTypes (hs : s.Unambiguous) {languages : List String} {d : Descriptor}
    (h : d ∈ entityTypes s languages) : ∃ t, s.type? d.typeName = some t ∧ t.isObject = true := by
  obtain ⟨n, -, hn⟩ := List.mem_flatMap.mp (mem_of_mem_distinctTypes h)
  exact isObject_of_mem_fieldEntities hs hn

end Harvest
