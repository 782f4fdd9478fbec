import Harvest.Proofs.GraphQL.Names
import Harvest.Proofs.GraphQL.Schemas

/-!
# Names of types

The types of a schema that was read from an introspection result go by proper names: a name is checked
when its type is read, and the standard types have proper names anyway.

This is the part of `Harvest.Proofs.GraphQL.SchemaNames` that is about types alone, and it needs nothing of
their fields. A property of all types that are collected is shown once (`outlines_all`): it has to hold of
the standard types and of what is read from the value of a type.
-/

namespace Harvest.GraphQL

namespace Introspection

theorem isName_of_scalar : ∀ n ∈ Standard.scalarNames, IsName n := by decide +kernel

theorem isName_of_mem_implied : ∀ t ∈ Standard.implied, IsName t.name := by decide +kernel

theorem isName_of_standard {n : String} {t : TypeDef} (h : Standard.type? n = some t) :
    IsName t.name := by
  unfold Standard.type? at h
  split at h
  next hn =>
    cases h
    exact isName_of_scalar n (List.contains_iff_mem.mp hn)
  next => exact isName_of_mem_implied t (List.mem_append_left _ (List.mem_of_find?_eq_some h))

theorem isName_of_standard? {v : Value} {t : TypeDef} (h : standard? v = some t) : IsName t.name := by
  unfold standard? at h
  split at h
  · exact isName_of_standard h
  · cases h

theorem checkName_isName (v : Value) : Gives (checkName v) IsName := by
  intro n hn
  unfold checkName at hn
  split at hn
  any_goals cases hn
  split at hn
  · cases hn
  next s c cs hs =>
    split at hn
    · cases hn
    next hall =>
      split at hn
      · cases hn
      next hstart =>
        cases hn
        simp only [Bool.not_eq_true, Bool.not_eq_false'] at hall hstart
        exact ⟨c, cs, hs, hstart, List.all_eq_true.mp hall⟩

theorem outline_isName (v : Value) : Gives (outline v) fun o => IsName o.name := by
  intro o ho
  rcases outline_checked v o ho with ⟨w, t, ht, rfl⟩ | ⟨⟨w, hw⟩, -⟩
  · exact isName_of_standard? ht
  · exact checkName_isName w o.name hw

/-- What holds of the standard types and of every type that is read holds of all that are collected. -/
theorem outlines_all {P : Outline → Prop} (hstandard : ∀ n t, Standard.type? n = some t → P (.ready t))
    (hread : ∀ v, Gives (outline v) P) {vs : List Value} {acc os : List Outline}
    (hacc : ∀ o ∈ acc, P o) (h : outlines vs acc = .ok os) : ∀ o ∈ os, P o := by
  induction vs generalizing acc with
  | nil =>
      cases h
      exact hacc
  | cons v vs ih =>
      rw [outlines] at h
      obtain ⟨o, ho, h⟩ := bind_ok h
      refine ih ?_ h
      rw [put_eq]
      intro p hp
      rcases mem_setBy hp with rfl | hp
      · split
        next t ht => exact hstandard _ t ht
        next => exact hread v o ho
      · exact hacc p hp

theorem outlines_isName {vs : List Value} {os : List Outline} (h : outlines vs [] = .ok os) :
    ∀ o ∈ os, IsName o.name :=
  outlines_all (P := fun o => IsName o.name) (fun _ _ => isName_of_standard) outline_isName
    (fun _ ho => absurd ho List.not_mem_nil) h

end Introspection

open Introspection

/-- **The types of a schema that was read have proper names.** -/
theorem isName_of_mem_types {data : Value} {s : Schema} (h : Schema.ofIntrospection data = .ok s) :
    ∀ t ∈ s.types, IsName t.name := by
  obtain ⟨vs, os, ts, hos, hts, hs⟩ := types_of_ofIntrospection h
  have hresolved := types_of_resolved (outlines_distinct distinct_nil hos) hts
  have hnames : ∀ o ∈ os, IsName o.name := outlines_isName hos
  rw [hs]
  intro t ht
  rcases List.mem_append.mp ht with ht | ht
  · obtain ⟨o, ho, hot⟩ := exists_of_forall₂ hresolved.flip ht
    rw [hot.name]
    exact hnames o ho
  · exact isName_of_mem_implied t (List.mem_filter.mp ht).1

end Harvest.GraphQL
