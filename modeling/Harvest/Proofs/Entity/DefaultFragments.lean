import Harvest.Entity.DefaultFragment
import Harvest.GraphQL.Schema.Rules
import Harvest.Proofs.Entity.EntityTypes
import Harvest.Proofs.Plan.Coherence

/-!
# Default fragments

What a default fragment selects has its place in the schema: each selection is the type name or a
field that needs no arguments, and it has sub-selections exactly if its type is composite. There is
one exception. A reference to an entity that is sourced itself selects its `entityId` unseen, so the
fragment is legal exactly if that can be selected so on every type that it refers to.

Whether a type can be referred to is decided by its `entityId` alone (`Identifies`), and `Refers` says which
types a fragment refers to at any level. `Sample.reference_not_legal` has a schema with a type that cannot.
-/

namespace Harvest

open GraphQL GraphQL.Schema

/-! ## Legal selections

What a schema allows under a type, for plain fields. `Selects` names the places in a fragment by the type
that is selected from, so that legality can be said of every level. -/

/-- The selections that a type allows: its name, and a field that needs no arguments, with
sub-selections exactly if the field is of a composite type. -/
inductive Legal (s : Schema) (p : TypeDef) : Selection → Prop
  | typeName : Legal s p (.plain "__typename" [])
  | field {n : String} {f : Field} {b : TypeDef} {xs : List Selection} (hf : p.field? n = some f)
      (ha : f.needsArguments = false) (hb : s.base? f.type = some b)
      (hx : xs ≠ [] ↔ b.isComposite = true) : Legal s p (.plain n xs)

/-- A legal selection other than the type name is one of a field that needs no arguments. -/
theorem Legal.of_plain {s : Schema} {p : TypeDef} {n : String} {xs : List Selection}
    (h : Legal s p (.plain n xs)) (hn : n ≠ "__typename") :
    ∃ f b, p.field? n = some f ∧ f.needsArguments = false ∧ s.base? f.type = some b
      ∧ (xs ≠ [] ↔ b.isComposite = true) := by
  generalize hx : Selection.plain n xs = x at h
  cases h with
  | typeName =>
      cases hx
      exact absurd rfl hn
  | @field _ f b _ hf ha hb hx' =>
      cases hx
      exact ⟨f, b, hf, ha, hb, hx'⟩

/-- The selections at every level below a type, each with the type that it selects from. -/
inductive Selects (s : Schema) : TypeDef → List Selection → TypeDef → Selection → Prop
  | here {t : TypeDef} {xs : List Selection} {x : Selection} (hx : x ∈ xs) : Selects s t xs t x
  | inside {t b p : TypeDef} {f : Field} {n : String} {xs ys : List Selection} {x : Selection}
      (hy : .plain n ys ∈ xs) (hf : t.field? n = some f) (hb : s.base? f.type = some b)
      (hx : Selects s b ys p x) : Selects s t xs p x

namespace Selects

variable {s : Schema} {t p : TypeDef} {x : Selection} {xs : List Selection}

/-! ### Below a selection -/

theorem ne_nil (h : Selects s t xs p x) : xs ≠ [] := by
  cases h with
  | here hx => exact List.ne_nil_of_mem hx
  | inside hy => exact List.ne_nil_of_mem hy

/-- Below selections that have none themselves there is nothing. -/
theorem of_flat (hflat : ∀ y ∈ xs, ∃ n, y = .plain n []) (h : Selects s t xs p x) :
    p = t ∧ x ∈ xs := by
  cases h with
  | here hx => exact ⟨rfl, hx⟩
  | inside hy hf hb hx =>
      obtain ⟨m, hm⟩ := hflat _ hy
      cases hm
      exact absurd rfl hx.ne_nil

end Selects

namespace DefaultFragment

variable {s : Schema} {sourced : List String} {depth : Nat} {t b p r : TypeDef} {f : Field}
  {x : Selection} {xs : List Selection}

/-! ## Fields

`Chosen` says everything about the selection of a field, by the type that the field is of. -/

/-- What a reference selects of an entity. -/
def identity (b : TypeDef) : List Selection :=
  .plain "__typename" [] :: if (b.field? "entityId").isSome then [.plain "entityId" []] else []

theorem reference_eq (h : b.isUnion = false) (n : String) :
    reference n b = .ok (.plain n (identity b)) := by
  rw [reference, h]
  rfl

/-- The selections of a type one level down, where the depth allows for one. -/
def below (s : Schema) (sourced : List String) :
    Nat → Option (TypeDef → Except DefaultFragmentError (List Selection))
  | 0 => none
  | depth + 1 => some (selections s sourced depth)

theorem selections_eq (s : Schema) (sourced : List String) (depth : Nat) (t : TypeDef) :
    selections s sourced depth t
      = collectFields (fieldSelection s sourced (below s sourced depth)) t.fields := by
  cases depth <;> rfl

/-- How a field without required arguments is selected, by its type. -/
inductive Chosen (s : Schema) (sourced : List String) (f : Field) : Nat → Selection → Prop
  | leaf {depth : Nat} {b : TypeDef} (hb : s.base? f.type = some b) (hl : b.isLeaf = true) :
      Chosen s sourced f depth (.plain f.name [])
  | reference {depth : Nat} {b : TypeDef} (hb : s.base? f.type = some b) (hl : b.isLeaf = false)
      (hm : b.name ∈ sourced) (hu : b.isUnion = false) :
      Chosen s sourced f (depth + 1) (.plain f.name (identity b))
  | union {depth : Nat} {b : TypeDef} (hb : s.base? f.type = some b) (hm : b.name ∉ sourced)
      (hu : b.isUnion = true) : Chosen s sourced f (depth + 1) (.plain f.name [.plain "__typename" []])
  | nested {depth : Nat} {b : TypeDef} {xs : List Selection} (hb : s.base? f.type = some b)
      (hl : b.isLeaf = false) (hm : b.name ∉ sourced) (hu : b.isUnion = false)
      (hs : selections s sourced depth b = .ok xs) (hx : xs ≠ []) :
      Chosen s sourced f (depth + 1) (.plain f.name xs)

/-- A field that is selected needs no arguments, and is selected by its type. -/
theorem chosen_of_fieldSelection
    (h : fieldSelection s sourced (below s sourced depth) f = .ok (some x)) :
    f.needsArguments = false ∧ Chosen s sourced f depth x := by
  -- the cases come in the order of the checks: arguments, type, leaf, depth, sourced, union, empty
  unfold fieldSelection at h
  split at h
  · cases h
  next ha =>
    refine ⟨Bool.eq_false_iff.mpr ha, ?_⟩
    split at h
    · cases h
    next b hb =>
      split at h
      next hl =>
        cases h
        exact .leaf hb hl
      next hl =>
        have hl : b.isLeaf = false := Bool.eq_false_iff.mpr hl
        cases depth with
        | zero => cases h
        | succ depth =>
            simp only [below] at h
            split at h
            next hm =>
              have hm : b.name ∈ sourced := List.contains_iff_mem.mp hm
              cases hu : b.isUnion with
              | true =>
                  rw [reference, if_pos hu] at h
                  cases h
              | false =>
                  rw [reference_eq hu] at h
                  cases h
                  exact .reference hb hl hm hu
            next hm =>
              have hm : b.name ∉ sourced := fun hm' => hm (List.contains_iff_mem.mpr hm')
              split at h
              next hu =>
                cases h
                exact .union hb hm hu
              next hu =>
                split at h
                next => cases h
                next => cases h
                next y ys hs =>
                  cases h
                  exact .nested hb hl hm (Bool.eq_false_iff.mpr hu) hs (List.cons_ne_nil y ys)

/-- Whatever is chosen for a field is its selection. -/
theorem fieldSelection_of_chosen (ha : f.needsArguments = false) (hx : Chosen s sourced f depth x) :
    fieldSelection s sourced (below s sourced depth) f = .ok (some x) := by
  cases hx with
  | leaf hb hl => simp [fieldSelection, ha, hb, hl]
  | reference hb hl hm hu =>
      simp [fieldSelection, below, ha, hb, hl, hm, reference_eq hu, Except.map]
  | union hb hm hu =>
      have hl := TypeDef.isLeaf_of_isComposite (TypeDef.isComposite_of_isUnion hu)
      simp [fieldSelection, below, ha, hb, hl, hm, hu]
  | @nested _ b xs hb hl hm hu hs hx =>
      obtain ⟨y, ys, rfl⟩ := List.exists_cons_of_ne_nil hx
      simp [fieldSelection, below, ha, hb, hl, hm, hu, hs]

/-! ## Types

The fields of a type are gone through in their order, and those without a selection are left out. -/

/-- A selection is among those of a type if it is that of one of its fields. -/
theorem mem_collectFields {select : Field → Except DefaultFragmentError (Option Selection)}
    {fs : List Field} (h : collectFields select fs = .ok xs) :
    x ∈ xs ↔ ∃ f ∈ fs, select f = .ok (some x) := by
  induction fs generalizing xs with
  | nil =>
      cases h
      simp
  | cons f fs ih =>
      rw [collectFields] at h
      split at h
      · cases h
      next o ho =>
        split at h
        · cases h
        next ys hys =>
          cases h
          simp [ih hys, ho, eq_comm]

theorem mem_selections (h : selections s sourced depth t = .ok xs) :
    x ∈ xs ↔ ∃ f ∈ t.fields, f.needsArguments = false ∧ Chosen s sourced f depth x := by
  rw [selections_eq] at h
  rw [mem_collectFields h]
  constructor
  · rintro ⟨f, hf, hx⟩
    exact ⟨f, hf, chosen_of_fieldSelection hx⟩
  · rintro ⟨f, hf, ha, hx⟩
    exact ⟨f, hf, fieldSelection_of_chosen ha hx⟩

/-- Fields are collected without an error if none of them gives one. -/
theorem collectFields_total {select : Field → Except DefaultFragmentError (Option Selection)}
    {fs : List Field} (h : ∀ f, ∃ o, select f = .ok o) : ∃ xs, collectFields select fs = .ok xs := by
  induction fs with
  | nil => exact ⟨[], rfl⟩
  | cons f fs ih =>
      obtain ⟨o, ho⟩ := h f
      obtain ⟨xs, hxs⟩ := ih
      refine ⟨o.toList ++ xs, ?_⟩
      rw [collectFields, ho]
      dsimp only
      rw [hxs]

/-- Whether only objects are sourced. -/
def SourcesObjects (s : Schema) (sourced : List String) : Prop :=
  ∀ b ∈ s.types, b.name ∈ sourced → b.isObject = true

/-- A field gives no error unless it refers to a union that is sourced. -/
theorem fieldSelection_total (hsrc : SourcesObjects s sourced)
    {inner : Option (TypeDef → Except DefaultFragmentError (List Selection))}
    (hin : ∀ g ∈ inner, ∀ b, ∃ ys, g b = .ok ys) (f : Field) :
    ∃ o, fieldSelection s sourced inner f = .ok o := by
  unfold fieldSelection
  split
  · exact ⟨none, rfl⟩
  split
  · exact ⟨none, rfl⟩
  next b hb =>
    split
    · exact ⟨_, rfl⟩
    split
    · exact ⟨none, rfl⟩
    next g =>
      split
      next hm =>
        have hobj := hsrc b (mem_of_type? hb) (List.contains_iff_mem.mp hm)
        rw [reference_eq (TypeDef.isUnion_of_isObject hobj)]
        exact ⟨_, rfl⟩
      split
      · exact ⟨_, rfl⟩
      · obtain ⟨ys, hys⟩ := hin g rfl b
        rw [hys]
        cases ys with
        | nil => exact ⟨none, rfl⟩
        | cons y ys => exact ⟨_, rfl⟩

/-- While only objects are sourced, nothing keeps the fields of a type from being selected. -/
theorem selections_total (hsrc : SourcesObjects s sourced) (depth : Nat) (t : TypeDef) :
    ∃ xs, selections s sourced depth t = .ok xs := by
  induction depth generalizing t with
  | zero => exact collectFields_total (fieldSelection_total hsrc nofun)
  | succ depth ih =>
      apply collectFields_total
      apply fieldSelection_total hsrc
      intro g hg b
      cases hg
      exact ih b

/-! ## References

A reference is found through fields of types that are not sourced, each of which takes one level of
the depth. -/

/-- Whether the fragment of a type, down to a depth, refers to a sourced type. -/
inductive Refers (s : Schema) (sourced : List String) (r : TypeDef) : Nat → TypeDef → Prop
  | direct {depth : Nat} {t : TypeDef} {f : Field} (hf : f ∈ t.fields)
      (ha : f.needsArguments = false) (hb : s.base? f.type = some r) (hr : r.name ∈ sourced) :
      Refers s sourced r (depth + 1) t
  | through {depth : Nat} {t b : TypeDef} {f : Field} (hf : f ∈ t.fields)
      (ha : f.needsArguments = false) (hb : s.base? f.type = some b) (hm : b.name ∉ sourced)
      (h : Refers s sourced r depth b) : Refers s sourced r (depth + 1) t

/-- Whether a type can be referred to: its `entityId`, if it has one, needs no arguments and has no
fields of its own. -/
def Identifies (s : Schema) (r : TypeDef) : Prop :=
  ∀ f, r.field? "entityId" = some f →
    f.needsArguments = false ∧ ∃ b, s.base? f.type = some b ∧ b.isComposite = false

/-- A type with an `entityId` can be referred to exactly if the selection of it is legal. -/
theorem identifies_iff_legal {f : Field} (hf : r.field? "entityId" = some f) :
    Identifies s r ↔ Legal s r (.plain "entityId" []) := by
  constructor
  · intro h
    obtain ⟨ha, b, hb, hc⟩ := h f hf
    refine .field hf ha hb ?_
    simp [hc]
  · intro h g hg
    obtain ⟨g', b, hg', ha, hb, hc⟩ := h.of_plain (by decide)
    rw [hg'] at hg
    cases hg
    refine ⟨ha, b, hb, ?_⟩
    simpa using hc

theorem mem_identity : x ∈ identity b ↔
    x = .plain "__typename" [] ∨ x = .plain "entityId" [] ∧ (b.field? "entityId").isSome = true := by
  unfold identity
  split <;> simp [*]

/-- What a reference selects has no selections of its own. -/
theorem identity_flat : ∀ y ∈ identity b, ∃ n, y = .plain n [] := by
  intro y hy
  rcases mem_identity.mp hy with rfl | ⟨rfl, -⟩
  · exact ⟨_, rfl⟩
  · exact ⟨_, rfl⟩

/-! ## What a fragment selects

Level by level: a selection is chosen for a field of the type above, and what is inside of it belongs to the
type of the field. The induction is on the depth. -/

/-- A field is selected as its type allows. -/
theorem legal_of_chosen (hs : s.Unambiguous) (hsrc : SourcesObjects s sourced) (ht : t ∈ s.types)
    (hf : f ∈ t.fields) (ha : f.needsArguments = false) (h : Chosen s sourced f depth x) :
    Legal s t x := by
  have hf := hs.field?_name ht hf
  cases h with
  | @leaf _ b hb hl =>
      refine .field hf ha hb ?_
      have hc : b.isComposite = false := by
        by_contra hc
        rw [TypeDef.isLeaf_of_isComposite (Bool.not_eq_false _ ▸ hc)] at hl
        cases hl
      simp [hc]
  | @reference _ b hb hl hm hu =>
      have hc := TypeDef.isComposite_of_isObject (hsrc b (mem_of_type? hb) hm)
      refine .field hf ha hb ?_
      simp [hc, identity]
  | union hb hm hu =>
      refine .field hf ha hb ?_
      simp [TypeDef.isComposite_of_isUnion hu]
  | @nested _ b xs hb hl hm hu hxs hx =>
      -- something of the type was selected, so it has a field
      obtain ⟨y, hy⟩ := List.exists_mem_of_ne_nil xs hx
      obtain ⟨g, hg, -⟩ := (mem_selections hxs).mp hy
      refine .field hf ha hb ?_
      simp [hx, (TypeDef.kind_of_mem_fields hg).1]

/-- Below the selection of a field stands the name of a type, what a reference selects, or what is
selected of an unsourced type one level down. -/
theorem chosen_inside {n : String} {ys : List Selection} (h : Chosen s sourced f depth (.plain n ys))
    (hy : ys ≠ []) : ∃ d b, depth = d + 1 ∧ n = f.name ∧ s.base? f.type = some b ∧
      (b.name ∈ sourced ∧ ys = identity b ∨ ys = [.plain "__typename" []]
        ∨ b.name ∉ sourced ∧ selections s sourced d b = .ok ys) := by
  generalize hx : Selection.plain n ys = x at h
  cases h with
  | leaf =>
      cases hx
      exact absurd rfl hy
  | @reference d b hb hl hm hu =>
      cases hx
      exact ⟨d, b, rfl, rfl, hb, .inl ⟨hm, rfl⟩⟩
  | @union d b hb hm hu =>
      cases hx
      exact ⟨d, b, rfl, rfl, hb, .inr (.inl rfl)⟩
  | @nested d b xs hb hl hm hu hxs hne =>
      cases hx
      exact ⟨d, b, rfl, rfl, hb, .inr (.inr ⟨hm, hxs⟩)⟩

/-- **Whatever is selected is legal, unless it is the identifier of an entity referred to.** -/
theorem selects_legal (hs : s.Unambiguous) (hsrc : SourcesObjects s sourced) (ht : t ∈ s.types)
    (h : selections s sourced depth t = .ok xs) (hx : Selects s t xs p x) :
    Legal s p x ∨ x = .plain "entityId" [] ∧ (p.field? "entityId").isSome = true
      ∧ Refers s sourced p depth t := by
  induction hx generalizing depth with
  | here hx =>
      obtain ⟨f, hf, ha, hch⟩ := (mem_selections h).mp hx
      exact .inl (legal_of_chosen hs hsrc ht hf ha hch)
  | @inside t b p g n xs ys x hy hg hb hx ih =>
      obtain ⟨f, hf, ha, hch⟩ := (mem_selections h).mp hy
      obtain ⟨d, b', rfl, rfl, hb', hys⟩ := chosen_inside hch hx.ne_nil
      -- the field that leads inside is the one that was selected
      rw [hs.field?_name ht hf] at hg
      cases hg
      rw [hb] at hb'
      cases hb'
      rcases hys with ⟨hm, rfl⟩ | rfl | ⟨hm, hys⟩
      · obtain ⟨rfl, hmem⟩ := hx.of_flat identity_flat
        rcases mem_identity.mp hmem with rfl | ⟨rfl, hid⟩
        · exact .inl .typeName
        · exact .inr ⟨rfl, hid, .direct hf ha hb hm⟩
      · obtain ⟨rfl, hmem⟩ := hx.of_flat fun y hy => ⟨_, List.mem_singleton.mp hy⟩
        cases List.mem_singleton.mp hmem
        exact .inl .typeName
      · rcases ih (mem_of_type? hb) hys with hlegal | ⟨rfl, hid, hr⟩
        · exact .inl hlegal
        · exact .inr ⟨rfl, hid, .through hf ha hb hm hr⟩

/-! ### What a reference selects

A reference brings in the name of the type and, where the type has one, the field `entityId`, whether or not
this field needs arguments. -/

/-- What a reference selects is among the selections. -/
theorem selects_of_refers (hs : s.Unambiguous) (hsrc : SourcesObjects s sourced) (ht : t ∈ s.types)
    (hr : Refers s sourced r depth t) (h : selections s sourced depth t = .ok xs)
    (hx : x ∈ identity r) : Selects s t xs r x := by
  induction hr generalizing xs with
  | direct hf ha hb hm =>
      have hobj := hsrc r (mem_of_type? hb) hm
      have hl := TypeDef.isLeaf_of_isComposite (TypeDef.isComposite_of_isObject hobj)
      have hmem := (mem_selections h).mpr
        ⟨_, hf, ha, .reference hb hl hm (TypeDef.isUnion_of_isObject hobj)⟩
      exact .inside hmem (hs.field?_name ht hf) hb (.here hx)
  | @through depth t b f hf ha hb hm hr ih =>
      -- a field with nothing selected below it would be left out, but the reference is below it
      obtain ⟨ys, hys⟩ := selections_total hsrc depth b
      have hin := ih (mem_of_type? hb) hys
      obtain ⟨hc, hu⟩ : b.isComposite = true ∧ b.isUnion = false := by
        cases hr with
        | direct hg => exact TypeDef.kind_of_mem_fields hg
        | through hg => exact TypeDef.kind_of_mem_fields hg
      have hmem := (mem_selections h).mpr
        ⟨f, hf, ha, .nested hb (TypeDef.isLeaf_of_isComposite hc) hm hu hys hin.ne_nil⟩
      exact .inside hmem (hs.field?_name ht hf) hb hin

/-! ## Fragments of entity types

Entity types are objects, and only objects are sourced. Both come from the way they are found in the schema. -/

/-- The entity types of a schema are objects. -/
theorem sourcesObjects_entityTypes (hs : s.Unambiguous) (languages : List String) :
    SourcesObjects s ((entityTypes s languages).map (·.typeName)) := by
  intro b hb hm
  obtain ⟨d, hd, hname⟩ := List.mem_map.mp hm
  obtain ⟨t, ht, hobj⟩ := isObject_of_mem_entityTypes hs hd
  rw [hname, hs.type?_name hb] at ht
  cases ht
  exact hobj

/-- A type that is an object gets a fragment, unless nothing of it can be selected. -/
theorem make_eq {n : String} {depth : Int} (ht : s.type? n = some t) (hobj : t.isObject = true)
    (hxs : selections s sourced depth.toNat t = .ok xs) :
    make s sourced depth n = if xs = [] then .error (.problem .noFields) else
      .ok { description := none, name := n, on := n, directives := [], selections := xs } := by
  cases t with
  | object m is fs =>
      rw [make, ht]
      dsimp only
      rw [hxs]
      cases xs <;> rfl
  | _ => cases hobj

/-- The text of a default fragment is the printed one, if there is something to print. -/
theorem text_eq {n : String} {depth : Int} (ht : s.type? n = some t) (hobj : t.isObject = true)
    (hxs : selections s sourced depth.toNat t = .ok xs) :
    text s sourced depth n = if xs = [] then .error (.problem .noFields) else
      .ok (Fragment.print ⟨none, n, n, [], xs⟩ ++ "\n") := by
  rw [text, make_eq ht hobj hxs]
  split <;> rfl

/-- The types that are sourced together. -/
abbrev sourcedTypes (s : Schema) (languages : List String) : List String :=
  (entityTypes s languages).map (·.typeName)

/-- Every entity type gets a fragment, unless nothing of it can be selected. -/
theorem make_total {data : Value} (hs : Schema.ofIntrospection data = .ok s)
    {languages : List String} {d : Descriptor} (hd : d ∈ entityTypes s languages) (maxDepth : Int) :
    (∃ fragment, make s (sourcedTypes s languages) maxDepth d.typeName = .ok fragment)
      ∨ make s (sourcedTypes s languages) maxDepth d.typeName = .error (.problem .noFields) := by
  have hu := unambiguous_ofIntrospection hs
  obtain ⟨t, ht, hobj⟩ := isObject_of_mem_entityTypes hu hd
  obtain ⟨xs, hxs⟩ :=
    selections_total (sourcesObjects_entityTypes hu languages) maxDepth.toNat t
  rw [make_eq ht hobj hxs]
  split
  · exact .inr rfl
  · exact .inl ⟨_, rfl⟩

/-- **The default fragment of an entity type is legal but for the references in it.** It selects
something, and whatever it selects at any level is allowed there, unless it is the `entityId` of a sourced
type that is referred to and cannot be selected so; and if such a type is referred to, the fragment is not
legal. -/
theorem legal_but_for_references {data : Value} (hs : Schema.ofIntrospection data = .ok s)
    {languages : List String} {d : Descriptor} (hd : d ∈ entityTypes s languages) {maxDepth : Int}
    {fragment : Fragment}
    (hf : make s (sourcedTypes s languages) maxDepth d.typeName = .ok fragment) :
    ∃ t, s.type? d.typeName = some t ∧ t.isObject = true ∧ fragment.selections ≠ []
      ∧ (∀ p x, Selects s t fragment.selections p x → Legal s p x
          ∨ x = .plain "entityId" [] ∧ ¬ Identifies s p
            ∧ Refers s (sourcedTypes s languages) p maxDepth.toNat t)
      ∧ ((∀ p x, Selects s t fragment.selections p x → Legal s p x)
          ↔ ∀ r, Refers s (sourcedTypes s languages) r maxDepth.toNat t → Identifies s r) := by
  have hu := unambiguous_ofIntrospection hs
  have hsrc := sourcesObjects_entityTypes hu languages
  obtain ⟨t, ht, hobj⟩ := isObject_of_mem_entityTypes hu hd
  obtain ⟨xs, hxs⟩ := selections_total hsrc maxDepth.toNat t
  have hmem := mem_of_type? ht
  have hne : xs ≠ [] := by
    rintro rfl
    rw [make_eq ht hobj hxs, if_pos rfl] at hf
    cases hf
  rw [make_eq ht hobj hxs, if_neg hne] at hf
  cases hf
  -- a field that breaks a rule can only be the `entityId` of a reference
  have hall : ∀ p x, Selects s t xs p x → Legal s p x
      ∨ x = .plain "entityId" [] ∧ ¬ Identifies s p
        ∧ Refers s (sourcedTypes s languages) p maxDepth.toNat t := by
    intro p x hx
    rcases selects_legal hu hsrc hmem hxs hx with hlegal | ⟨rfl, hid, hr⟩
    · exact .inl hlegal
    · obtain ⟨f, hf⟩ := Option.isSome_iff_exists.mp hid
      by_cases hi : Identifies s p
      · exact .inl ((identifies_iff_legal hf).mp hi)
      · exact .inr ⟨rfl, hi, hr⟩
  refine ⟨t, ht, hobj, hne, hall, fun hlegal r hr => ?_, fun hid p x hx => ?_⟩
  · intro f hf
    have hx : .plain "entityId" [] ∈ identity r :=
      mem_identity.mpr (.inr ⟨rfl, Option.isSome_iff_exists.mpr ⟨f, hf⟩⟩)
    have hl := hlegal r _ (selects_of_refers hu hsrc hmem hr hxs hx)
    exact (identifies_iff_legal hf).mpr hl f hf
  · rcases hall p x hx with hlegal | ⟨-, hi, hr⟩
    · exact hlegal
    · exact absurd (hid p hr) hi

end DefaultFragment

/-! ## A reference that is not legal

The smallest case of the exception: two types, one reference, and one argument too many. -/

namespace Sample

open DefaultFragment

/-- A remote where a node refers to a term, which tells its identifier only in a given format. -/
def formatted : Value :=
  .record [("__schema", .record [
    ("queryType", typeRef "OBJECT" "Query"),
    ("directives", .list []),
    ("types", .list [
      type "OBJECT" "Query" [] [listing "nodeQuery", listing "termQuery"],
      type "OBJECT" "EntityQueryResult" [] [field "count" [] (typeRef "SCALAR" "Int")],
      type "OBJECT" "Node" [] [field "title" [] (typeRef "SCALAR" "String"),
        field "term" [] (typeRef "OBJECT" "Term")],
      type "OBJECT" "Term" [] [field "name" [] (typeRef "SCALAR" "String"),
        field "entityId" [.record [("name", .str "format"), ("type",
          .record [("kind", .str "NON_NULL"), ("ofType", typeRef "SCALAR" "String")])]]
          (typeRef "SCALAR" "String")],
      typeRef "SCALAR" "Int", typeRef "SCALAR" "String"])])]

def formattedSchema : Schema := (Schema.ofIntrospection formatted).toOption.getD default

def nodeType : TypeDef :=
  .object "Node" [] [⟨"title", .named "String", []⟩, ⟨"term", .named "Term", []⟩]

def formatArgument : InputValue :=
  { name := "format", type := .nonNull (.named "String"), hasDefault := false, isDeprecated := false }

def termType : TypeDef :=
  .object "Term" [] [⟨"name", .named "String", []⟩, ⟨"entityId", .named "String", [formatArgument]⟩]

def nodeDescriptor : Descriptor :=
  { typeName := "Node", queryField := "nodeQuery", languages := ["EN"], expanded := false,
    abstractType := none }

theorem ofIntrospection_formatted : Schema.ofIntrospection formatted = .ok formattedSchema :=
  eq_ok_of_isSome (by decide +kernel)

theorem mem_entityTypes_formatted : nodeDescriptor ∈ entityTypes formattedSchema ["EN"] := by
  decide +kernel

/-- Nothing is wrong with the schema, and still the fragment of a node selects what it must not. -/
theorem reference_not_legal :
    formattedSchema.flaws = []
      ∧ ∃ fragment, make formattedSchema (sourcedTypes formattedSchema ["EN"]) 2 "Node" = .ok fragment
        ∧ ∃ p x, Selects formattedSchema nodeType fragment.selections p x
          ∧ ¬ Legal formattedSchema p x := by
  obtain ⟨fragment, hf⟩ : ∃ fragment,
      make formattedSchema (sourcedTypes formattedSchema ["EN"]) 2 "Node" = .ok fragment :=
    ⟨_, eq_ok_of_isSome (by decide +kernel)⟩
  obtain ⟨t, ht, -, -, -, hiff⟩ :=
    legal_but_for_references ofIntrospection_formatted mem_entityTypes_formatted hf
  have hnode : formattedSchema.type? "Node" = some nodeType := by decide +kernel
  cases hnode.symm.trans ht
  refine ⟨by decide +kernel, fragment, hf, ?_⟩
  by_contra hnone
  have hlegal : ∀ p x, Selects formattedSchema nodeType fragment.selections p x →
      Legal formattedSchema p x := by
    intro p x hx
    by_contra hl
    exact hnone ⟨p, x, hx, hl⟩
  have href : Refers formattedSchema (sourcedTypes formattedSchema ["EN"]) termType 2 nodeType :=
    .direct (f := ⟨"term", .named "Term", []⟩) (by decide) rfl (by decide +kernel) (by decide +kernel)
  obtain ⟨ha, -⟩ :=
    hiff.mp hlegal termType href ⟨"entityId", .named "String", [formatArgument]⟩ rfl
  cases ha

example : text formattedSchema (sourcedTypes formattedSchema ["EN"]) 2 "Node"
    = .ok ("fragment Node on Node \x7b\n  title\n  term \x7b\n    __typename\n    entityId\n"
      ++ "  \x7d\n\x7d\n") := by
  decide +kernel

end Sample

end Harvest
