import Harvest.GraphQL.Schema.Introspection
import Harvest.Proofs.Basic

/-!
# Schemas that were read

A schema that came out of an introspection result has no two types of one name and no type with two
fields of one name, and its unions list objects. So a name that stands somewhere in it means one
thing.

The reader puts types and fields into lists under their names, and a name that comes again replaces what was
there. That alone gives different names among the types of the answer (`Introspection.Distinct`). The
standard types are added behind them, each only if its name is free, which `nodup_complete` says. For the
fields of one type the same argument is made within the type.

Reading may fail at any point, and nothing needs to be known then. `Introspection.Gives` is the property of
a reading that has to hold only if it succeeds, and it composes along the steps.
-/

namespace Harvest.GraphQL

/-! ## Unambiguous schemas -/

/-- Whether the names in a schema mean one thing: no two types have one name, nor two fields of a
type, and every member of a union is an object. -/
structure Schema.Unambiguous (s : Schema) : Prop where
  types : (s.types.map TypeDef.name).Nodup
  fields : ∀ t ∈ s.types, (t.fields.map Field.name).Nodup
  members : ∀ n ms, .union n ms ∈ s.types → ∀ m ∈ ms, ∃ t, s.type? m = some t ∧ t.isObject = true

namespace Schema

variable {s : Schema} {t : TypeDef} {name : String}

theorem mem_of_type? (h : s.type? name = some t) : t ∈ s.types := List.mem_of_find?_eq_some h

theorem Unambiguous.type?_name (h : s.Unambiguous) (ht : t ∈ s.types) : s.type? t.name = some t :=
  find?_name h.types ht fun _ => beq_iff_eq

theorem Unambiguous.field?_name (h : s.Unambiguous) (ht : t ∈ s.types) {f : Field}
    (hf : f ∈ t.fields) : t.field? f.name = some f :=
  find?_name (h.fields t ht) hf fun _ => beq_iff_eq

end Schema

/-! ## Kinds of types

The kinds exclude each other as they do in the language: what has fields or members is no leaf. -/

namespace TypeDef

variable {t : TypeDef}

theorem isLeaf_of_isComposite (h : t.isComposite = true) : t.isLeaf = false := by
  cases t <;> first | rfl | cases h

theorem isComposite_of_isUnion (h : t.isUnion = true) : t.isComposite = true := by
  cases t <;> first | rfl | cases h

theorem isComposite_of_isObject (h : t.isObject = true) : t.isComposite = true := by
  cases t <;> first | rfl | cases h

theorem isUnion_of_isObject (h : t.isObject = true) : t.isUnion = false := by
  cases t <;> first | rfl | cases h

/-- Only objects and interfaces have fields. -/
theorem kind_of_mem_fields {f : Field} (h : f ∈ t.fields) :
    t.isComposite = true ∧ t.isUnion = false := by
  cases t with
  | object => exact ⟨rfl, rfl⟩
  | interface => exact ⟨rfl, rfl⟩
  | _ => cases h

end TypeDef

/-! ## Reading

From the values of the answer to outlines, which know their names and kinds, and from outlines to types,
whose references have been looked up among the outlines. -/

namespace Introspection

theorem putField_eq (fs : List Field) (f : Field) : putField fs f = setBy Field.name f fs := by
  induction fs with
  | nil => rfl
  | cons g gs ih => rw [putField, setBy, ih]

theorem put_eq (o : Outline) (os : List Outline) : outlines.put o os = setBy Outline.name o os := by
  induction os with
  | nil => rfl
  | cons p ps ih => rw [outlines.put, setBy, ih]

/-- What holds of the types that refer to no type that is still to be read: the names of their
fields differ, and none of them is a union or an input object. -/
def Outline.Settled : Outline → Prop
  | .ready t => (t.fields.map Field.name).Nodup ∧ t.isUnion = false ∧ t.inputFields = []
  | _ => True

theorem settled_of_mem_implied :
    ∀ t ∈ Standard.implied,
      (t.fields.map Field.name).Nodup ∧ t.isUnion = false ∧ t.inputFields = [] := by
  decide +kernel

theorem nodup_implied : (Standard.implied.map TypeDef.name).Nodup := by
  decide +kernel

/-- A standard type refers to no type that is still to be read. -/
theorem settled_of_standard {n : String} {t : TypeDef} (h : Standard.type? n = some t) :
    (Outline.ready t).Settled := by
  unfold Standard.type? at h
  split at h
  · cases h
    exact ⟨List.nodup_nil, rfl, rfl⟩
  · exact settled_of_mem_implied t (List.mem_append_left _ (List.mem_of_find?_eq_some h))

theorem settled_of_standard? {v : Value} {t : TypeDef} (h : standard? v = some t) :
    (Outline.ready t).Settled := by
  unfold standard? at h
  split at h
  · exact settled_of_standard h
  · cases h

/-- Whether a reading that succeeds gives a value with a property. -/
def Gives {α : Type} (r : Reading α) (P : α → Prop) : Prop := ∀ a, r = .ok a → P a

theorem gives_pure {α : Type} {P : α → Prop} {a : α} (h : P a) : Gives (pure a) P :=
  fun _ ha => Except.ok.inj ha ▸ h

theorem gives_flaw {α : Type} {P : α → Prop} {f : Flaw} : Gives (flaw f) P := nofun

/-- A reading that goes on from another one is judged by what comes of it in the end. -/
theorem gives_bind {α β : Type} {P : β → Prop} {r : Reading α} {f : α → Reading β}
    (h : ∀ a, Gives (f a) P) : Gives (r >>= f) P := by
  intro b hb
  obtain ⟨a, -, hb⟩ := bind_ok hb
  exact h a b hb

/-- A reading that goes on from what was read. -/
theorem gives_bind_ok {α β : Type} {P : β → Prop} {r : Reading α} {f : α → Reading β}
    (h : ∀ a, r = .ok a → Gives (f a) P) : Gives (r >>= f) P := by
  intro b hb
  obtain ⟨a, ha, hb⟩ := bind_ok hb
  exact h a ha b hb

/-- What is read as a type is a standard type, or else it is settled and its name was checked. -/
def Outline.Checked (o : Outline) : Prop :=
  (∃ v t, standard? v = some t ∧ o = .ready t) ∨ (∃ v, checkName v = .ok o.name) ∧ o.Settled

/-! ### Outlines

The types are first read one by one, and a second type of the same name takes the place of the first. -/

/-- Every type is read as an outline that is settled and has a checked name. -/
theorem outline_checked (v : Value) : Gives (outline v) Outline.Checked := by
  unfold outline
  refine gives_bind fun ms => gives_bind fun name => ?_
  split
  · exact gives_flaw
  split
  · split
    next t ht => exact gives_pure (.inl ⟨_, t, ht, rfl⟩)
    next =>
      exact gives_bind_ok fun n hn => gives_bind fun _ => gives_bind fun _ =>
        gives_pure (.inr ⟨⟨_, hn⟩, List.nodup_nil, rfl, rfl⟩)
  · split
    next t ht => exact gives_pure (.inl ⟨_, t, ht, rfl⟩)
    next => exact gives_bind_ok fun n hn => gives_bind fun _ => gives_pure (.inr ⟨⟨_, hn⟩, trivial⟩)
  · exact gives_bind fun _ => gives_bind_ok fun n hn => gives_bind fun _ =>
      gives_pure (.inr ⟨⟨_, hn⟩, trivial⟩)
  · split
    · exact gives_flaw
    · exact gives_bind fun _ => gives_bind_ok fun n hn => gives_bind fun _ =>
        gives_pure (.inr ⟨⟨_, hn⟩, trivial⟩)
  · split
    · exact gives_flaw
    split
    next t ht => exact gives_pure (.inl ⟨_, t, ht, rfl⟩)
    next =>
      -- the values decide first, but whatever they are, the name and the description come next
      have hrest (vs : Reading (List String)) :
          Gives (do
            let n ← checkName name
            optionalText ms "description"
            return .ready (.enum n (← vs))) Outline.Checked :=
        gives_bind_ok fun n hn => gives_bind fun _ => gives_bind fun vs =>
          gives_pure (.inr ⟨⟨_, hn⟩, List.nodup_nil, rfl, rfl⟩)
      dsimp only
      split
      · exact gives_bind fun _ => hrest _
      · exact hrest _
  · split
    · exact gives_flaw
    · exact gives_bind fun _ => gives_bind_ok fun n hn => gives_bind fun _ =>
        gives_pure (.inr ⟨⟨_, hn⟩, trivial⟩)
  all_goals exact gives_flaw

theorem outline_settled (v : Value) : Gives (outline v) Outline.Settled := by
  intro o ho
  rcases outline_checked v o ho with ⟨w, t, ht, rfl⟩ | ⟨-, hsettled⟩
  · exact settled_of_standard? ht
  · exact hsettled

/-- Outlines that were read so far: settled, and each under a name of its own. -/
structure Distinct (os : List Outline) : Prop where
  nodup : (os.map Outline.name).Nodup
  settled : ∀ o ∈ os, o.Settled

theorem distinct_nil : Distinct [] where
  nodup := List.nodup_nil
  settled := nofun

/-- Outlines that are put one after the other stay under names of their own. -/
theorem outlines_distinct {vs : List Value} {acc os : List Outline} (hacc : Distinct acc)
    (h : outlines vs acc = .ok os) : Distinct os := by
  induction vs generalizing acc with
  | nil =>
      cases h
      exact hacc
  | cons v vs ih =>
      rw [outlines] at h
      obtain ⟨o, ho, h⟩ := bind_ok h
      refine ih ?_ h
      rw [put_eq]
      refine ⟨nodup_setBy hacc.nodup, fun p hp => ?_⟩
      rcases mem_setBy hp with rfl | hp
      · split
        next t ht => exact settled_of_standard ht
        next => exact outline_settled v o ho
      · exact hacc.settled p hp

/-! ### References

Then the references are read, with all outlines at hand. A member of a union has to be an object. -/

/-- The fields that are read of one type have different names. -/
theorem fields_nodup {os : List Outline} {n : String} {source : Members} {fs : List Field}
    (h : fields os n source = .ok fs) : (fs.map Field.name).Nodup := by
  obtain ⟨read, -, h⟩ := bind_ok h
  obtain ⟨checked, -, h⟩ := bind_ok h
  cases h
  rw [show putField = fun gs g => setBy Field.name g gs from
    funext fun gs => funext fun g => putField_eq gs g]
  exact nodup_foldl_setBy checked List.nodup_nil

/-- Where the part of a type is noted for a complaint, what is read stays the same. -/
theorem inPart_ok {α : Type} {type : String} {part : TypePart} {r : Reading α} {a : α}
    (h : inPart type part r = .ok a) : r = .ok a := by
  cases r with
  | error e => cases h
  | ok b => exact h

/-- What is read as the name of an object is the name of an object. -/
theorem objectOf_isObject {os : List Outline} {v : Value} {n : String} (h : objectOf os v = .ok n) :
    ∃ o, find? os n = some o ∧ o.isObject = true := by
  obtain ⟨t, -, h⟩ := bind_ok h
  split at h
  next m =>
    split at h
    next hm =>
      cases h
      cases ho : find? os n with
      | none => rw [ho] at hm; cases hm
      | some o =>
          rw [ho] at hm
          exact ⟨o, rfl, hm⟩
    next => cases h
  next => cases h

/-- What a type is whose references were read: the type of its outline, with fields of different
names and with objects for members. -/
structure Outline.Resolved (os : List Outline) (o : Outline) (t : TypeDef) : Prop where
  name : t.name = o.name
  isObject : t.isObject = o.isObject
  fields : (t.fields.map Field.name).Nodup
  members : ∀ n ms, t = .union n ms → ∀ m ∈ ms, ∃ p, find? os m = some p ∧ p.isObject = true

/-- An outline becomes a type when its references are read. -/
theorem resolve_resolved {os : List Outline} {o : Outline} {t : TypeDef} (ho : o.Settled)
    (h : resolve os o = .ok t) : o.Resolved os t := by
  cases o with
  | ready u =>
      cases h
      exact ⟨rfl, rfl, ho.1, fun n ms hu => by rw [hu] at ho; cases ho.2.1⟩
  | object n source =>
      obtain ⟨is, -, h⟩ := bind_ok h
      obtain ⟨fs, hfs, h⟩ := bind_ok h
      cases h
      exact ⟨rfl, rfl, fields_nodup hfs, nofun⟩
  | interface n source =>
      obtain ⟨is, -, h⟩ := bind_ok h
      obtain ⟨fs, hfs, h⟩ := bind_ok h
      cases h
      exact ⟨rfl, rfl, fields_nodup hfs, nofun⟩
  | union n types =>
      obtain ⟨ms, hms, h⟩ := bind_ok h
      cases h
      refine ⟨rfl, rfl, List.nodup_nil, fun n' ms' hu m hm => ?_⟩
      cases hu
      obtain ⟨vs, -, hvs⟩ := bind_ok (inPart_ok hms)
      obtain ⟨v, -, hv⟩ := exists_of_forall₂ (mapM_ok hvs).flip hm
      exact objectOf_isObject hv
  | input n source oneOf =>
      obtain ⟨fs, -, h⟩ := bind_ok h
      cases h
      exact ⟨rfl, rfl, List.nodup_nil, nofun⟩

/-! ### Whole schemas -/

/-- The types of a schema that was read, by the outlines that they come from. -/
theorem types_of_resolved {os : List Outline} {ts : List TypeDef} (hos : Distinct os)
    (h : os.mapM (resolve os) = .ok ts) : List.Forall₂ (Outline.Resolved os) os ts := by
  have hall := mapM_ok h
  rw [List.forall₂_iff_get] at hall ⊢
  refine ⟨hall.1, fun i hi hi' => ?_⟩
  exact resolve_resolved (hos.settled _ (List.get_mem os ⟨i, hi⟩)) (hall.2 i hi hi')

end Introspection

open Introspection

/-- The standard types that a schema lacks go by names that it does not use. -/
theorem nodup_complete {ts : List TypeDef} (h : (ts.map TypeDef.name).Nodup) :
    ((Standard.complete ts).map TypeDef.name).Nodup := by
  rw [Standard.complete, List.map_append]
  refine h.append (nodup_implied.sublist (List.filter_sublist.map _)) fun n hn hn' => ?_
  obtain ⟨t, ht, rfl⟩ := List.mem_map.mp hn
  obtain ⟨u, hu, hname⟩ := List.mem_map.mp hn'
  have hne := List.all_eq_true.mp (List.mem_filter.mp hu).2 t ht
  exact absurd hname.symm (bne_iff_ne.mp hne)

/-- With the standard types added, a schema is unambiguous if its outlines were distinct. -/
theorem unambiguous_complete {os : List Outline} {ts : List TypeDef} {s : Schema}
    (hos : Distinct os) (h : List.Forall₂ (Outline.Resolved os) os ts)
    (hs : s.types = Standard.complete ts) : s.Unambiguous := by
  have hname : ts.map TypeDef.name = os.map Outline.name := by
    have heq : List.Forall₂ (· = ·) (ts.map TypeDef.name) (os.map Outline.name) := by
      rw [List.forall₂_map_left_iff, List.forall₂_map_right_iff]
      exact h.flip.imp fun t o ho => ho.name
    exact (congrFun (congrFun List.forall₂_eq_eq_eq _) _).mp heq
  have htypes : (s.types.map TypeDef.name).Nodup := by
    rw [hs]
    exact nodup_complete (hname ▸ hos.nodup)
  have hmem (t : TypeDef) (ht : t ∈ s.types) :
      (∃ o : Outline, o.Resolved os t) ∨ (Outline.ready t).Settled := by
    rw [hs] at ht
    rcases List.mem_append.mp ht with ht | ht
    · obtain ⟨o, -, ho⟩ := exists_of_forall₂ h.flip ht
      exact .inl ⟨o, ho⟩
    · exact .inr (settled_of_mem_implied t (List.mem_filter.mp ht).1)
  refine ⟨htypes, fun t ht => ?_, fun n ms hu m hm => ?_⟩
  · rcases hmem t ht with ⟨o, ho⟩ | ho
    · exact ho.fields
    · exact ho.1
  · rcases hmem _ hu with ⟨o, ho⟩ | ho
    -- the member was an outline when it was looked up, and is the type that came of it now
    · obtain ⟨p, hp, hobj⟩ := ho.members n ms rfl m hm
      obtain ⟨t, ht, hpt⟩ := exists_of_forall₂ h (List.mem_of_find?_eq_some hp)
      have hpm : p.name = m := eq_of_beq (List.find?_some (p := fun o : Outline => o.name == m) hp)
      have htm : s.type? t.name = some t := find?_name htypes (hs ▸ List.mem_append_left _ ht) fun _ => beq_iff_eq
      refine ⟨t, ?_, hpt.isObject.trans hobj⟩
      rw [← hpm, ← hpt.name]
      exact htm
    · cases ho.2.1

/-- The types of a schema that was read: those of its outlines, and the standard ones. -/
theorem types_of_ofIntrospection {data : Value} {s : Schema} (h : Schema.ofIntrospection data = .ok s) :
    ∃ vs os ts, outlines vs [] = .ok os ∧ os.mapM (resolve os) = .ok ts
      ∧ s.types = Standard.complete ts := by
  unfold Schema.ofIntrospection at h
  split at h
  next schema hschema =>
    obtain ⟨types, -, h⟩ := bind_ok h
    obtain ⟨vs, -, h⟩ := bind_ok h
    obtain ⟨os, hos, h⟩ := bind_ok h
    refine (?_ : Gives _ fun s : Schema => ∃ vs os ts, outlines vs [] = .ok os
      ∧ os.mapM (resolve os) = .ok ts ∧ s.types = Standard.complete ts) s h
    refine gives_bind fun query => gives_bind fun mutation => gives_bind fun subscription => ?_
    -- the directives are read before the references of the types, and change nothing about them
    have hrest (directives : List DirectiveDef) :
        Gives (do
          optionalText schema "description"
          let resolved ← os.mapM (resolve os)
          return { types := Standard.complete resolved, query, mutation, subscription, directives })
          fun s : Schema => ∃ vs os ts, outlines vs [] = .ok os ∧ os.mapM (resolve os) = .ok ts
            ∧ s.types = Standard.complete ts := by
      refine gives_bind fun _ s hs => ?_
      obtain ⟨ts, hts, hs⟩ := bind_ok hs
      cases hs
      exact ⟨vs, os, ts, hos, hts, rfl⟩
    dsimp only
    split
    · exact gives_bind fun ds => hrest ds
    · split
      · exact gives_bind fun vs => gives_bind fun ds => hrest ds
      · exact gives_bind fun ds => hrest ds
  next => cases h

/-- **Every schema that is read from an introspection result is unambiguous.** -/
theorem unambiguous_ofIntrospection {data : Value} {s : Schema}
    (h : Schema.ofIntrospection data = .ok s) : s.Unambiguous := by
  obtain ⟨vs, os, ts, hos, hts, hs⟩ := types_of_ofIntrospection h
  have hdistinct := outlines_distinct distinct_nil hos
  exact unambiguous_complete hdistinct (types_of_resolved hdistinct hts) hs

end Harvest.GraphQL
