import Harvest.Proofs.GraphQL.TypeNames

/-!
# Names in schemas

All that a schema that was read can put into a document is named properly: its types, their fields and
arguments, the types of the arguments, and the values of enums, which are no reserved words either. And no
type of an argument excludes null twice, which could not be written.

An outline knows its own name and checks it when it is read, but for the standard types, which are named
properly by inspection. A reference is read by looking its name up among the outlines, so it is a proper
name too, and its wrappers are checked on the way. What is left are arguments and fields, whose names are
checked one by one; the lemmas follow the readers and are all of the form `Gives`, which says nothing of a
reading that fails.
-/

namespace Harvest.GraphQL

/-- Whether a name can stand for an enum value: the names of the constants cannot. -/
def IsEnumName (n : String) : Prop := IsName n ∧ n ∉ ["true", "false", "null"]

instance : DecidablePred IsEnumName := fun _ => inferInstanceAs (Decidable (_ ∧ _))

/-- Whether a type can be written: its name is one, and no wrapper that excludes null lies in another. -/
def TypeRef.IsProper : TypeRef → Prop
  | .named n => IsName n
  | .list t => t.IsProper
  | .nonNull t => t.isNonNull = false ∧ t.IsProper

instance TypeRef.decidableIsProper : DecidablePred TypeRef.IsProper
  | .named n => inferInstanceAs (Decidable (IsName n))
  | .list t => decidableIsProper t
  | .nonNull t => @instDecidableAnd _ _ (inferInstanceAs (Decidable (_ = _))) (decidableIsProper t)

/-- Whether an argument or input field is named properly and its type can be written. -/
structure InputValue.WellNamed (v : InputValue) : Prop where
  name : IsName v.name
  type : v.type.IsProper

instance : DecidablePred InputValue.WellNamed := fun v =>
  decidable_of_iff (IsName v.name ∧ v.type.IsProper) ⟨fun h => ⟨h.1, h.2⟩, fun h => ⟨h.1, h.2⟩⟩

/-- Whether a field and its arguments are named properly. -/
structure Field.WellNamed (f : Field) : Prop where
  name : IsName f.name
  args : ∀ a ∈ f.args, a.WellNamed

instance : DecidablePred Field.WellNamed := fun f =>
  decidable_of_iff (IsName f.name ∧ ∀ a ∈ f.args, a.WellNamed) ⟨fun h => ⟨h.1, h.2⟩, fun h => ⟨h.1, h.2⟩⟩

namespace TypeDef

/-- The values of an enum; other types have none. -/
def values : TypeDef → List String
  | enum _ vs => vs
  | _ => []

/-- Whether a type and all its parts are named properly. -/
structure WellNamed (t : TypeDef) : Prop where
  name : IsName t.name
  fields : ∀ f ∈ t.fields, f.WellNamed
  inputFields : ∀ v ∈ t.inputFields, v.WellNamed
  values : ∀ v ∈ t.values, IsEnumName v

instance : DecidablePred WellNamed := fun t =>
  decidable_of_iff (IsName t.name ∧ (∀ f ∈ t.fields, f.WellNamed) ∧ (∀ v ∈ t.inputFields, v.WellNamed)
    ∧ ∀ v ∈ t.values, IsEnumName v) ⟨fun h => ⟨h.1, h.2.1, h.2.2.1, h.2.2.2⟩, fun h => ⟨h.1, h.2, h.3, h.4⟩⟩

end TypeDef

/-- Whether all types of a schema are named properly, with all their parts. -/
def Schema.WellNamed (s : Schema) : Prop := ∀ t ∈ s.types, t.WellNamed

namespace Introspection

variable {os : List Outline}

/-! ## Types without their references

The names of types and the values of enums, which are all that an outline has. -/

/-- What is known of the names in a type whose references are still to be read. -/
def Outline.WellNamed : Outline → Prop
  | .ready t => t.WellNamed
  | o => IsName o.name

theorem Outline.WellNamed.name {o : Outline} (h : o.WellNamed) : IsName o.name := by
  cases o with
  | ready t => exact TypeDef.WellNamed.name h
  | _ => exact h

theorem wellNamed_of_mem_implied : ∀ t ∈ Standard.implied, t.WellNamed := by decide +kernel

theorem wellNamed_of_scalar {n : String} (h : IsName n) : (TypeDef.scalar n).WellNamed :=
  ⟨h, nofun, nofun, nofun⟩

/-- A standard type is named properly. -/
theorem wellNamed_of_standard {n : String} {t : TypeDef} (h : Standard.type? n = some t) :
    t.WellNamed := by
  unfold Standard.type? at h
  split at h
  next hn =>
    cases h
    exact wellNamed_of_scalar (isName_of_scalar n (List.contains_iff_mem.mp hn))
  next => exact wellNamed_of_mem_implied t (List.mem_append_left _ (List.mem_of_find?_eq_some h))

theorem wellNamed_of_standard? {v : Value} {t : TypeDef} (h : standard? v = some t) :
    t.WellNamed := by
  unfold standard? at h
  split at h
  · exact wellNamed_of_standard h
  · cases h

/-- The values of an enum are checked as they are read. -/
theorem enumValues_isEnumName (v : Value) : Gives (enumValues v) fun vs => ∀ n ∈ vs, IsEnumName n := by
  unfold enumValues
  refine gives_bind fun _ => gives_bind fun names => gives_bind_ok fun checked hchecked => ?_
  refine gives_pure fun n hn => ?_
  obtain ⟨w, -, hw⟩ := exists_of_forall₂ (mapM_ok hchecked).flip (List.mem_eraseDups.mp hn)
  obtain ⟨m, hm, hw⟩ := bind_ok hw
  split at hw
  · cases hw
  next hreserved =>
    cases hw
    refine ⟨checkName_isName w n hm, fun hmem => hreserved ?_⟩
    simpa using hmem

/-- What is read as an outline is named properly. -/
theorem outline_wellNamed (v : Value) : Gives (outline v) Outline.WellNamed := by
  -- one case for each kind of type, in the order of the outline
  unfold outline
  refine gives_bind fun ms => gives_bind fun name => ?_
  split
  · exact gives_flaw
  split
  · split
    next t ht => exact gives_pure (wellNamed_of_standard? ht)
    next =>
      exact gives_bind_ok fun n hn => gives_bind fun _ => gives_bind fun _ =>
        gives_pure (wellNamed_of_scalar (checkName_isName name n hn))
  · split
    next t ht => exact gives_pure (wellNamed_of_standard? ht)
    next =>
      exact gives_bind_ok fun n hn => gives_bind fun _ => gives_pure (checkName_isName name n hn)
  · exact gives_bind fun _ => gives_bind_ok fun n hn => gives_bind fun _ =>
      gives_pure (checkName_isName name n hn)
  · split
    · exact gives_flaw
    · exact gives_bind fun _ => gives_bind_ok fun n hn => gives_bind fun _ =>
        gives_pure (checkName_isName name n hn)
  · split
    · exact gives_flaw
    next values _ =>
      split
      next t ht => exact gives_pure (wellNamed_of_standard? ht)
      next =>
        have hrest : Gives (do
            let n ← checkName name
            optionalText ms "description"
            return Outline.ready (.enum n (← enumValues values))) Outline.WellNamed :=
          gives_bind_ok fun n hn => gives_bind fun _ => gives_bind_ok fun vs hvs =>
            gives_pure ⟨checkName_isName name n hn, nofun, nofun, enumValues_isEnumName values vs hvs⟩
        dsimp only
        split
        · exact gives_bind fun _ => hrest
        · exact hrest
  · split
    · exact gives_flaw
    · exact gives_bind fun _ => gives_bind_ok fun n hn => gives_bind fun _ =>
        gives_pure (checkName_isName name n hn)
  all_goals exact gives_flaw

theorem outlines_wellNamed {vs : List Value} (h : outlines vs [] = .ok os) : ∀ o ∈ os, o.WellNamed :=
  outlines_all (P := Outline.WellNamed) (fun _ _ => wellNamed_of_standard) outline_wellNamed
    (fun _ ho => absurd ho List.not_mem_nil) h

/-! ## References -/

/-- A reference that was read names one of the types, and can be written. -/
theorem reference_isProper (hos : ∀ o ∈ os, IsName o.name) (fuel : Nat) (v : Value) :
    Gives (reference os fuel v) TypeRef.IsProper := by
  induction fuel generalizing v with
  | zero => exact gives_flaw
  | succ fuel ih =>
      rw [reference]
      refine gives_bind fun ms => ?_
      -- both wrappers read the reference that they wrap in the same way
      have hwrapped : Gives (if (Members.field ms "ofType").isTruthy then
          reference os fuel (Members.field ms "ofType") else flaw .emptyWrapper) TypeRef.IsProper := by
        split
        · exact ih _
        · exact gives_flaw
      dsimp only
      split
      · exact gives_bind_ok fun t ht => gives_pure (hwrapped t ht)
      · refine gives_bind_ok fun t ht => ?_
        split
        · exact gives_flaw
        next hnull => exact gives_pure ⟨Bool.eq_false_iff.mpr hnull, hwrapped t ht⟩
      split
      · exact gives_flaw
      split
      next n _ =>
        split
        next hn =>
          refine gives_pure ?_
          obtain ⟨o, ho⟩ := Option.isSome_iff_exists.mp hn
          have hname : o.name = n := eq_of_beq (List.find?_some (p := fun o : Outline => o.name == n) ho)
          exact hname ▸ hos o (List.mem_of_find?_eq_some ho)
        next => exact gives_flaw
      all_goals exact gives_flaw

/-! ## Fields and arguments

An argument is read with its type and its default; the default has no names that matter here. -/

/-- The type of an argument can be written. -/
theorem inputValue_isProper (hos : ∀ o ∈ os, IsName o.name)
    (fieldsOf : String → Value → Reading (List InputValue)) (use : String) (v : Value) :
    Gives (inputValue os fieldsOf use v) fun p => p.2.type.IsProper := by
  unfold inputValue
  refine gives_bind fun ms => gives_bind fun name => gives_bind fun w => gives_bind_ok fun t ht => ?_
  have htype : t.IsProper := reference_isProper hos _ w t ht
  -- nothing that follows changes the type
  dsimp only
  repeat' first
    | exact gives_pure htype
    | refine gives_bind fun _ => ?_
    | split

theorem namedPut_eq (vs : List InputValue) (v : InputValue) :
    named.put vs v = setBy InputValue.name v vs := by
  induction vs with
  | nil => rfl
  | cons w ws ih => rw [named.put, setBy, ih]

/-! ### Lists of fields and arguments

Each list is read into a map by name, and each name is checked before it is put there. -/

/-- Arguments whose types can be written are named properly once their names were checked. -/
theorem named_wellNamed {ps : List (Value × InputValue)} (h : ∀ p ∈ ps, p.2.type.IsProper) :
    Gives (named ps) fun vs => ∀ v ∈ vs, v.WellNamed := by
  unfold named
  refine gives_bind_ok fun checked hchecked => gives_pure ?_
  rw [show named.put = fun vs v => setBy InputValue.name v vs from
    funext fun vs => funext fun v => namedPut_eq vs v]
  intro v hv
  have hmem := (mem_foldl_setBy hv).resolve_left List.not_mem_nil
  obtain ⟨⟨n, u⟩, hp, hu⟩ := exists_of_forall₂ (mapM_ok hchecked).flip hmem
  obtain ⟨m, hm, hu⟩ := bind_ok hu
  cases hu
  exact ⟨checkName_isName n m hm, h _ hp⟩

theorem wellNamed_of_inputValues (hos : ∀ o ∈ os, IsName o.name) {vs : List Value}
    {fieldsOf : String → Value → Reading (List InputValue)} {use : String}
    {ps : List (Value × InputValue)} (h : vs.mapM (inputValue os fieldsOf use) = .ok ps) :
    Gives (named ps) fun vs => ∀ v ∈ vs, v.WellNamed := by
  refine named_wellNamed fun p hp => ?_
  obtain ⟨v, -, hv⟩ := exists_of_forall₂ (mapM_ok h).flip hp
  exact inputValue_isProper hos fieldsOf use v p hv

/-- The fields of an input object are named properly. The induction is on the depth to which input objects
are followed. -/
theorem inputFields_wellNamed (hos : ∀ o ∈ os, IsName o.name) (fuel : Nat) (n : String) (v : Value) :
    Gives (inputFields os fuel n v) fun vs => ∀ v ∈ vs, v.WellNamed := by
  cases fuel with
  | zero => exact nofun
  | succ fuel =>
      rw [inputFields]
      refine gives_bind_ok fun read hread => ?_
      obtain ⟨vs, -, hvs⟩ := bind_ok (inPart_ok hread)
      exact wellNamed_of_inputValues hos hvs

theorem arguments_wellNamed (hos : ∀ o ∈ os, IsName o.name) (v : Value) :
    Gives (arguments os v) fun vs => ∀ v ∈ vs, v.WellNamed := by
  unfold arguments
  exact gives_bind fun vs => gives_bind_ok fun read hread => wellNamed_of_inputValues hos hread

theorem field_args (hos : ∀ o ∈ os, IsName o.name) (v : Value) :
    Gives (field os v) fun p => ∀ a ∈ p.2.args, a.WellNamed := by
  unfold field
  refine gives_bind fun ms => gives_bind fun name => gives_bind fun w => gives_bind fun t => ?_
  have hargs (args : Value) (as : List InputValue) (has : arguments os args = .ok as) :
      ∀ a ∈ as, a.WellNamed := arguments_wellNamed hos args as has
  dsimp only
  repeat' first
    | exact gives_flaw
    | exact gives_pure (hargs _ _ ‹_›)
    | refine gives_bind_ok fun _ _ => ?_
    | split

/-- The fields of a type are named properly with all their arguments. -/
theorem fields_wellNamed (hos : ∀ o ∈ os, IsName o.name) (n : String) (source : Members) :
    Gives (fields os n source) fun fs => ∀ f ∈ fs, f.WellNamed := by
  unfold fields
  refine gives_bind_ok fun read hread => gives_bind_ok fun checked hchecked => gives_pure ?_
  have hread : ∀ p ∈ read, ∀ a ∈ p.2.args, a.WellNamed := by
    have hread := inPart_ok hread
    split at hread
    · cases hread
    · obtain ⟨vs, -, hvs⟩ := bind_ok hread
      intro p hp
      obtain ⟨v, -, hv⟩ := exists_of_forall₂ (mapM_ok hvs).flip hp
      exact field_args hos v p hv
  rw [show putField = fun fs f => setBy Field.name f fs from
    funext fun fs => funext fun f => putField_eq fs f]
  intro f hf
  have hmem := (mem_foldl_setBy hf).resolve_left List.not_mem_nil
  obtain ⟨⟨w, g⟩, hp, hg⟩ := exists_of_forall₂ (mapM_ok hchecked).flip hmem
  obtain ⟨m, hm, hg⟩ := bind_ok hg
  cases hg
  exact ⟨checkName_isName w m hm, hread _ hp⟩

/-- A type whose references were read is named properly with all its parts. -/
theorem resolve_wellNamed (hos : ∀ o ∈ os, IsName o.name) {o : Outline} (ho : o.WellNamed) :
    Gives (resolve os o) TypeDef.WellNamed := by
  cases o with
  | ready t => exact gives_pure ho
  | object n source =>
      exact gives_bind fun is => gives_bind_ok fun fs hfs =>
        gives_pure ⟨ho, fields_wellNamed hos n source fs hfs, nofun, nofun⟩
  | interface n source =>
      exact gives_bind fun is => gives_bind_ok fun fs hfs =>
        gives_pure ⟨ho, fields_wellNamed hos n source fs hfs, nofun, nofun⟩
  | union n types => exact gives_bind fun ms => gives_pure ⟨ho, nofun, nofun, nofun⟩
  | input n source oneOf =>
      exact gives_bind_ok fun fs hfs =>
        gives_pure ⟨ho, nofun, inputFields_wellNamed hos _ n source fs hfs, nofun⟩

/-! ## Fields of input objects

Their names are different ones, as those of the fields of objects are. -/

/-- A field of an input object that comes again replaces what was there. -/
theorem inputFields_nodup (fuel : Nat) (n : String) (v : Value) :
    Gives (inputFields os fuel n v) fun vs => (vs.map InputValue.name).Nodup := by
  cases fuel with
  | zero => exact nofun
  | succ fuel =>
      rw [inputFields]
      refine gives_bind fun read => gives_bind fun checked => gives_pure ?_
      rw [show named.put = fun vs v => setBy InputValue.name v vs from
        funext fun vs => funext fun v => namedPut_eq vs v]
      exact nodup_foldl_setBy checked List.nodup_nil

theorem resolve_inputFields {o : Outline} (ho : o.Settled) :
    Gives (resolve os o) fun t => (t.inputFields.map InputValue.name).Nodup := by
  have hnone {t : TypeDef} (ht : t.inputFields = []) : (t.inputFields.map InputValue.name).Nodup := by
    rw [ht]
    exact List.nodup_nil
  cases o with
  | ready t => exact gives_pure (hnone ho.2.2)
  | object n source => exact gives_bind fun is => gives_bind fun fs => gives_pure (hnone rfl)
  | interface n source => exact gives_bind fun is => gives_bind fun fs => gives_pure (hnone rfl)
  | union n types => exact gives_bind fun ms => gives_pure (hnone rfl)
  | input n source oneOf =>
      exact gives_bind_ok fun fs hfs => gives_pure (inputFields_nodup (inputBound os) n source fs hfs)

end Introspection

open Introspection

/-- The fields of an input object have different names. -/
theorem inputFields_ofIntrospection {data : Value} {s : Schema}
    (h : Schema.ofIntrospection data = .ok s) :
    ∀ t ∈ s.types, (t.inputFields.map InputValue.name).Nodup := by
  obtain ⟨vs, os, ts, hos, hts, hs⟩ := types_of_ofIntrospection h
  have hdistinct := outlines_distinct distinct_nil hos
  intro t ht
  rw [hs] at ht
  rcases List.mem_append.mp ht with ht | ht
  · obtain ⟨o, ho, hot⟩ := exists_of_forall₂ (mapM_ok hts).flip ht
    exact resolve_inputFields (hdistinct.settled o ho) t hot
  · rw [(settled_of_mem_implied t (List.mem_filter.mp ht).1).2.2]
    exact List.nodup_nil

/-- **Every schema that is read from an introspection result is named properly throughout.** -/
theorem wellNamed_ofIntrospection {data : Value} {s : Schema}
    (h : Schema.ofIntrospection data = .ok s) : s.WellNamed := by
  obtain ⟨vs, os, ts, hos, hts, hs⟩ := types_of_ofIntrospection h
  have houtlines := outlines_wellNamed hos
  have hnames : ∀ o ∈ os, IsName o.name := fun o ho => (houtlines o ho).name
  intro t ht
  rw [hs] at ht
  rcases List.mem_append.mp ht with ht | ht
  · obtain ⟨o, ho, hot⟩ := exists_of_forall₂ (mapM_ok hts).flip ht
    exact resolve_wellNamed hnames (houtlines o ho) t hot
  · exact wellNamed_of_mem_implied t (List.mem_filter.mp ht).1

end Harvest.GraphQL
