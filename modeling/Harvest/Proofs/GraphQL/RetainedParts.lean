import Harvest.Proofs.Data.Json
import Harvest.Proofs.GraphQL.Literals
import Harvest.Proofs.GraphQL.SchemaNames

/-!
# What a literal retains of a value

A search for a literal leaves out what the type has no place for: members that an input object does not
know, and parts of a list or an object that have no literal at their type. It does so without a word, as
the rest has its literal all the same.

`Literal.Accommodates` says when a type has a place for every part of a value, and `ofValue?_retains_iff`
that there is a literal with a counterpart for every part exactly then.

Both relations are defined along the types, and neither mentions the search. `Retains` goes down the value
and the literal together; `Accommodates` goes down the value and the type. The search is between them, and
`Captures` says that it ends in a literal that retains everything. With enough fuel the three agree, level
by level: `captures_list` for lists, `captures_members` for input objects, and leaves by what a scalar or an
enum does.
-/

namespace Harvest.GraphQL

open Schema

namespace Literal

/-- Whether a literal has a counterpart for every part of a value, at every level: for each item of a list
in its place, for each member of an object under its key, and nothing besides. -/
inductive Retains : Value → Literal → Prop where
  | atom {a : Atom} {x : Literal} : Retains (.atom a) x
  | items {v : Value} {vs : List Value} {xs : List Literal} (hvs : v.items? = some vs)
      (h : List.Forall₂ Retains vs xs) : Retains v (.list xs)
  | members {ms : Members} {fs : List (String × Literal)} (hkeys : ∀ m ∈ ms, ∃ f ∈ fs, m.1 = .str f.1)
      (hknown : ∀ f ∈ fs, (Members.field? ms f.1).isSome = true)
      (h : ∀ f ∈ fs, ∀ w, Members.field? ms f.1 = some w → Retains w f.2) :
      Retains (.object ms) (.object fs)

/-- Whether a type has a place for every part of a value. -/
inductive Accommodates (s : Schema) : TypeRef → Value → Prop where
  | null {t : TypeRef} {v : Value} (ht : t.isNonNull = false) (hv : v.isNull = true) : Accommodates s t v
  | nonNull {t : TypeRef} {v : Value} (hv : v.isNull = false) (h : Accommodates s t v) :
      Accommodates s (.nonNull t) v
  | items {t : TypeRef} {v : Value} {vs : List Value} (hvs : v.items? = some vs)
      (h : ∀ w ∈ vs, Accommodates s t w) : Accommodates s (.list t) v
  /-- A value that stands for the list of itself. -/
  | sole {t : TypeRef} {v : Value} (hv : v.isNull = false) (hvs : v.items? = none)
      (h : Accommodates s t v) : Accommodates s (.list t) v
  /-- An object all of whose keys are known. -/
  | members {n : String} {o : InputObject} {ms : Members} (ho : s.type? n = some (.input o))
      (hkeys : ∀ m ∈ ms, ∃ f ∈ o.fields, m.1 = .str f.name)
      (h : ∀ f ∈ o.fields, ∀ w, Members.field? ms f.name = some w → Accommodates s f.type w) :
      Accommodates s (.named n) (.object ms)
  | scalar {n m : String} {v : Value} {x : Literal} (hv : v.isNull = false)
      (hm : s.type? n = some (.scalar m)) (h : ofScalar m v = .ok x) : Accommodates s (.named n) v
  | enum {n m : String} {values : List String} {v : Value} {x : Literal} (hv : v.isNull = false)
      (hm : s.type? n = some (.enum m values)) (h : ofEnum m values v = .ok x) :
      Accommodates s (.named n) v

/-! ## Leaves

A scalar or an enum takes the value as a whole or refuses it. -/

section Leaves

variable {m : String} {values : List String} {v : Value} {x : Literal}

theorem ofScalar_ne_null (h : ofScalar m v = .ok x) : x ≠ .null := by
  rintro rfl
  -- none of the standard scalars gives null for a value
  unfold ofScalar at h
  split at h
  next =>
    obtain ⟨i, -, hi⟩ := map_ok_iff.mp h
    cases hi
  next =>
    unfold floatOf at h
    split at h
    next => cases h
    next =>
      split at h
      next => split at h <;> cases h
      next => cases h
      next => cases h
  next =>
    obtain ⟨t, -, ht⟩ := map_ok_iff.mp h
    cases ht
  next =>
    obtain ⟨b, -, hb⟩ := map_ok_iff.mp h
    cases hb
  next =>
    obtain ⟨t, -, ht⟩ := map_ok_iff.mp h
    split at ht <;> cases ht
  next =>
    split at h
    next => cases h
    next => cases h
    next => split at h <;> cases h
    next => cases h
    next => cases h

/-- Scalars have literals for atoms only. -/
theorem atom_of_ofScalar (h : ofScalar m v = .ok x) : ∃ a, v = .atom a := by
  cases v with
  | atom a => exact ⟨a, rfl⟩
  | _ =>
      unfold ofScalar at h
      split at h <;> cases h

/-- Enums have literals for texts only. -/
theorem ofEnum_ok (h : ofEnum m values v = .ok x) : ∃ t, v = .str t ∧ x = .enum t := by
  unfold ofEnum at h
  split at h
  next t =>
    split at h
    next =>
      cases h
      exact ⟨t, rfl, rfl⟩
    next => cases h
  next => cases h

end Leaves

/-! ## Collected parts

What a search collects from several parts is shorter than the parts if something was left out. This is how
losses are noticed. -/

section Parts

variable {β α : Type} {f : β → Except CoercionError (Option α)} {bs : List β} {xs : List α}

theorem exists_collectM (h : ∀ b ∈ bs, ∃ o, f b = .ok o) : ∃ xs, collectM f bs = .ok xs := by
  cases hxs : collectM f bs with
  | ok xs => exact ⟨xs, rfl⟩
  | error e =>
      obtain ⟨b, hb, e', he⟩ := error_collectM_iff.mp ⟨e, hxs⟩
      obtain ⟨o, ho⟩ := h b hb
      cases he.symm.trans ho

/-- No more is collected than there are parts. -/
theorem length_collectM_le (h : collectM f bs = .ok xs) : xs.length ≤ bs.length := by
  induction bs generalizing xs with
  | nil =>
      cases h
      exact Nat.le_refl 0
  | cons b bs ih =>
      rw [collectM] at h
      split at h
      next => cases h
      next o ho =>
        obtain ⟨ys, hys, rfl⟩ := map_ok_iff.mp h
        have hle := ih hys
        cases o with
        | none => exact Nat.le_succ_of_le hle
        | some x => exact Nat.succ_le_succ hle

/-- What is collected matches the parts one by one exactly if each of them has something that does. -/
theorem forall₂_collectM_iff {R : β → α → Prop} :
    (∃ xs, collectM f bs = .ok xs ∧ List.Forall₂ R bs xs)
      ↔ ∀ b ∈ bs, ∃ x, f b = .ok (some x) ∧ R b x := by
  induction bs with
  | nil => exact ⟨fun _ => nofun, fun _ => ⟨[], rfl, .nil⟩⟩
  | cons b bs ih =>
      rw [List.forall_mem_cons, ← ih]
      constructor
      · rintro ⟨xs, hxs, hR⟩
        rw [collectM] at hxs
        split at hxs
        next => cases hxs
        next o ho =>
          obtain ⟨ys, hys, rfl⟩ := map_ok_iff.mp hxs
          cases o with
          | none =>
              -- without a counterpart of the first part there are too few for the rest
              have hlength := hR.length_eq
              have hle := length_collectM_le hys
              rw [List.length_cons] at hlength
              exact absurd hle (by simp only [Option.toList_none, List.nil_append] at hlength; omega)
          | some x =>
              cases hR with
              | cons hx hR => exact ⟨⟨x, ho, hx⟩, ys, hys, hR⟩
      · rintro ⟨⟨x, hx, hRx⟩, ys, hys, hR⟩
        refine ⟨x :: ys, ?_, .cons hRx hR⟩
        rw [collectM, hx]
        dsimp only
        rw [hys]
        rfl

end Parts

/-! ## One level of the search

For each kind of type, a value is captured if its parts are. -/

section Level

variable {s : Schema} {fuel : Nat} {t : TypeRef} {n : String} {v w : Value} {x : Literal} {ms : Members}
  {o : InputObject} {f : InputValue}

/-- An object has a member for a key exactly if the key is among its keys. -/
theorem isSome_field?_iff {key : String} :
    (Members.field? ms key).isSome = true ↔ ∃ m ∈ ms, m.1 = .str key := by
  rw [Members.field?, Members.get?, Option.isSome_map, List.find?_isSome]
  simp only [Json.sameKey_str]

theorem memberFor_ok_iff {p : String × Literal} :
    memberFor s fuel ms f = .ok (some p) ↔ ∃ w x, Members.field? ms f.name = some w
      ∧ ofValueWith s fuel f.type w = .ok (some x) ∧ p = (f.name, x) := by
  unfold memberFor
  cases Members.field? ms f.name with
  | none => exact ⟨nofun, nofun⟩
  | some w =>
      dsimp only
      rw [map_ok_iff]
      constructor
      · rintro ⟨r, hr, hp⟩
        obtain ⟨x, rfl, rfl⟩ := Option.map_eq_some_iff.mp hp
        exact ⟨w, x, rfl, hr, rfl⟩
      · rintro ⟨w, x, hw, hx, rfl⟩
        cases hw
        exact ⟨some x, hx, rfl⟩

theorem memberFor_none (h : Members.field? ms f.name = none) : memberFor s fuel ms f = .ok none := by
  rw [memberFor, h]

/-- What the literals of a named type are made of, by the kind of the type. -/
theorem ofValueWith_named (hv : v.isNull = false) (htree : v.isTree = true)
    (h : ofValueWith s (fuel + 1) (.named n) v = .ok (some x)) :
    (∃ m, s.type? n = some (.scalar m) ∧ ofScalar m v = .ok x)
      ∨ (∃ m values, s.type? n = some (.enum m values) ∧ ofEnum m values v = .ok x)
      ∨ ∃ o ms fs, s.type? n = some (.input o) ∧ v = .object ms
        ∧ collectM (memberFor s fuel ms) o.fields = .ok fs ∧ x = .object fs := by
  have hforeign (hn : ∀ t, s.type? n = some t → t.isInput = false) :
      ofValueWith s (fuel + 1) (.named n) v ≠ .ok (some x) := by
    rw [ofValueWith_foreign hn hv]
    nofun
  -- three kinds of types give a literal, the others refuse every value
  cases hn : s.type? n with
  | none => exact absurd h (hforeign fun t ht => nomatch hn.symm.trans ht)
  | some t =>
      cases t with
      | scalar m =>
          rw [ofValueWith_scalar hn hv] at h
          obtain ⟨y, hy, hyx⟩ := map_ok_iff.mp h
          cases hyx
          exact .inl ⟨m, rfl, hy⟩
      | enum m values =>
          rw [ofValueWith_enum hn hv] at h
          obtain ⟨y, hy, hyx⟩ := map_ok_iff.mp h
          cases hyx
          exact .inr (.inl ⟨m, values, rfl, hy⟩)
      | input o =>
          by_cases hms : ∃ ms, v = .object ms
          · obtain ⟨ms, rfl⟩ := hms
            rw [ofValueWith_members hn] at h
            obtain ⟨fs, hfs, hx⟩ := map_ok_iff.mp h
            cases hx
            exact .inr (.inr ⟨o, ms, fs, rfl, rfl, hfs, rfl⟩)
          · rw [ofValueWith_input hn hv htree (not_exists.mp hms)] at h
            cases h
      | object | interface | union =>
          refine absurd h (hforeign fun t ht => ?_)
          cases hn.symm.trans ht
          rfl

/-- Null and nothing else has null for its literal. -/
theorem eq_null_iff (htree : v.isTree = true) (h : ofValueWith s fuel t v = .ok (some x)) :
    x = .null ↔ v.isNull = true := by
  -- on the fuel, with the cases of the type; only a null gives a null literal
  induction fuel generalizing t with
  | zero => cases h
  | succ fuel ih =>
      cases t with
      | nonNull t =>
          rw [ofValueWith_nonNull] at h
          split at h
          next => cases h
          next => exact ih h
      | list t =>
          cases hv : v.isNull with
          | true =>
              rw [ofValueWith_null rfl hv] at h
              cases h
              exact iff_of_true rfl rfl
          | false =>
              cases hvs : v.items? with
              | some vs =>
                  rw [ofValueWith_items hvs] at h
                  obtain ⟨ls, -, hls⟩ := map_ok_iff.mp h
                  cases hls
                  exact iff_of_false Literal.noConfusion Bool.false_ne_true
              | none =>
                  rw [ofValueWith_sole hv hvs] at h
                  exact hv ▸ ih h
      | named n =>
          cases hv : v.isNull with
          | true =>
              rw [ofValueWith_null rfl hv] at h
              cases h
              exact iff_of_true rfl rfl
          | false =>
              refine iff_of_false ?_ Bool.false_ne_true
              obtain ⟨m, -, hm⟩ | ⟨m, values, -, hm⟩ | ⟨o, ms, fs, -, -, -, rfl⟩ :=
                ofValueWith_named hv htree h
              · exact ofScalar_ne_null hm
              · obtain ⟨t, -, rfl⟩ := ofEnum_ok hm
                exact nofun
              · exact nofun

/-- Whether a search ends in a literal that retains the whole value. -/
def Captures (s : Schema) (fuel : Nat) (t : TypeRef) (v : Value) : Prop :=
  ∃ x, ofValueWith s fuel t v = .ok (some x) ∧ Retains v x

/-! ### Values that are captured

`Captures` says of a search with a given fuel that it is as good as can be. For each kind of type it comes
down to the parts of the value, which are searched with less fuel. -/

theorem captures_null (ht : t.isNonNull = false) (hv : v.isNull = true) :
    Captures s (fuel + 1) t v ↔ Accommodates s t v := by
  refine iff_of_true ⟨.null, ofValueWith_null ht hv, ?_⟩ (.null ht hv)
  cases v with
  | atom a => exact .atom
  | _ => cases hv

theorem captures_nonNull_iff (htree : v.isTree = true) :
    Captures s (fuel + 1) (.nonNull t) v ↔ v.isNull = false ∧ Captures s fuel t v := by
  constructor
  · rintro ⟨x, hx, hr⟩
    have hnull := eq_null_iff htree hx
    rw [ofValueWith_nonNull] at hx
    split at hx
    next => cases hx
    next hne =>
      refine ⟨Bool.eq_false_iff.mpr fun hv => ?_, x, hx, hr⟩
      rw [hnull.mpr hv] at hx
      exact hne hx
  · rintro ⟨hv, x, hx, hr⟩
    refine ⟨x, ?_, hr⟩
    rw [ofValueWith_nonNull]
    split
    next hnone =>
      cases hx.symm.trans hnone
      cases hv.symm.trans ((eq_null_iff htree hx).mp rfl)
    next => exact hx

/-- A list is captured if its items are. -/
theorem captures_list (hv : v.isNull = false)
    (hitems : ∀ {vs : List Value} {w : Value}, v.items? = some vs → w ∈ vs →
      (Captures s fuel t w ↔ Accommodates s t w))
    (hsole : v.items? = none → (Captures s fuel t v ↔ Accommodates s t v)) :
    Captures s (fuel + 1) (.list t) v ↔ Accommodates s (.list t) v := by
  -- a value that is no list stands for a list of one item
  cases hvs : v.items? with
  | some vs =>
      have hall : (∀ w ∈ vs, Captures s fuel t w) ↔ ∀ w ∈ vs, Accommodates s t w :=
        forall₂_congr fun w hw => hitems hvs hw
      constructor
      · rintro ⟨x, hx, hr⟩
        rw [ofValueWith_items hvs] at hx
        obtain ⟨xs, hxs, hx⟩ := map_ok_iff.mp hx
        cases hx
        cases hr with
        | atom => cases hvs
        | items hvs' hr =>
            cases hvs.symm.trans hvs'
            exact .items hvs (hall.mp (forall₂_collectM_iff.mp ⟨xs, hxs, hr⟩))
      · intro h
        cases h with
        | null _ hv' => cases hv.symm.trans hv'
        | items hvs' h =>
            cases hvs.symm.trans hvs'
            obtain ⟨xs, hxs, hr⟩ := forall₂_collectM_iff.mpr (hall.mpr h)
            refine ⟨.list xs, ?_, .items hvs hr⟩
            rw [ofValueWith_items hvs, hxs]
            rfl
        | sole _ hvs' => cases hvs.symm.trans hvs'
  | none =>
      have hstep : Captures s (fuel + 1) (.list t) v ↔ Captures s fuel t v := by
        unfold Captures
        rw [ofValueWith_sole hv hvs]
      rw [hstep, hsole hvs]
      refine ⟨.sole hv hvs, fun h => ?_⟩
      cases h with
      | null _ hv' => cases hv.symm.trans hv'
      | items hvs' => cases hvs.symm.trans hvs'
      | sole _ _ h => exact h

/-- An object is captured if its members are and all its keys are known. -/
theorem captures_members (hnames : (o.fields.map InputValue.name).Nodup) (ho : s.type? n = some (.input o))
    (hfields : ∀ f ∈ o.fields, ∀ w, Members.field? ms f.name = some w →
      (Captures s fuel f.type w ↔ Accommodates s f.type w)) :
    Captures s (fuel + 1) (.named n) (.object ms) ↔ Accommodates s (.named n) (.object ms) := by
  constructor
  · rintro ⟨x, hx, hr⟩
    rw [ofValueWith_members ho] at hx
    obtain ⟨fs, hfs, hx⟩ := map_ok_iff.mp hx
    cases hx
    cases hr with
    | members hkeys hknown hr =>
        -- every member of the literal belongs to the field that it is named after
        have hfield : ∀ m ∈ ms, ∃ f ∈ o.fields, m.1 = .str f.name ∧ ∃ w x,
            Members.field? ms f.name = some w ∧ ofValueWith s fuel f.type w = .ok (some x)
              ∧ (f.name, x) ∈ fs := by
          intro m hm
          obtain ⟨p, hp, hmp⟩ := hkeys m hm
          obtain ⟨f, hf, hfp⟩ := (mem_collectM hfs).mp hp
          obtain ⟨w, x, hw, hx, rfl⟩ := memberFor_ok_iff.mp hfp
          exact ⟨f, hf, hmp, w, x, hw, hx, hp⟩
        refine .members ho (fun m hm => ?_) fun f hf w hw => (hfields f hf w hw).mp ?_
        · obtain ⟨f, hf, hmf, -⟩ := hfield m hm
          exact ⟨f, hf, hmf⟩
        · obtain ⟨m, hm, hmf⟩ := isSome_field?_iff.mp (Option.isSome_iff_exists.mpr ⟨w, hw⟩)
          obtain ⟨g, hg, hmg, w', x, hw', hx, hp⟩ := hfield m hm
          have hname : g.name = f.name := Atom.str.inj (hmg.symm.trans hmf)
          cases List.inj_on_of_nodup_map hnames hg hf hname
          cases hw.symm.trans hw'
          exact ⟨x, hx, hr _ hp w hw⟩
  · intro h
    cases h with
    | null _ hv => cases hv
    | scalar _ hm => cases ho.symm.trans hm
    | enum _ hm => cases ho.symm.trans hm
    | members ho' hkeys h =>
        cases ho.symm.trans ho'
        have hcaptured (f : InputValue) (hf : f ∈ o.fields) (w : Value)
            (hw : Members.field? ms f.name = some w) : Captures s fuel f.type w :=
          (hfields f hf w hw).mpr (h f hf w hw)
        obtain ⟨fs, hfs⟩ : ∃ fs, collectM (memberFor s fuel ms) o.fields = .ok fs := by
          refine exists_collectM fun f hf => ?_
          cases hw : Members.field? ms f.name with
          | none => exact ⟨none, memberFor_none hw⟩
          | some w =>
              obtain ⟨x, hx, -⟩ := hcaptured f hf w hw
              exact ⟨_, memberFor_ok_iff.mpr ⟨w, x, hw, hx, rfl⟩⟩
        refine ⟨.object fs, ?_, .members (fun m hm => ?_) (fun p hp => ?_) fun p hp w hw => ?_⟩
        · rw [ofValueWith_members ho, hfs]
          rfl
        · obtain ⟨f, hf, hmf⟩ := hkeys m hm
          obtain ⟨w, hw⟩ := Option.isSome_iff_exists.mp (isSome_field?_iff.mpr ⟨m, hm, hmf⟩)
          obtain ⟨x, hx, -⟩ := hcaptured f hf w hw
          exact ⟨(f.name, x), (mem_collectM hfs).mpr ⟨f, hf, memberFor_ok_iff.mpr ⟨w, x, hw, hx, rfl⟩⟩, hmf⟩
        · obtain ⟨f, hf, hfp⟩ := (mem_collectM hfs).mp hp
          obtain ⟨w, x, hw, -, rfl⟩ := memberFor_ok_iff.mp hfp
          exact Option.isSome_iff_exists.mpr ⟨w, hw⟩
        · obtain ⟨f, hf, hfp⟩ := (mem_collectM hfs).mp hp
          obtain ⟨w', x, hw', hx, rfl⟩ := memberFor_ok_iff.mp hfp
          cases hw.symm.trans hw'
          obtain ⟨y, hy, hr⟩ := hcaptured f hf w hw
          cases hx.symm.trans hy
          exact hr

end Level

/-! ## The whole search

The induction on the nesting of the value, as in `Harvest.Proofs.GraphQL.Literals`. -/

section Search

variable {s : Schema} {t : TypeRef} {v : Value}

/-- A value of a named type is captured exactly if the type has a place for all of it, if that is so for
the members of objects. -/
theorem captures_named {n : String} {fuel : Nat} (hv : v.isNull = false) (htree : v.isTree = true)
    (hnames : ∀ t ∈ s.types, (t.inputFields.map InputValue.name).Nodup)
    (hfields : ∀ {o : InputObject} {ms : Members} {f : InputValue} {w : Value},
      s.type? n = some (.input o) → v = .object ms → f ∈ o.fields →
      Members.field? ms f.name = some w → (Captures s fuel f.type w ↔ Accommodates s f.type w)) :
    Captures s (fuel + 1) (.named n) v ↔ Accommodates s (.named n) v := by
  have hmembers {o : InputObject} {ms : Members} (ho : s.type? n = some (.input o)) (hms : v = .object ms) :
      Captures s (fuel + 1) (.named n) v ↔ Accommodates s (.named n) v := by
    subst hms
    exact captures_members (hnames _ (mem_of_type? ho)) ho fun f hf w hw => hfields ho rfl hf hw
  constructor
  · rintro ⟨x, hx, hr⟩
    obtain ⟨m, hm, hok⟩ | ⟨m, values, hm, hok⟩ | ⟨o, ms, fs, ho, hms, -⟩ :=
      ofValueWith_named hv htree hx
    · exact .scalar hv hm hok
    · exact .enum hv hm hok
    · exact (hmembers ho hms).mp ⟨x, hx, hr⟩
  · intro h
    cases h with
    | null _ hv' => cases hv.symm.trans hv'
    | members ho hkeys h => exact (hmembers ho rfl).mpr (.members ho hkeys h)
    | @scalar _ m _ x _ hm hx =>
        obtain ⟨a, rfl⟩ := atom_of_ofScalar hx
        refine ⟨x, ?_, .atom⟩
        rw [ofValueWith_scalar hm hv, hx]
        rfl
    | @enum _ m values _ x _ hm hx =>
        obtain ⟨a, rfl, -⟩ := ofEnum_ok hx
        refine ⟨x, ?_, .atom⟩
        rw [ofValueWith_enum hm hv, hx]
        rfl

/-- **Enough fuel**: with as much as `ofValue?` gives, a value is captured exactly if the type has a place
for every part of it. -/
theorem captures_iff (hnames : ∀ t ∈ s.types, (t.inputFields.map InputValue.name).Nodup) {fuel : Nat}
    (htree : v.isTree = true) (hfuel : typeDepth t + (maxTypeDepth s + 1) * valueDepth v ≤ fuel) :
    Captures s fuel t v ↔ Accommodates s t v := by
  -- the bound on the fuel is the one of `error_ofValueWith_iff`, and so are the cases
  induction fuel generalizing t v with
  | zero =>
      have hpos := typeDepth_pos t
      omega
  | succ fuel ih =>
      cases t with
      | nonNull t =>
          rw [typeDepth] at hfuel
          rw [captures_nonNull_iff htree, ih htree (by omega)]
          constructor
          · rintro ⟨hv, h⟩
            exact .nonNull hv h
          · intro h
            cases h with
            | null ht => cases ht
            | nonNull hv h => exact ⟨hv, h⟩
      | list t =>
          rw [typeDepth] at hfuel
          cases hv : v.isNull with
          | true => exact captures_null rfl hv
          | false =>
              refine captures_list hv (fun hvs hw => ?_) fun _ => ih htree (by omega)
              obtain ⟨hwt, hd⟩ := items_of_isTree htree hvs hw
              have hmul := Nat.mul_le_mul_left (maxTypeDepth s + 1) (Nat.le_of_lt hd)
              exact ih hwt (by omega)
      | named n =>
          cases hv : v.isNull with
          | true => exact captures_null rfl hv
          | false =>
              refine captures_named hv htree hnames fun ho hms hf hw => ?_
              subst hms
              obtain ⟨hwt, hd⟩ := field_of_isTree htree hw
              exact ih hwt (fuel_of_part hd (typeDepth_le_max ho hf) hfuel)

/-- **There is a literal that retains the whole value exactly if the type accommodates it.** -/
theorem ofValue?_retains_iff (hnames : ∀ t ∈ s.types, (t.inputFields.map InputValue.name).Nodup)
    (htree : v.isTree = true) :
    (∃ x, ofValue? s t v = .ok (some x) ∧ Retains v x) ↔ Accommodates s t v :=
  captures_iff hnames htree (Nat.add_le_add_left (Nat.mul_le_mul_left _ (Nat.le_succ _)) _)

end Search

end Literal

end Harvest.GraphQL
