import Harvest.GraphQL.Literal.OfValue
import Harvest.Proofs.Basic

/-!
# Values that are refused

A value has no literal at a type for one of two reasons. Either it has the wrong shape, and is left
out without a word; or a scalar or an enum somewhere in it refuses its part, and that is an error.
`Literal.Refuses` says when the second happens, part by part and without a bound on the nesting, and
`error_ofValue?_iff` that the search for a literal ends in an error exactly then.

The search runs on fuel, and most of this module is about having enough of it. A step of the search goes down
in the type, through its wrappers, or in the value, to an item or a member, where it begins with another type.
So for each level of the value there has to be fuel for the deepest type of the schema, which is what
`Literal.ofValue?` gives. With that, `error_ofValueWith_iff` is an induction on the value with one
lemma for each kind of type: null, lists, input objects, scalars, enums, and types that take no values at
all.
-/

namespace Harvest

/-! ## Trees

A value that no collection of which occurs within itself: what JSON can say, and more. -/

namespace Value

mutual

/-- Whether no collection in a value occurs within itself. -/
def isTree : Value → Bool
  | .atom _ => true
  | .list xs => areTrees xs
  | .object ms => membersAreTrees ms
  | .set _ => true
  | .pair a b => isTree a && isTree b
  | .anchored _ _ => false
  | .reference _ => false

def areTrees : List Value → Bool
  | [] => true
  | x :: xs => isTree x && areTrees xs

def membersAreTrees : List (Atom × Value) → Bool
  | [] => true
  | (_, v) :: ms => isTree v && membersAreTrees ms

end

variable {v w : Value} {vs : List Value} {ms : Members}

/-- Nothing is to be put into a tree. -/
theorem opened_of_isTree (h : v.isTree = true) : v.opened = v := by
  cases v with
  | anchored => cases h
  | _ => rfl

/-- The items of a tree are trees. -/
theorem isTree_of_mem (h : areTrees vs = true) (hw : w ∈ vs) : w.isTree = true := by
  induction vs with
  | nil => cases hw
  | cons x xs ih =>
      obtain ⟨hx, hxs⟩ := Bool.and_eq_true_iff.mp h
      rcases List.mem_cons.mp hw with rfl | hw
      · exact hx
      · exact ih hxs hw

/-- The members of a tree are trees. -/
theorem isTree_of_mem_members (h : membersAreTrees ms = true) {k : Atom} (hw : (k, w) ∈ ms) :
    w.isTree = true := by
  induction ms with
  | nil => cases hw
  | cons m ms ih =>
      obtain ⟨hm, hms⟩ := Bool.and_eq_true_iff.mp h
      rcases List.mem_cons.mp hw with rfl | hw
      · exact hm
      · exact ih hms hw

/-- The value of a member is one of those that the object holds. -/
theorem mem_of_field? {key : String} (h : Members.field? ms key = some w) : ∃ k, (k, w) ∈ ms := by
  obtain ⟨m, hm, rfl⟩ := Option.map_eq_some_iff.mp h
  exact ⟨m.1, List.mem_of_find?_eq_some hm⟩

end Value

namespace GraphQL

namespace Literal

/-! ## Nesting

The depths of values and types, as far as the search goes down in them. -/

section Depth

variable {v w : Value} {vs : List Value} {ms : Members}

/-- An item is nested no deeper than the items together. -/
theorem valueDepth_le_items (h : w ∈ vs) : valueDepth w ≤ itemsDepth vs := by
  induction vs with
  | nil => cases h
  | cons x xs ih =>
      rw [itemsDepth]
      rcases List.mem_cons.mp h with rfl | h
      · exact Nat.le_max_left _ _
      · exact Nat.le_trans (ih h) (Nat.le_max_right _ _)

/-- The value of a member is nested no deeper than the members together. -/
theorem valueDepth_le_members {k : Atom} (h : (k, w) ∈ ms) : valueDepth w ≤ membersDepth ms := by
  induction ms with
  | nil => cases h
  | cons m ms ih =>
      obtain ⟨k', v⟩ := m
      rw [membersDepth]
      rcases List.mem_cons.mp h with h | h
      · cases h
        exact Nat.le_max_left _ _
      · exact Nat.le_trans (ih h) (Nat.le_max_right _ _)

/-- The items of a tree are trees themselves, and nested less. -/
theorem items_of_isTree (hv : v.isTree = true) (h : v.items? = some vs) (hw : w ∈ vs) :
    w.isTree = true ∧ valueDepth w < valueDepth v := by
  rw [Value.items?, Value.opened_of_isTree hv] at h
  cases v with
  | list xs =>
      cases h
      exact ⟨Value.isTree_of_mem hv hw, Nat.lt_succ_of_le (valueDepth_le_items hw)⟩
  | set es =>
      cases h
      obtain ⟨e, -, rfl⟩ := List.mem_map.mp hw
      exact ⟨rfl, Nat.lt_succ_self 1⟩
  | pair a b =>
      cases h
      obtain ⟨ha, hb⟩ := Bool.and_eq_true_iff.mp hv
      rw [valueDepth]
      rcases List.mem_cons.mp hw with rfl | hw
      · exact ⟨ha, Nat.lt_succ_of_le (Nat.le_max_left _ _)⟩
      · cases List.mem_singleton.mp hw
        exact ⟨hb, Nat.lt_succ_of_le (Nat.le_max_right _ _)⟩
  | _ => cases h

/-- The members of a tree are trees themselves, and nested less. -/
theorem field_of_isTree {key : String} (hv : (Value.object ms).isTree = true)
    (h : Members.field? ms key = some w) :
    w.isTree = true ∧ valueDepth w < valueDepth (.object ms) := by
  obtain ⟨k, hk⟩ := Value.mem_of_field? h
  exact ⟨Value.isTree_of_mem_members hv hk, Nat.lt_succ_of_le (valueDepth_le_members hk)⟩

end Depth

theorem typeDepth_pos (t : TypeRef) : 0 < typeDepth t := by
  cases t <;> exact Nat.succ_pos _

/-- Each of some numbers is at most the largest of them. -/
theorem le_foldl_max {m : Nat} {ns : List Nat} : ∀ n ∈ m :: ns, n ≤ ns.foldl max m := by
  induction ns generalizing m with
  | nil => exact fun n hn => Nat.le_of_eq (List.mem_singleton.mp hn)
  | cons k ks ih =>
      have hmax : max m k ≤ ks.foldl max (max m k) := ih _ List.mem_cons_self
      rintro n hn
      rcases List.mem_cons.mp hn with rfl | hn
      · exact Nat.le_trans (Nat.le_max_left _ _) hmax
      · rcases List.mem_cons.mp hn with rfl | hn
        · exact Nat.le_trans (Nat.le_max_right _ _) hmax
        · exact ih n (List.mem_cons_of_mem _ hn)

/-- No field of an input object has a deeper type than the deepest of the schema. -/
theorem typeDepth_le_max {s : Schema} {n : String} {o : InputObject} {f : InputValue}
    (ho : s.type? n = some (.input o)) (hf : f ∈ o.fields) : typeDepth f.type ≤ maxTypeDepth s := by
  have ht : .input o ∈ s.types := List.mem_of_find?_eq_some ho
  refine le_foldl_max _ (List.mem_cons_of_mem 1 (List.mem_flatMap.mpr ⟨_, ht, ?_⟩))
  exact List.mem_map_of_mem hf

/-! ## Refusals

The relation follows the types: through the wrappers to the scalar or the enum that refuses. -/

/-- Whether a scalar or an enum refuses a value, or a part of it, at a type. -/
inductive Refuses (s : Schema) : TypeRef → Value → Prop where
  | nonNull {t : TypeRef} {v : Value} (h : Refuses s t v) : Refuses s (.nonNull t) v
  /-- An item of a list. -/
  | item {t : TypeRef} {v w : Value} {vs : List Value} (hvs : v.items? = some vs) (hw : w ∈ vs)
      (h : Refuses s t w) : Refuses s (.list t) v
  /-- A value that stands for the list of itself. -/
  | sole {t : TypeRef} {v : Value} (hv : v.isNull = false) (hvs : v.items? = none)
      (h : Refuses s t v) : Refuses s (.list t) v
  /-- A member that the input object knows. -/
  | member {n : String} {o : InputObject} {ms : Members} {f : InputValue} {w : Value}
      (ho : s.type? n = some (.input o)) (hf : f ∈ o.fields)
      (hw : Members.field? ms f.name = some w) (h : Refuses s f.type w) :
      Refuses s (.named n) (.object ms)
  | scalar {n m : String} {v : Value} {e : CoercionError} (hv : v.isNull = false)
      (hm : s.type? n = some (.scalar m)) (h : ofScalar m v = .error e) : Refuses s (.named n) v
  | enum {n m : String} {values : List String} {v : Value} {e : CoercionError}
      (hv : v.isNull = false) (hm : s.type? n = some (.enum m values))
      (h : ofEnum m values v = .error e) : Refuses s (.named n) v
  /-- A type that takes no values at all. -/
  | foreign {n : String} {v : Value} (hv : v.isNull = false)
      (hn : ∀ t, s.type? n = some t → t.isInput = false) : Refuses s (.named n) v

/-! ## One level of the search

What one step of the search comes to, for each kind of type, with the rest of the search as it is. -/

section Level

variable {β α : Type} {s : Schema} {fuel : Nat} {t : TypeRef} {n m : String} {v : Value}

/-- What is made of a result has its errors. -/
theorem error_map_iff {r : Except CoercionError α} {f : α → β} :
    (∃ e, r.map f = .error e) ↔ ∃ e, r = .error e := by
  cases r with
  | error e => exact ⟨fun _ => ⟨e, rfl⟩, fun _ => ⟨e, rfl⟩⟩
  | ok a => exact ⟨nofun, nofun⟩

/-- Parts are collected unless one of them is an error. -/
theorem error_collectM_iff {f : β → Except CoercionError (Option α)} {bs : List β} :
    (∃ e, collectM f bs = .error e) ↔ ∃ b ∈ bs, ∃ e, f b = .error e := by
  induction bs with
  | nil => exact ⟨nofun, nofun⟩
  | cons b bs ih =>
      rw [List.exists_mem_cons_iff, ← ih, collectM]
      cases hb : f b with
      | error e => exact ⟨fun _ => .inl ⟨e, rfl⟩, fun _ => ⟨e, rfl⟩⟩
      | ok x =>
          dsimp only
          rw [error_map_iff]
          exact ⟨.inr, fun h => h.resolve_left nofun⟩

/-- What is collected comes from the parts that have something. -/
theorem mem_collectM {f : β → Except CoercionError (Option α)} {bs : List β} {xs : List α} {x : α}
    (h : collectM f bs = .ok xs) : x ∈ xs ↔ ∃ b ∈ bs, f b = .ok (some x) := by
  induction bs generalizing xs with
  | nil =>
      cases h
      simp
  | cons b bs ih =>
      rw [collectM] at h
      split at h
      next => cases h
      next o ho =>
        obtain ⟨ys, hys, rfl⟩ := map_ok_iff.mp h
        simp [ih hys, ho, eq_comm]

/-! ### Equations of the search

One for each kind of type and of value, so that the search need not be unfolded again. -/

/-- Null is a value of every type that has it. -/
theorem ofValueWith_null (ht : t.isNonNull = false) (hv : v.isNull = true) :
    ofValueWith s (fuel + 1) t v = .ok (some .null) := by
  cases t with
  | nonNull t => cases ht
  | named n => exact if_pos hv
  | list t => exact if_pos hv

theorem ofValueWith_nonNull : ofValueWith s (fuel + 1) (.nonNull t) v
    = match ofValueWith s fuel t v with
      | .ok (some .null) => .ok none
      | r => r := rfl

/-- A list is searched item by item, and any other value is the only item of one. -/
theorem ofValueWith_list (hv : v.isNull = false) : ofValueWith s (fuel + 1) (.list t) v
    = match v.items? with
      | some vs => (collectM (ofValueWith s fuel t) vs).map fun ls => some (.list ls)
      | none => ofValueWith s fuel t v :=
  if_neg (Bool.eq_false_iff.mp hv)

/-- The literal of the member that an object has for a field, under the name of the field. -/
def memberFor (s : Schema) (fuel : Nat) (ms : Members) (f : InputValue) :
    Except CoercionError (Option (String × Literal)) :=
  match Members.field? ms f.name with
  | none => .ok none
  | some w => (ofValueWith s fuel f.type w).map (·.map fun l => (f.name, l))

/-- A named type is looked up in the schema. -/
theorem ofValueWith_type (hv : v.isNull = false) : ofValueWith s (fuel + 1) (.named n) v
    = match s.type? n with
      | some (.input ⟨_, fields, _⟩) =>
        match v.opened with
        | .object ms => (collectM (memberFor s fuel ms) fields).map fun fs => some (.object fs)
        | _ => .ok none
      | some (.scalar m) => (ofScalar m v).map some
      | some (.enum m values) => (ofEnum m values v).map some
      | _ => .error .unwritable :=
  if_neg (Bool.eq_false_iff.mp hv)

/-- A type without null refuses what the type itself does. -/
theorem error_nonNull_iff :
    (∃ e, ofValueWith s (fuel + 1) (.nonNull t) v = .error e) ↔
      ∃ e, ofValueWith s fuel t v = .error e := by
  rw [ofValueWith_nonNull]
  split
  next h =>
    rw [h]
    exact ⟨nofun, nofun⟩
  next => rfl

theorem ofValueWith_items {vs : List Value} (hvs : v.items? = some vs) :
    ofValueWith s (fuel + 1) (.list t) v
      = (collectM (ofValueWith s fuel t) vs).map fun ls => some (.list ls) := by
  have hv : v.isNull = false := by
    cases v with
    | atom a => cases hvs
    | _ => rfl
  rw [ofValueWith_list hv, hvs]

/-- A list refuses what its items do. -/
theorem error_items_iff {vs : List Value} (hvs : v.items? = some vs) :
    (∃ e, ofValueWith s (fuel + 1) (.list t) v = .error e) ↔
      ∃ w ∈ vs, ∃ e, ofValueWith s fuel t w = .error e := by
  rw [ofValueWith_items hvs, error_map_iff, error_collectM_iff]

/-- A value that is no list stands for the only item of one. -/
theorem ofValueWith_sole (hv : v.isNull = false) (hvs : v.items? = none) :
    ofValueWith s (fuel + 1) (.list t) v = ofValueWith s fuel t v := by
  rw [ofValueWith_list hv, hvs]

/-- An input object is searched field by field. -/
theorem ofValueWith_members {o : InputObject} {ms : Members} (ho : s.type? n = some (.input o)) :
    ofValueWith s (fuel + 1) (.named n) (.object ms)
      = (collectM (memberFor s fuel ms) o.fields).map fun fs => some (.object fs) := by
  rw [ofValueWith_type rfl, ho]
  rfl

/-- An input object refuses what its fields do, as far as the value has members for them. -/
theorem error_members_iff {o : InputObject} {ms : Members} (ho : s.type? n = some (.input o)) :
    (∃ e, ofValueWith s (fuel + 1) (.named n) (.object ms) = .error e) ↔
      ∃ f ∈ o.fields, ∃ w, Members.field? ms f.name = some w
        ∧ ∃ e, ofValueWith s fuel f.type w = .error e := by
  rw [ofValueWith_members ho, error_map_iff, error_collectM_iff]
  refine exists_congr fun f => and_congr_right fun _ => ?_
  unfold memberFor
  cases Members.field? ms f.name with
  | none => exact ⟨nofun, nofun⟩
  | some w => exact error_map_iff.trans (by simp only [Option.some.injEq, exists_eq_left'])

/-- Nothing but an object is a value of an input object. -/
theorem ofValueWith_input {o : InputObject} (ho : s.type? n = some (.input o))
    (hv : v.isNull = false) (htree : v.isTree = true) (hms : ∀ ms, v ≠ .object ms) :
    ofValueWith s (fuel + 1) (.named n) v = .ok none := by
  rw [ofValueWith_type hv, ho, Value.opened_of_isTree htree]
  cases v with
  | object ms => exact absurd rfl (hms ms)
  | _ => rfl

theorem ofValueWith_scalar (hm : s.type? n = some (.scalar m)) (hv : v.isNull = false) :
    ofValueWith s (fuel + 1) (.named n) v = (ofScalar m v).map some := by
  rw [ofValueWith_type hv, hm]

theorem ofValueWith_enum {values : List String} (hm : s.type? n = some (.enum m values))
    (hv : v.isNull = false) :
    ofValueWith s (fuel + 1) (.named n) v = (ofEnum m values v).map some := by
  rw [ofValueWith_type hv, hm]

/-- A type that takes no values refuses them all. -/
theorem ofValueWith_foreign (hn : ∀ t, s.type? n = some t → t.isInput = false)
    (hv : v.isNull = false) : ofValueWith s (fuel + 1) (.named n) v = .error .unwritable := by
  rw [ofValueWith_type hv]
  cases ht : s.type? n with
  | none => rfl
  | some t =>
      have hinput := hn t ht
      cases t <;> first | rfl | cases hinput

end Level

/-! ## The whole search

One lemma for each kind of type, and the induction that needs them all. -/

section Search

variable {s : Schema} {t : TypeRef} {n : String} {v : Value}

/-- Null is refused by no type that has it. -/
theorem not_refuses_null (ht : t.isNonNull = false) (hv : v.isNull = true) : ¬Refuses s t v := by
  intro h
  cases h with
  | nonNull => cases ht
  | item hvs =>
      cases v with
      | atom a => cases hvs
      | _ => cases hv
  | member => cases hv
  | sole hv' | scalar hv' | enum hv' | foreign hv' => cases hv.symm.trans hv'

/-- A part that is nested less leaves fuel for the deepest type of the schema. -/
theorem fuel_of_part {depth part bound type fuel : Nat} (hpart : part < depth) (htype : type ≤ bound)
    (hfuel : 1 + (bound + 1) * depth ≤ fuel + 1) : type + (bound + 1) * part ≤ fuel := by
  have hmul : (bound + 1) * (part + 1) ≤ (bound + 1) * depth := Nat.mul_le_mul_left _ hpart
  rw [Nat.mul_add] at hmul
  omega

/-! ### Steps of the search

For each kind of type: if the search does right by the parts of a value, then it does by the value. -/

theorem refuses_null {fuel : Nat} (ht : t.isNonNull = false) (hv : v.isNull = true) :
    (∃ e, ofValueWith s (fuel + 1) t v = .error e) ↔ Refuses s t v := by
  rw [ofValueWith_null ht hv]
  exact ⟨nofun, fun h => absurd h (not_refuses_null ht hv)⟩

/-- A list refuses what it should, if its item type does. -/
theorem refuses_list {fuel : Nat} (hv : v.isNull = false)
    (hitems : ∀ {vs : List Value} {w : Value}, v.items? = some vs → w ∈ vs →
      ((∃ e, ofValueWith s fuel t w = .error e) ↔ Refuses s t w))
    (hsole : v.items? = none → ((∃ e, ofValueWith s fuel t v = .error e) ↔ Refuses s t v)) :
    (∃ e, ofValueWith s (fuel + 1) (.list t) v = .error e) ↔ Refuses s (.list t) v := by
  cases hvs : v.items? with
  | some vs =>
      rw [error_items_iff hvs]
      constructor
      · rintro ⟨w, hw, h⟩
        exact .item hvs hw ((hitems hvs hw).mp h)
      · intro h
        cases h with
        | item hvs' hw h =>
            cases hvs.symm.trans hvs'
            exact ⟨_, hw, (hitems hvs hw).mpr h⟩
        | sole _ hvs' => cases hvs.symm.trans hvs'
  | none =>
      rw [ofValueWith_sole hv hvs, hsole hvs]
      refine ⟨.sole hv hvs, fun h => ?_⟩
      cases h with
      | item hvs' => cases hvs.symm.trans hvs'
      | sole _ _ h => exact h

/-- A type that takes no values refuses all but null. -/
theorem refuses_foreign {fuel : Nat} (hv : v.isNull = false)
    (hn : ∀ t, s.type? n = some t → t.isInput = false) :
    (∃ e, ofValueWith s (fuel + 1) (.named n) v = .error e) ↔ Refuses s (.named n) v := by
  rw [ofValueWith_foreign hn hv]
  exact ⟨fun _ => .foreign hv hn, fun _ => ⟨_, rfl⟩⟩

/-- A named type refuses what it should, if the types of the fields of input objects do. -/
theorem refuses_named {fuel : Nat} (hv : v.isNull = false) (htree : v.isTree = true)
    (hfields : ∀ {o : InputObject} {ms : Members} {f : InputValue} {w : Value},
      s.type? n = some (.input o) → v = .object ms → f ∈ o.fields →
      Members.field? ms f.name = some w →
      ((∃ e, ofValueWith s fuel f.type w = .error e) ↔ Refuses s f.type w)) :
    (∃ e, ofValueWith s (fuel + 1) (.named n) v = .error e) ↔ Refuses s (.named n) v := by
  cases hn : s.type? n with
  | none => exact refuses_foreign hv fun t ht => nomatch hn.symm.trans ht
  | some t =>
      -- whatever kind the type is of, it is found again when a refusal is taken apart
      cases t with
      | scalar m =>
          rw [ofValueWith_scalar hn hv, error_map_iff]
          refine ⟨fun ⟨e, he⟩ => .scalar hv hn he, fun h => ?_⟩
          cases h with
          | scalar _ hm h =>
              cases hn.symm.trans hm
              exact ⟨_, h⟩
          | member ho => cases hn.symm.trans ho
          | enum _ hm => cases hn.symm.trans hm
          | foreign _ hf => cases hf _ hn
      | enum m values =>
          rw [ofValueWith_enum hn hv, error_map_iff]
          refine ⟨fun ⟨e, he⟩ => .enum hv hn he, fun h => ?_⟩
          cases h with
          | enum _ hm h =>
              cases hn.symm.trans hm
              exact ⟨_, h⟩
          | member ho => cases hn.symm.trans ho
          | scalar _ hm => cases hn.symm.trans hm
          | foreign _ hf => cases hf _ hn
      | input o =>
          by_cases hms : ∃ ms, v = .object ms
          · obtain ⟨ms, rfl⟩ := hms
            rw [error_members_iff hn]
            constructor
            · rintro ⟨f, hf, w, hw, h⟩
              exact .member hn hf hw ((hfields hn rfl hf hw).mp h)
            · intro h
              cases h with
              | member ho hf hw h =>
                  cases hn.symm.trans ho
                  exact ⟨_, hf, _, hw, (hfields hn rfl hf hw).mpr h⟩
              | scalar _ hm => cases hn.symm.trans hm
              | enum _ hm => cases hn.symm.trans hm
              | foreign _ hf => cases hf _ hn
          · rw [ofValueWith_input hn hv htree (not_exists.mp hms)]
            refine ⟨nofun, fun h => ?_⟩
            cases h with
            | member => exact absurd ⟨_, rfl⟩ hms
            | scalar _ hm => cases hn.symm.trans hm
            | enum _ hm => cases hn.symm.trans hm
            | foreign _ hf => cases hf _ hn
      | object | interface | union =>
          refine refuses_foreign hv fun t ht => ?_
          cases hn.symm.trans ht
          rfl

/-- **Enough fuel**: with as much as `ofValue?` gives, the search for a literal ends in an error
exactly if the value is refused. -/
theorem error_ofValueWith_iff {fuel : Nat} (htree : v.isTree = true)
    (hfuel : typeDepth t + (maxTypeDepth s + 1) * valueDepth v ≤ fuel) :
    (∃ e, ofValueWith s fuel t v = .error e) ↔ Refuses s t v := by
  -- on the fuel, which bounds what type and value still have below them
  induction fuel generalizing t v with
  | zero =>
      have := typeDepth_pos t
      omega
  | succ fuel ih =>
      cases t with
      | nonNull t =>
          rw [typeDepth] at hfuel
          rw [error_nonNull_iff, ih htree (by omega)]
          exact ⟨.nonNull, fun | .nonNull h => h⟩
      | list t =>
          rw [typeDepth] at hfuel
          cases hv : v.isNull with
          | true => exact refuses_null rfl hv
          | false =>
              refine refuses_list hv (fun hvs hw => ?_) (fun _ => ih htree (by omega))
              obtain ⟨hwt, hd⟩ := items_of_isTree htree hvs hw
              -- an item of the list is less deep than the list, which pays for its type
              have hmul := Nat.mul_le_mul_left (maxTypeDepth s + 1) (Nat.le_of_lt hd)
              exact ih hwt (by omega)
      | named n =>
          cases hv : v.isNull with
          | true => exact refuses_null rfl hv
          | false =>
              refine refuses_named hv htree fun ho hms hf hw => ?_
              subst hms
              obtain ⟨hwt, hd⟩ := field_of_isTree htree hw
              exact ih hwt (fuel_of_part hd (typeDepth_le_max ho hf) hfuel)

/-- **A search for a literal ends in an error exactly if the value is refused.** -/
theorem error_ofValue?_iff (htree : v.isTree = true) :
    (∃ e, ofValue? s t v = .error e) ↔ Refuses s t v :=
  error_ofValueWith_iff htree
    (Nat.add_le_add_left (Nat.mul_le_mul_left _ (Nat.le_succ _)) _)

end Search

end Literal

end GraphQL

end Harvest
