import Harvest.Proofs.GraphQL.Literals
import Harvest.Proofs.GraphQL.Writing

/-!
# Literals of values can be written

Whatever value is turned into a literal of a type, the literal can be written into a document: the names in it
are those of the schema, its numbers have the form of numbers, and its texts stand in quotes.

The value of a filter comes from a configuration or from a program, and may hold anything. What keeps the
literal in order is the search itself: a name is written only if it is a field of an input object or a value
of an enum, which the schema has checked, and a number only after it was brought into the form that its
scalar wants. Doubles are the one kind for which something has to be known of the value, namely that it is a
number of the format (`Value.InFormat`); every number that was read or computed is one.
-/

namespace Harvest

/-! ## Values with numbers of the format

The property goes down to items and members, through anchors and references too. -/

/-- Whether a number in an atom has the format of doubles. -/
def Atom.InFormat (a : Atom) : Prop := ∀ x, a = .float x → x.InFormat

/-- Whether all numbers in a value have the format of doubles. -/
inductive Value.InFormat : Value → Prop
  | atom {a : Atom} (h : a.InFormat) : InFormat (.atom a)
  | list {vs : List Value} (h : ∀ v ∈ vs, InFormat v) : InFormat (.list vs)
  | object {ms : Members} (h : ∀ m ∈ ms, InFormat m.2) : InFormat (.object ms)
  | set {es : List Atom} (h : ∀ e ∈ es, e.InFormat) : InFormat (.set es)
  | pair {v w : Value} (hv : InFormat v) (hw : InFormat w) : InFormat (.pair v w)
  | anchored (l : Nat) {v : Value} (h : InFormat v) : InFormat (.anchored l v)
  | reference (l : Nat) : InFormat (.reference l)

namespace Value

variable {v w : Value} {vs : List Value} {ms : Members}

theorem substituteItems_eq (l : Nat) (w : Value) (vs : List Value) :
    substituteItems l w vs = vs.map (substitute l w) := by
  induction vs with
  | nil => rfl
  | cons v vs ih => rw [substituteItems, ih, List.map_cons]

theorem substituteMembers_eq (l : Nat) (w : Value) (ms : Members) :
    substituteMembers l w ms = ms.map fun m => (m.1, substitute l w m.2) := by
  induction ms with
  | nil => rfl
  | cons m ms ih => rw [substituteMembers, ih, List.map_cons]

/-! ### Where the format is kept

Resolving references puts values together that are in the format, and taking a value apart gives some. A
number that is read from a text is rounded to the format. -/

/-- Putting a value in the place of a reference keeps the format. -/
theorem InFormat.substitute (hw : w.InFormat) (l : Nat) (h : v.InFormat) :
    (substitute l w v).InFormat := by
  -- on how the value is built; a reference to the replaced anchor brings in the new value
  induction h with
  | atom h =>
      rw [Value.substitute]
      · exact .atom h
      all_goals nofun
  | list h ih =>
      rw [Value.substitute, substituteItems_eq]
      exact .list (List.forall_mem_map.mpr ih)
  | object h ih =>
      rw [Value.substitute, substituteMembers_eq]
      exact .object (List.forall_mem_map.mpr ih)
  | set h =>
      rw [Value.substitute]
      · exact .set h
      all_goals nofun
  | pair hv hw ihv ihw =>
      rw [Value.substitute]
      exact .pair ihv ihw
  | anchored k h ih =>
      rw [Value.substitute]
      split
      · exact .anchored k h
      · exact .anchored k ih
  | reference k =>
      rw [Value.substitute]
      split
      · exact hw
      · exact .reference k

/-- A value with its references resolved is in the format. -/
theorem InFormat.opened (h : v.InFormat) : v.opened.InFormat := by
  cases h with
  | anchored l h => exact InFormat.substitute (.anchored l h) l h
  | atom h => exact .atom h
  | list h => exact .list h
  | object h => exact .object h
  | set h => exact .set h
  | pair hv hw => exact .pair hv hw
  | reference l => exact .reference l

/-- The items of a value are in the format. -/
theorem InFormat.items (h : v.InFormat) (hvs : v.items? = some vs) : ∀ w ∈ vs, w.InFormat := by
  unfold items? at hvs
  have hopened := h.opened
  split at hvs
  next heq =>
    cases hvs
    rw [heq] at hopened
    cases hopened with
    | list h => exact h
  next heq =>
    cases hvs
    rw [heq] at hopened
    cases hopened with
    | set h => exact List.forall_mem_map.mpr fun e he => .atom (h e he)
  next heq =>
    cases hvs
    rw [heq] at hopened
    cases hopened with
    | pair hv hw =>
        intro w hmem
        rcases List.mem_cons.mp hmem with rfl | hmem
        · exact hv
        · exact List.mem_singleton.mp hmem ▸ hw
  next => cases hvs

/-- The value of a member is in the format. -/
theorem InFormat.member (h : v.InFormat) (hms : v.opened = .object ms) {key : String}
    (hw : Members.field? ms key = some w) : w.InFormat := by
  have hopened := h.opened
  rw [hms] at hopened
  obtain ⟨k, hk⟩ := mem_of_field? hw
  cases hopened with
  | object h => exact h (k, w) hk

/-- A number that is read from a value has the format if the value does. -/
theorem InFormat.toDouble (h : v.InFormat) {x : Double} (hx : v.toDouble = .ok x) : x.InFormat := by
  -- a number read from a text is rounded from its decimal form
  have hdecimal {negative : Bool} {cs : List Char} {x : Double} (h : Numeral.decimal? negative cs = some x) :
      x.InFormat := by
    unfold Numeral.decimal? at h
    simp only [Option.bind_eq_bind, Option.bind_eq_some_iff] at h
    obtain ⟨whole, -, ⟨fraction, rest⟩, -, h⟩ := h
    split at h
    · cases h
    · obtain ⟨e, -, h⟩ := Option.bind_eq_some_iff.mp h
      cases h
      exact Double.ofDecimal_inFormat ..
  have htext {text : String} {x : Double} (h : Numeral.double? text = some x) : x.InFormat := by
    unfold Numeral.double? at h
    dsimp only at h
    split at h
    · cases h
      trivial
    split at h
    · cases h
      trivial
    · exact hdecimal h
  unfold Value.toDouble at hx
  split at hx
  next =>
    cases hx
    exact Double.ofRatio_inFormat ..
  next i =>
    split at hx
    next y hy =>
      cases hx
      have hratio := Double.ofRatio_inFormat (decide (i < 0)) i.natAbs 1
      unfold Double.ofInt? at hy
      split at hy
      next heq =>
        cases hy
        rwa [heq] at hratio
      next => cases hy
    next => cases hx
  next y =>
    cases hx
    cases h with
    | atom h => exact h x rfl
  next =>
    split at hx
    next hy =>
      cases hx
      exact htext hy
    next => cases hx
  next =>
    split at hx
    next hy =>
      cases hx
      obtain ⟨text, -, htext'⟩ := Option.bind_eq_some_iff.mp hy
      exact htext htext'
    next => cases hx
  next => cases hx

end Value

namespace GraphQL

namespace Literal

variable {s : Schema} {fuel : Nat} {t : TypeRef} {v : Value} {l : Literal}

/-! ## Scalars

Each scalar makes a literal of its own kind. -/

theorem isWritable_int (i : Int) : (Literal.int (toString i)).IsWritable := by
  have h := Token.isInteger_intRepr i
  exact .int (h.withoutLineEnd_eq.symm ▸ h)

/-- A finite double can be written. -/
theorem isWritable_double {x : Double} (hx : x.InFormat) (hfinite : x.isFinite = true) :
    (ofDouble x).IsWritable := by
  obtain ⟨text, htext, h⟩ := Token.exists_numeral_of_double hx hfinite
  rw [htext]
  exact .float h

/-- What a number is turned into can be written. -/
theorem isWritable_float (hv : v.InFormat) (h : floatOf v = .ok l) : l.IsWritable := by
  unfold floatOf at h
  split at h
  next b =>
    cases h
    exact isWritable_int b.toNat
  next =>
    split at h
    next x hx =>
      split at h
      next hfinite =>
        cases h
        exact isWritable_double (hv.toDouble hx) hfinite
      next => cases h
    next => cases h
    next => cases h

/-- Whatever a scalar makes of a value can be written. -/
theorem isWritable_scalar {scalar : String} (hv : v.InFormat) (h : ofScalar scalar v = .ok l) :
    l.IsWritable := by
  unfold ofScalar at h
  split at h
  next =>
    obtain ⟨i, -, rfl⟩ := map_ok_iff.mp h
    exact isWritable_int i
  next => exact isWritable_float hv h
  next =>
    obtain ⟨text, -, rfl⟩ := map_ok_iff.mp h
    exact .string text
  next =>
    obtain ⟨b, -, rfl⟩ := map_ok_iff.mp h
    exact .boolean b
  next =>
    obtain ⟨text, -, rfl⟩ := map_ok_iff.mp h
    split
    next hinteger => exact .int (Token.isInteger_of_isIntegerText hinteger)
    next => exact .string text
  next =>
    split at h
    next b =>
      cases h
      exact .boolean b
    next i =>
      cases h
      exact isWritable_int i
    next x =>
      split at h
      next hfinite =>
        cases h
        cases hv with
        | atom hv => exact isWritable_double (hv x rfl) hfinite
      next => cases h
    next text =>
      cases h
      exact .string text
    next => cases h

/-- A value of an enum can be written by its name. -/
theorem isWritable_enum {enum : String} {values : List String} (hvalues : ∀ n ∈ values, IsEnumName n)
    (h : ofEnum enum values v = .ok l) : l.IsWritable := by
  unfold ofEnum at h
  split at h
  next n =>
    split at h
    next hn =>
      cases h
      exact .enum (hvalues n (List.contains_iff_mem.mp hn)).1
    next => cases h
  next => cases h

/-! ## Types

By the fuel of the search, with one case for each kind of type. -/

/-- **The literal of a value can be written**, at every type of a schema with proper names. -/
theorem isWritable_ofValueWith (hs : s.WellNamed) (hv : v.InFormat)
    (h : ofValueWith s fuel t v = .ok (some l)) : l.IsWritable := by
  -- on the fuel, along the recursion of the definition; the leaves are scalars and enum values
  induction fuel generalizing t v l with
  | zero => cases h
  | succ fuel ih =>
      rw [ofValueWith.eq_def] at h
      dsimp only at h
      split at h
      next t =>
        split at h
        next => cases h
        next => exact ih hv h
      next t _ =>
        split at h
        next =>
          cases h
          exact .null
        split at h
        next item =>
          split at h
          next vs hvs =>
            obtain ⟨ls, hls, hl⟩ := map_ok_iff.mp h
            cases hl
            refine .list fun x hx => ?_
            obtain ⟨w, hw, hwx⟩ := (mem_collectM hls).mp hx
            exact ih (hv.items hvs w hw) hwx
          next => exact ih hv h
        next =>
          have hbase {t : TypeRef} {d : TypeDef} (hd : s.base? t = some d) : d.WellNamed :=
            hs d (List.mem_of_find?_eq_some hd)
          split at h
          next fields _ hinput =>
            split at h
            next ms hms =>
              obtain ⟨fs, hfs, hl⟩ := map_ok_iff.mp h
              cases hl
              have hfield : ∀ x ∈ fs, IsName x.1 ∧ x.2.IsWritable := by
                intro x hx
                obtain ⟨f, hf, hfx⟩ := (mem_collectM hfs).mp hx
                split at hfx
                next => cases hfx
                next w hw =>
                  obtain ⟨y, hy, hyx⟩ := map_ok_iff.mp hfx
                  obtain ⟨k, rfl, rfl⟩ := Option.map_eq_some_iff.mp hyx
                  exact ⟨((hbase hinput).inputFields f hf).name, ih (hv.member hms hw) hy⟩
              exact .object (fun x hx => (hfield x hx).1) fun x hx => (hfield x hx).2
            next => cases h
          next n hscalar =>
            obtain ⟨k, hk, hl⟩ := map_ok_iff.mp h
            cases hl
            exact isWritable_scalar hv hk
          next n values henum =>
            obtain ⟨k, hk, hl⟩ := map_ok_iff.mp h
            cases hl
            exact isWritable_enum (hbase henum).values hk
          next => cases h

end Literal

end GraphQL

end Harvest
