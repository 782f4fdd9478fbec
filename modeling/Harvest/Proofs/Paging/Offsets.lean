import Harvest.Proofs.Paging.EmptyPages

/-!
# Offsets of a walk

Where a walk by limit and offset stands after so many pages. Its variables may come from anywhere, so they
are read again at every step: what stands for an integer is taken for it, what does not gives way to a
default. The first step settles both numbers. From then on the limit stays as it is and the offset grows by
it, whatever the pages hold; only the last page says whether there is a next one.

`LimitOffset.after_pages` is the closed form. It is carried by what one step does to any state
(`next_eq_settled`) and by the fact that reading a settled state gives the same numbers again.
-/

namespace Harvest

namespace Value

/-- The integer that a value stands for in counting: none for a truth value, although it could be read as
one, and none for what cannot be read as an integer. -/
def counted? : Value → Option Int
  | .bool _ => none
  | v => v.toInt.toOption

@[simp] theorem counted?_int (i : Int) : counted? (.int i) = some i := rfl

end Value

namespace PageState

/-- The limit with which a walk counts from a state. Zero is no limit. -/
def settledLimit (s : PageState) : Int :=
  let limit := s.limit.counted?.getD LimitOffset.defaultLimit
  if limit = 0 then LimitOffset.defaultLimit else limit

/-- The offset from which a walk counts. -/
def settledOffset (s : PageState) : Int := s.offset.counted?.getD 0

theorem settledLimit_ne_zero (s : PageState) : s.settledLimit ≠ 0 := by
  rw [settledLimit]
  split
  · decide
  · assumption

end PageState

namespace LimitOffset

variable {v : Value} {s : PageState} {page last : Value} {pages xs : List Value}

/-- A page, with the entries that it holds. -/
inductive Lists : Value → List Value → Prop
  /-- A page that holds nothing at all. -/
  | nothing {page : Value} (h : page.isTruthy = false) : Lists page []
  /-- An object without entries. -/
  | absent {ms : Members} (h : Members.field? ms entitiesField = none) : Lists (.object ms) []
  /-- An object with null in the place of its entries. -/
  | null {ms : Members} (h : Members.field? ms entitiesField = some .null) : Lists (.object ms) []
  | listed {ms : Members} {xs : List Value} (h : Members.field? ms entitiesField = some (.list xs)) :
      Lists (.object ms) xs

theorem Lists.items_eq (h : Lists page xs) : items page = .ok xs := by
  cases h with
  | nothing h => simp [items, h]
  | @absent ms h =>
      have hfield : Members.field ms entitiesField = .null := by rw [Members.field, h]; rfl
      cases ms <;> simp [items, hfield, Value.isTruthy]
  | @null ms h =>
      have hfield : Members.field ms entitiesField = .null := by rw [Members.field, h]; rfl
      cases ms <;> simp [items, hfield, Value.isTruthy]
  | @listed ms xs h =>
      have hfield : Members.field ms entitiesField = .list xs := by rw [Members.field, h]; rfl
      cases ms with
      | nil => cases h
      | cons m ms => cases xs <;> simp [items, hfield, Value.isTruthy, entries]

/-! ## One step

What a page does to a state. After it, both variables are integers. -/

theorem integer?_eq (h : ¬v.IsInfinite) : integer? v = .ok v.counted? := by
  by_cases hb : ∃ b, v = .bool b
  · obtain ⟨b, rfl⟩ := hb
    rfl
  · have hb : ∀ b, v ≠ .bool b := fun b hv => hb ⟨b, hv⟩
    have hcounted : v.counted? = v.toInt.toOption := by
      unfold Value.counted?
      split
      next b _ => exact absurd rfl (hb b)
      next => rfl
    rw [hcounted]
    cases hv : v.toInt with
    | ok i => exact integer?_of_ok hb hv
    | error f =>
        rw [integer?_of_error hb hv]
        refine if_neg fun hf => h ?_
        subst hf
        exact Value.isInfinite_of_toInt hv

/-- What a page does to a state that can be counted on: both numbers are settled, the offset moves by the
limit, and there is a next page if this one is full. -/
theorem next_eq_settled (hs : ¬s.IsUnbounded) (h : Lists page xs) :
    next s page = .ok
      { variableValues := pageVariables (.int s.settledLimit) (.int (s.settledOffset + s.settledLimit))
        hasNext := decide (s.settledLimit ≤ xs.length) } := by
  have hlimit : limit s.limit = .ok s.settledLimit := by
    unfold limit
    rw [integer?_eq fun hl => hs (.inl hl), PageState.settledLimit]
    cases s.limit.counted? <;> rfl
  have hoffset : offset s.offset = .ok s.settledOffset := by
    unfold offset
    rw [integer?_eq fun ho => hs (.inr ho)]
    rfl
  unfold next
  rw [show limit (Members.field s.variableValues "limit") = _ from hlimit,
    show offset (Members.field s.variableValues "offset") = _ from hoffset, h.items_eq]
  rfl

/-- The state with two numbers as its variables. -/
def counting (limit offset : Int) (goesOn : Bool) : PageState := ⟨pageVariables (.int limit) (.int offset), goesOn⟩

theorem not_isUnbounded_counting (limit offset : Int) (goesOn : Bool) :
    ¬(counting limit offset goesOn).IsUnbounded := by
  rintro (⟨negative, h⟩ | ⟨negative, h⟩) <;> cases h

@[simp] theorem settledOffset_counting (limit offset : Int) (goesOn : Bool) :
    (counting limit offset goesOn).settledOffset = offset := rfl

/-- A limit that is not zero is read again as what it is. -/
theorem settledLimit_counting {limit : Int} (h : limit ≠ 0) (offset : Int) (goesOn : Bool) :
    (counting limit offset goesOn).settledLimit = limit := if_neg h

/-! ## A list of pages

By induction on the pages, each of which moves the offset by the limit. -/

/-- The state after some pages, the first of them fetched with the given state. -/
def after (s : PageState) (pages : List Value) : Except Fault PageState := pages.foldlM next s

/-- **The closed form of a walk.** After a list of pages the limit is the one of the first state, the offset
has grown by it once for each page, and there is a next page if the last one was full. The induction is on
the pages; that settled numbers are read again as what they are carries it. -/
theorem after_pages (hlimit : ¬s.limit.IsInfinite) (hoffset : ¬s.offset.IsInfinite)
    (hpages : ∀ page ∈ pages, ∃ xs, Lists page xs) (hlast : Lists last xs) :
    after s (pages ++ [last]) = .ok
      { variableValues := pageVariables (.int s.settledLimit)
          (.int (s.settledOffset + (pages.length + 1) * s.settledLimit))
        hasNext := decide (s.settledLimit ≤ xs.length) } := by
  induction pages generalizing s with
  | nil =>
      have hstep := next_eq_settled (s := s) (fun h => h.elim hlimit hoffset) hlast
      rw [List.nil_append, after, List.foldlM_cons, hstep]
      simp only [List.length_nil, Nat.cast_zero, zero_add, one_mul]
      rfl
  | cons page pages ih =>
      obtain ⟨⟨ys, hpage⟩, hpages⟩ := List.forall_mem_cons.mp hpages
      have hstep := next_eq_settled (s := s) (fun h => h.elim hlimit hoffset) hpage
      obtain ⟨hl, ho⟩ := not_or.mp (not_isUnbounded_counting s.settledLimit
        (s.settledOffset + s.settledLimit) (decide (s.settledLimit ≤ ys.length)))
      have hrest := ih hl ho hpages
      rw [settledOffset_counting, settledLimit_counting s.settledLimit_ne_zero] at hrest
      rw [List.cons_append, after, List.foldlM_cons, hstep]
      refine hrest.trans ?_
      have hmoved : s.settledOffset + s.settledLimit + (pages.length + 1) * s.settledLimit
          = s.settledOffset + ((page :: pages).length + 1) * s.settledLimit := by
        rw [List.length_cons]
        push_cast
        ring
      rw [hmoved]

end LimitOffset

/-! ## A walk from a text and a fraction -/

namespace Sample

/-- A state with a text for its limit and two and a half for its offset. -/
def unevenState : PageState :=
  ⟨LimitOffset.pageVariables (.str " 2 ") (.float (Double.ofDecimal false 25 (-1))), true⟩

def fullPage : Value := .record [(entitiesField, .list [.null, .null])]

def nullPage : Value := .record [(entitiesField, .null)]

/-- Four pages from a limit of two and an offset of two lead to the offset ten, and the last one, which is
full, to one more page. -/
theorem uneven_walk_settles :
    (¬unevenState.limit.IsInfinite ∧ ¬unevenState.offset.IsInfinite)
      ∧ LimitOffset.after unevenState ([fullPage, nullPage, .null] ++ [fullPage])
        = .ok ⟨LimitOffset.pageVariables (.int 2) (.int 10), true⟩ := by
  have hlimit : ¬unevenState.limit.IsInfinite := fun ⟨_, h⟩ => by cases h
  have hoffset : ¬unevenState.offset.IsInfinite := fun ⟨_, h⟩ => by cases h
  have hfull : LimitOffset.Lists fullPage [.null, .null] := .listed rfl
  have hpages : ∀ page ∈ [fullPage, nullPage, .null], ∃ xs, LimitOffset.Lists page xs := by
    refine List.forall_mem_cons.mpr ⟨⟨_, hfull⟩, List.forall_mem_cons.mpr ⟨⟨[], .null rfl⟩, ?_⟩⟩
    exact List.forall_mem_singleton.mpr ⟨[], .nothing rfl⟩
  refine ⟨⟨hlimit, hoffset⟩, ?_⟩
  rw [LimitOffset.after_pages hlimit hoffset hpages hfull]
  rfl

end Sample

end Harvest
