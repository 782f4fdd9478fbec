import Harvest.Proofs.Paging.Merging

/-!
# Empty pages

A page that is shorter than the limit is the last one, so a page without items should end every walk. It does
so for most limits, whatever values the variables of a walk hold: what stands for no number, and zero, gives
way to the default. Two kinds of numbers are left. A negative limit is reached by an empty page too, and the
walk asks for empty pages without end; an infinite limit or offset has no integer, and the walk breaks.

`LimitOffset.empty_page_outcome` says that nothing else happens, neither to one page nor to a whole walk.

One step is settled by the two numbers that the variables of a state stand for. `next_empty` has the three
outcomes: one of the numbers has no integer, the limit is negative, or neither. For a walk the step is
repeated as long as there is a next page, with the state changed in its offset only, so that a walk with a
negative limit meets the same case again and again. `Walk.Idles` keeps count of its requests.
-/

namespace Harvest

/-! ## Values that stand for numbers

Texts, truth values and numbers of both kinds can be variables. Which of them stand for a number below zero
or for none. -/

namespace Value

/-- Whether a value is a number beyond all integers. -/
def IsInfinite (v : Value) : Prop := ∃ negative, v = .float (.infinity negative)

/-- Whether a value stands for an integer below zero. -/
def IsNegative (v : Value) : Prop := ∃ i < 0, v.toInt = .ok i

variable {v : Value}

/-- Only an infinite number is out of the range of the integers. -/
theorem isInfinite_of_toInt (h : v.toInt = .error .range) : v.IsInfinite := by
  unfold toInt at h
  split at h
  · cases h
  · cases h
  next x =>
    cases x with
    | infinity negative => exact ⟨negative, rfl⟩
    | nan => cases h
    | finite s m e => cases h
  · split at h <;> cases h
  · split at h <;> cases h
  · cases h

theorem not_isNegative_bool (b : Bool) : ¬ IsNegative (.bool b) := by
  rintro ⟨i, hi, h⟩
  cases h
  exact absurd hi (Int.not_lt.mpr (Int.natCast_nonneg _))

end Value

/-! ## One empty page

The limit and the offset of the state, and what becomes of them. -/

/-- The limit of the page that a state asks for. -/
def PageState.limit (s : PageState) : Value := Members.field s.variableValues "limit"

/-- The offset of the page that a state asks for. -/
def PageState.offset (s : PageState) : Value := Members.field s.variableValues "offset"

/-- Whether the next page of a state cannot be counted. -/
def PageState.IsUnbounded (s : PageState) : Prop := s.limit.IsInfinite ∨ s.offset.IsInfinite

namespace LimitOffset

variable {v : Value} {s : PageState} {page : Value}

/-! ### Variables as integers

The variables may be anything. What they stand for is an integer, nothing, or a number beyond all integers,
and only the last of these makes the step fail. -/

theorem integer?_of_ok {i : Int} (hb : ∀ b, v ≠ .bool b) (h : v.toInt = .ok i) : integer? v = .ok (some i) := by
  unfold integer?
  split
  next b => exact absurd rfl (hb b)
  next => rw [h]

theorem integer?_of_error {f : Fault} (hb : ∀ b, v ≠ .bool b) (h : v.toInt = .error f) :
    integer? v = if f = .range then .error .range else .ok none := by
  unfold integer?
  split
  next b => exact absurd rfl (hb b)
  next =>
    rw [h]
    cases f <;> rfl

/-- What a variable stands for: its integer, or nothing if it has none. -/
theorem integer?_cases (v : Value) :
    (v.IsInfinite ∧ integer? v = .error .range)
      ∨ (¬ v.IsInfinite ∧ ∃ i, integer? v = .ok i ∧ (v.IsNegative ↔ ∃ j < 0, i = some j)) := by
  by_cases hb : ∃ b, v = .bool b
  · -- a truth value is none of the numbers, although it can be read as one
    obtain ⟨b, rfl⟩ := hb
    refine .inr ⟨nofun, none, rfl, ?_⟩
    constructor
    · intro h
      exact absurd h (Value.not_isNegative_bool b)
    · rintro ⟨j, -, h⟩
      cases h
  · have hb : ∀ b, v ≠ .bool b := fun b hv => hb ⟨b, hv⟩
    cases h : v.toInt with
    | ok i =>
        refine .inr ⟨?_, some i, integer?_of_ok hb h, ?_⟩
        · rintro ⟨negative, rfl⟩
          cases h
        · simp [Value.IsNegative, h]
    | error f =>
        have hinteger := integer?_of_error hb h
        by_cases hf : f = .range
        · subst hf
          exact .inl ⟨Value.isInfinite_of_toInt h, hinteger⟩
        · rw [if_neg hf] at hinteger
          refine .inr ⟨?_, none, hinteger, ?_⟩
          · rintro ⟨negative, rfl⟩
            cases h
            exact hf rfl
          · simp [Value.IsNegative, h]

theorem limit_of_isInfinite (h : v.IsInfinite) : limit v = .error .range := by
  obtain ⟨negative, rfl⟩ := h
  rfl

theorem offset_of_isInfinite (h : v.IsInfinite) : offset v = .error .range := by
  obtain ⟨negative, rfl⟩ := h
  rfl

/-- A limit is never zero, and it is negative only if its variable is. -/
theorem exists_limit (h : ¬ v.IsInfinite) :
    ∃ l : Int, limit v = .ok l ∧ l ≠ 0 ∧ (l < 0 ↔ v.IsNegative) := by
  rcases integer?_cases v with ⟨hv, -⟩ | ⟨-, i, hi, hneg⟩
  · exact absurd hv h
  · unfold limit
    rw [hi]
    cases i with
    | none => exact ⟨defaultLimit, rfl, by simp [hneg, defaultLimit]⟩
    | some i =>
        refine ⟨if i = 0 then defaultLimit else i, rfl, ?_⟩
        by_cases hz : i = 0
        · simp [hneg, hz, defaultLimit]
        · simp [hneg, hz]

theorem exists_offset (h : ¬ v.IsInfinite) : ∃ o : Int, offset v = .ok o := by
  rcases integer?_cases v with ⟨hv, -⟩ | ⟨-, i, hi, -⟩
  · exact absurd hv h
  · refine ⟨i.getD 0, ?_⟩
    unfold offset
    rw [hi]
    rfl

/-- What an empty page does: the state cannot be counted on, or its limit decides whether there is a next
page. -/
theorem next_empty (s : PageState) (h : items page = .ok []) :
    (s.IsUnbounded ∧ next s page = .error .range)
      ∨ (¬ s.IsUnbounded ∧ ∃ l o : Int, (l < 0 ↔ s.limit.IsNegative)
          ∧ next s page = .ok ⟨pageVariables (.int l) (.int o), decide (l < 0)⟩) := by
  -- an infinite limit fails first, then an infinite offset; otherwise both are integers
  by_cases hl : s.limit.IsInfinite
  · refine .inl ⟨.inl hl, ?_⟩
    unfold next
    rw [show limit (Members.field s.variableValues "limit") = _ from limit_of_isInfinite hl]
    rfl
  obtain ⟨l, hlimit, hne, hneg⟩ := exists_limit hl
  by_cases ho : s.offset.IsInfinite
  · refine .inl ⟨.inr ho, ?_⟩
    unfold next
    rw [show limit (Members.field s.variableValues "limit") = _ from hlimit,
      show offset (Members.field s.variableValues "offset") = _ from offset_of_isInfinite ho]
    rfl
  obtain ⟨o, hoffset⟩ := exists_offset ho
  refine .inr ⟨?_, l, o + l, hneg, ?_⟩
  · rintro (h | h)
    · exact hl h
    · exact ho h
  · unfold next
    rw [show limit (Members.field s.variableValues "limit") = _ from hlimit,
      show offset (Members.field s.variableValues "offset") = _ from hoffset, h]
    have hle : decide (l ≤ (([] : List Value).length : Nat)) = decide (l < 0) := by
      rw [decide_eq_decide]
      show l ≤ 0 ↔ l < 0
      omega
    show Except.ok _ = Except.ok _
    rw [hle]

end LimitOffset

/-! ## A walk over empty pages

From one page to any number of turns, by induction on the turns. -/

namespace Walk

variable {w : Walk} {p : LimitOffset} {outcomes : Nat → Answer}

/-- The page in an answer that is taken for the items of one. -/
theorem page_of_reading {a : Answer} {vs : List Value} (h : a.reading w.document.queryField = .items vs) :
    ∃ page, w.page a = .ok page ∧ LimitOffset.items page = .ok vs := by
  cases a with
  | failed e => cases h
  | broken f => cases h
  | data v =>
      unfold Answer.reading at h
      unfold Walk.page
      dsimp only at h ⊢
      cases hv : v.field? w.document.queryField with
      | none =>
          rw [hv] at h
          cases h
      | some x =>
          rw [hv] at h
          -- only an object is a page, and it has the items that are read
          cases x with
          | object ms =>
              refine ⟨.object ms, rfl, ?_⟩
              dsimp only at h
              split at h
              next hi => cases h; exact hi
              next => cases h
          | atom x => cases x <;> cases h
          | _ => cases h

/-- How a walk over empty pages stands after some turns, and how many requests it has sent. -/
inductive Idles (s : PageState) (turns : Nat) : Option (Except Failure Unit) → Nat → Prop
  | breaks (h : s.IsUnbounded) : Idles s turns (some (.error (.fault .range))) 1
  | endless (h : ¬ s.IsUnbounded) (hneg : s.limit.IsNegative) : Idles s turns none turns
  | ends (h : ¬ s.IsUnbounded) (hneg : ¬ s.limit.IsNegative) : Idles s turns (some (.ok ())) 1

/-- The walk after a page, from what the paging strategy makes of its state. -/
theorem advance_limitOffset (hpaging : w.paging = p.strategy) (page : Value) :
    w.advance page = match LimitOffset.next w.state page with
      | .ok s => .ok { w with state := s }
      | .error f => .error (.fault f) := by
  have hnext : w.paging.next w.state page = (LimitOffset.next w.state page).mapError .fault := by
    rw [hpaging]
    rfl
  unfold advance
  rw [hnext]
  cases LimitOffset.next w.state page <;> rfl

/-! ### Turn by turn

Each turn of such a walk is a request, and the state after it has integers for its variables. A limit that is
negative stays so. -/

/-- An empty page brings no records, and the walk goes on as its state says. -/
theorem receive_empty (hpaging : w.paging = p.strategy) {a : Answer}
    (h : a.reading w.document.queryField = .items []) :
    ∃ page, LimitOffset.items page = .ok [] ∧ w.receive a = ([], w.advance page) := by
  obtain ⟨page, hpage, hitems⟩ := page_of_reading h
  have hpages : w.paging.items page = .ok [] := by
    rw [hpaging]
    show (LimitOffset.items page).mapError Failure.fault = _
    rw [hitems]
    rfl
  refine ⟨page, hitems, ?_⟩
  unfold receive
  rw [hpage]
  dsimp only
  rw [hpages]
  rfl

/-- One turn of a walk over empty pages: a request, and then what its paging strategy says. -/
theorem run_empty (hpaging : w.paging = p.strategy) (hop : w.document.operations.contains w.language = true)
    (hnext : w.state.hasNext = true) (hempty : ∀ k, (outcomes k).reading w.document.queryField = .items [])
    (turns : Nat) (acts : List Act) :
    ∃ r page, LimitOffset.items page = .ok []
      ∧ w.run (.scripted outcomes) (turns + 1) acts = match LimitOffset.next w.state page with
        | .ok s => run (.scripted outcomes) turns { w with state := s } (acts ++ [.asked r])
        | .error f => (some (.error (.fault f)), acts ++ [.asked r]) := by
  obtain ⟨r, hr⟩ : ∃ r, w.request = .ok r := by
    obtain ⟨name, hname⟩ := Option.isSome_iff_exists.mp hop
    unfold request
    rw [hname]
    exact ⟨_, rfl⟩
  have hturn : w.turn ((Surroundings.scripted outcomes).cancelled acts) = .ask r := turn_ask hnext hr
  obtain ⟨page, hitems, hreceive⟩ := receive_empty hpaging (hempty (requests acts).length)
  refine ⟨r, page, hitems, ?_⟩
  rw [run, hturn]
  dsimp only
  rw [Surroundings.ask_scripted]
  dsimp only
  rw [hreceive, advance_limitOffset hpaging]
  cases LimitOffset.next w.state page <;> rfl

/-- **With a negative limit a walk over empty pages never ends**: every turn is one more request. The
induction is on the turns; that the limit stays as it is carries it. -/
theorem run_of_negative (hpaging : w.paging = p.strategy)
    (hop : w.document.operations.contains w.language = true) {l o : Int} (hl : l < 0)
    (hstate : w.state = ⟨LimitOffset.pageVariables (.int l) (.int o), true⟩)
    (hempty : ∀ k, (outcomes k).reading w.document.queryField = .items []) (turns : Nat) (acts : List Act) :
    (w.run (.scripted outcomes) turns acts).1 = none
      ∧ (requests (w.run (.scripted outcomes) turns acts).2).length = (requests acts).length + turns := by
  induction turns generalizing w o acts with
  | zero => exact ⟨rfl, rfl⟩
  | succ turns ih =>
      have hnext : w.state.hasNext = true := by rw [hstate]
      obtain ⟨r, page, hitems, hrun⟩ := run_empty hpaging hop hnext hempty turns acts
      have hstep : LimitOffset.next w.state page
          = .ok ⟨LimitOffset.pageVariables (.int l) (.int (o + l)), true⟩ := by
        rw [hstate, LimitOffset.next_pageVariables (by omega) hitems]
        simp [Int.le_of_lt hl]
      rw [hstep] at hrun
      rw [hrun]
      have hrest := ih (w := { w with state := ⟨LimitOffset.pageVariables (.int l) (.int (o + l)), true⟩ })
        hpaging hop rfl hempty (acts ++ [.asked r])
      refine ⟨hrest.1, ?_⟩
      rw [hrest.2, requests_append, List.length_append]
      show (requests acts).length + 1 + turns = _
      omega

/-- **A walk over empty pages** sends one request and breaks, or sends one and is at its end, or goes on for
ever. The variables of its state say which. -/
theorem run_empty_idles (hpaging : w.paging = p.strategy)
    (hop : w.document.operations.contains w.language = true) (hnext : w.state.hasNext = true)
    (hempty : ∀ k, (outcomes k).reading w.document.queryField = .items []) (turns : Nat) :
    Idles w.state (turns + 2) (w.run (.scripted outcomes) (turns + 2) []).1
      (requests (w.run (.scripted outcomes) (turns + 2) []).2).length := by
  obtain ⟨r, page, hitems, hrun⟩ := run_empty hpaging hop hnext hempty (turns + 1) []
  rw [hrun]
  rcases LimitOffset.next_empty w.state hitems with ⟨hs, hpage⟩ | ⟨hs, l, o, hneg, hpage⟩
  · rw [hpage]
    exact .breaks hs
  rw [hpage]
  dsimp only
  by_cases hl : l < 0
  · rw [decide_eq_true hl]
    have hrest := run_of_negative (w := { w with state := ⟨LimitOffset.pageVariables (.int l) (.int o), true⟩ })
      hpaging hop hl rfl hempty (turns + 1) ([] ++ [.asked r])
    rw [hrest.1, hrest.2]
    have hcount : (requests ([] ++ [.asked r])).length + (turns + 1) = turns + 2 := by
      show 1 + (turns + 1) = turns + 2
      omega
    rw [hcount]
    exact .endless hs (hneg.mp hl)
  · rw [decide_eq_false hl]
    -- the state says that there is no page after this one, which takes one more turn to find out
    rw [run, turn_finished rfl]
    exact .ends hs fun h => hl (hneg.mpr h)

end Walk

/-- **What an empty page does**, to any state and then to a whole walk from it. The step fails only where a
variable is infinite, and for this reason; where it does not, there is a next page exactly if the limit is
negative. So a walk over empty pages asks for a second one exactly if its limit is negative, and then it goes
on for ever. -/
theorem LimitOffset.empty_page_outcome (s : PageState) :
    (∀ page, items page = .ok [] →
        ((∃ f, next s page = .error f) ↔ s.IsUnbounded)
          ∧ (∀ f, next s page = .error f → f = .range)
          ∧ ∀ t, next s page = .ok t → (t.hasNext = true ↔ s.limit.IsNegative))
      ∧ ∀ (w : Walk) (p : LimitOffset) (outcomes : Nat → Answer), w.state = s → w.paging = p.strategy →
          w.document.operations.contains w.language = true → s.hasNext = true →
          (∀ k, (outcomes k).reading w.document.queryField = .items []) → ∀ turns,
            Walk.Idles s (turns + 2) (w.run (.scripted outcomes) (turns + 2) []).1
              (Walk.requests (w.run (.scripted outcomes) (turns + 2) []).2).length := by
  constructor
  · intro page hpage
    rcases next_empty s hpage with ⟨hs, hnext⟩ | ⟨hs, l, o, hneg, hnext⟩
    · rw [hnext]
      refine ⟨⟨fun _ => hs, fun _ => ⟨_, rfl⟩⟩, ?_, nofun⟩
      intro f hf
      cases hf
      rfl
    · rw [hnext]
      refine ⟨⟨nofun, fun h => absurd h hs⟩, nofun, ?_⟩
      intro t ht
      cases ht
      rw [← hneg, decide_eq_true_iff]
  · intro w p outcomes hstate hpaging hop hnext hempty turns
    subst hstate
    exact Walk.run_empty_idles hpaging hop hnext hempty turns

/-! ## A negative limit and an infinite one -/

namespace Sample

/-- A state that counts its pages backwards. -/
def backward : PageState := ⟨LimitOffset.pageVariables (.int (-5)) (.int 0), true⟩

/-- A state without a bound for its pages. -/
def boundless : PageState := ⟨LimitOffset.pageVariables (.float (.infinity false)) (.int 0), true⟩

def emptyPage : Value := .record [(entitiesField, .list [])]

/-- The walk of nodes from a state. -/
def walkFrom (s : PageState) : Walk :=
  { document := nodeDocument, language := "EN", state := s, paging := .bySize 1 }

/-- An empty page is followed by the next one if the limit is negative, and not even answered by an end if
it is infinite. -/
theorem empty_pages_followed :
    (∃ t, LimitOffset.next backward emptyPage = .ok t ∧ t.hasNext = true)
      ∧ (∃ f, LimitOffset.next boundless emptyPage = .error f)
      ∧ ((walkFrom backward).run (.scripted fun _ => pageOf []) 5 []).1 = none
      ∧ (Walk.requests ((walkFrom backward).run (.scripted fun _ => pageOf []) 5 []).2).length = 5 := by
  have hitems : LimitOffset.items emptyPage = .ok [] := rfl
  have hnegative : backward.limit.IsNegative := ⟨-5, by decide, rfl⟩
  have hbounded : ¬ backward.IsUnbounded := by
    rintro (⟨negative, h⟩ | ⟨negative, h⟩) <;> cases h
  obtain ⟨hpage, hwalk⟩ := LimitOffset.empty_page_outcome backward
  obtain ⟨-, -, hnext⟩ := hpage emptyPage hitems
  refine ⟨⟨_, rfl, (hnext _ rfl).mpr hnegative⟩, ?_, ?_⟩
  · exact ((LimitOffset.empty_page_outcome boundless).1 emptyPage hitems).1.mpr (.inl ⟨false, rfl⟩)
  · have hidles := hwalk (walkFrom backward) ⟨.int 1⟩ (fun _ => pageOf []) rfl rfl (by decide) rfl
      (fun _ => rfl) 3
    generalize (walkFrom backward).run (.scripted fun _ => pageOf []) (3 + 2) [] = result at hidles ⊢
    obtain ⟨x, acts⟩ := result
    dsimp only at hidles ⊢
    generalize (Walk.requests acts).length = sent at hidles ⊢
    cases hidles with
    | breaks h => exact absurd h hbounded
    | endless _ _ => exact ⟨rfl, rfl⟩
    | ends _ h => exact absurd hnegative h

end Sample

end Harvest
