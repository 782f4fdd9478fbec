import Harvest.Proofs.Sourcing.Trace

/-!
# Pages

With a page size that is a positive number, the walk of a type in a language asks for its pages by
number: the request for page `k` has the offset `k` times the size. This module says what such a walk
makes of an answer. An answer is read in three ways: as the items of a page, as a page that was not
fetched, or as data that is not what its users take it for.

The variables of a walk are dynamic values, and reading them as numbers is where a walk could go wrong. By
number it cannot: the limit is the page size, the offset is a multiple of it, and both are read again as
what they are (`walkAt`). So the state of a walk is known from its type, its language and the number of the
page.
-/

namespace Harvest

/-! ## Reading answers

Three readings, each a function of the answer alone. Everything later on asks for the reading and not for
the answer. -/

/-- What an answer is taken for. -/
inductive Reading where
  | items (vs : List Value)
  | unfetched (p : FetchProblem)
  | misused (f : Fault)

/-- Reads an answer, of which the page is a member. -/
def Answer.reading (queryField : String) (a : Answer) : Reading :=
  match a with
  | .failed e => .unfetched (.remote e)
  | .broken f => .misused f
  | .data v =>
    match v.field? queryField with
    | none => .unfetched (.missing queryField)
    | some .null => .unfetched (.null queryField)
    | some (.object ms) =>
      match LimitOffset.items (.object ms) with
      | .ok vs => .items vs
      | .error f => .misused f
    | some _ => .unfetched (.notObject queryField)

namespace NodeDefinition

variable (d : NodeDefinition) (l : String) (n k : Nat)

/-- The request for a page of the type in a language. -/
def pageRequest : Request :=
  { query := d.document.text
    operationName := d.document.operations.get? l
    variableValues := LimitOffset.pageVariables (.int n) (.int (n * k : Nat)) }

/-- The walk of the type in a language that is about to ask for a page. -/
def walkAt : Walk :=
  { document := d.document
    language := l
    state :=
      { variableValues := LimitOffset.pageVariables (.int n) (.int (n * k : Nat))
        hasNext := true }
    paging := .bySize n }

/-- The records among the items of a page in a language. -/
def records (vs : List Value) : List EntityRecord := (d.walkAt l 0 0).records vs

/-- The failure to fetch a page. -/
def fetchFailure (p : FetchProblem) : Failure :=
  .fetch d.document.typeName l (LimitOffset.pageVariables (.int n) (.int (n * k : Nat))) p

variable {d l n k}

/-- A walk says which page comes next. -/
theorem walkAt_inj {l' : String} {k' : Nat} (hn : 0 < n) (h : d.walkAt l n k = d.walkAt l' n k') :
    l = l' ∧ k = k' := by
  have hl : l = l' := congrArg Walk.language h
  have hv := congrArg (fun w : Walk => Members.field w.state.variableValues "offset") h
  have hk : ((n * k : Nat) : Int) = (n * k' : Nat) := by
    injection hv with hv
    injection hv
  exact ⟨hl, Nat.eq_of_mul_eq_mul_left hn (by omega)⟩

theorem request_walkAt (h : d.document.operations.contains l = true) :
    (d.walkAt l n k).request = .ok (d.pageRequest l n k) := by
  obtain ⟨name, hname⟩ := Option.isSome_iff_exists.mp h
  unfold Walk.request
  dsimp only [walkAt]
  rw [hname, pageRequest, hname]

@[simp] theorem records_append (vs ws : List Value) :
    d.records l (vs ++ ws) = d.records l vs ++ d.records l ws := List.filterMap_append

end NodeDefinition

/-! ## Variables that are numbers

The limit and the offset as integers, before and after a page. -/

namespace LimitOffset

theorem limit_int {i : Int} (h : i ≠ 0) : limit (.int i) = .ok i := by
  show Except.ok (if i = 0 then defaultLimit else i) = _
  rw [if_neg h]

theorem offset_int (i : Int) : offset (.int i) = .ok i := rfl

theorem next_pageVariables {l o : Int} {page : Value} {vs : List Value} (hl : l ≠ 0)
    (h : items page = .ok vs) (goesOn : Bool) :
    next ⟨pageVariables (.int l) (.int o), goesOn⟩ page
      = .ok ⟨pageVariables (.int l) (.int (o + l)), decide (l ≤ vs.length)⟩ := by
  show (do
    let l ← limit (.int l)
    let o ← offset (.int o)
    let count := (← items page).length
    return ⟨pageVariables (.int l) (.int (o + l)), decide (l ≤ count)⟩ : Except Fault PageState) = _
  rw [limit_int hl, offset_int, h]
  rfl

end LimitOffset

/-! ## Receiving answers

One equation for each reading, with the records that come and the walk that is left. -/

namespace NodeDefinition

variable {d : NodeDefinition} {l : String} {n k : Nat} {a : Answer} {vs : List Value}

/-- After a page the walk is at the next one; whether it asks for that depends on the length. -/
theorem advance_walkAt (hn : 0 < n) {page : Value} (h : LimitOffset.items page = .ok vs) :
    (d.walkAt l n k).advance page
      = .ok { d.walkAt l n (k + 1) with
          state := { (d.walkAt l n (k + 1)).state with hasNext := decide ((n : Int) ≤ vs.length) } } := by
  have hk : ((n * k : Nat) : Int) + n = (n * (k + 1) : Nat) := by
    rw [Nat.mul_succ]
    omega
  have hs := LimitOffset.next_pageVariables (o := (n * k : Nat)) (by omega : (n : Int) ≠ 0) h true
  rw [hk] at hs
  have hnext : (d.walkAt l n k).paging.next (d.walkAt l n k).state page
      = .ok { (d.walkAt l n (k + 1)).state with hasNext := decide ((n : Int) ≤ vs.length) } := by
    show (LimitOffset.next _ page).mapError Failure.fault = _
    exact congrArg (Except.mapError Failure.fault) hs
  rw [Walk.advance, hnext]
  rfl

/-- A walk takes the items of a page as they are by limit and offset. -/
theorem items_walkAt (page : Value) :
    (d.walkAt l n k).paging.items page = (LimitOffset.items page).mapError .fault := rfl

/-- What an answer is taken for says where its page is. -/
theorem page_reading (a : Answer) :
    match a.reading d.document.queryField with
    | .items vs => ∃ ms, (d.walkAt l n k).page a = .ok (.object ms)
        ∧ LimitOffset.items (.object ms) = .ok vs
    | .unfetched p => (d.walkAt l n k).page a = .error (d.fetchFailure l n k p)
    | .misused f => (d.walkAt l n k).page a = .error (.fault f)
        ∨ ∃ ms, (d.walkAt l n k).page a = .ok (.object ms)
          ∧ LimitOffset.items (.object ms) = .error f := by
  cases a with
  | failed e => rfl
  | broken f => exact .inl rfl
  | data v =>
      unfold Answer.reading Walk.page
      dsimp only [walkAt]
      cases v.field? d.document.queryField with
      | none => rfl
      | some x =>
          -- Only an object can be a page; whether it is one depends on its items.
          cases x with
          | object ms =>
              dsimp only
              cases hi : LimitOffset.items (.object ms) with
              | ok vs => exact ⟨ms, rfl, hi⟩
              | error f => exact .inr ⟨ms, rfl, hi⟩
          | atom x => cases x <;> rfl
          | _ => rfl

theorem receive_items (hn : 0 < n) (h : a.reading d.document.queryField = .items vs) :
    (d.walkAt l n k).receive a
      = (d.records l vs, .ok { d.walkAt l n (k + 1) with
          state := { (d.walkAt l n (k + 1)).state with hasNext := decide ((n : Int) ≤ vs.length) } }) := by
  have hp := page_reading (d := d) (l := l) (n := n) (k := k) a
  rw [h] at hp
  obtain ⟨ms, hp, hi⟩ := hp
  rw [Walk.receive, hp]
  dsimp only
  rw [items_walkAt, hi, advance_walkAt hn hi]
  rfl

theorem receive_full (hn : 0 < n) (h : a.reading d.document.queryField = .items vs)
    (hv : n ≤ vs.length) :
    (d.walkAt l n k).receive a = (d.records l vs, .ok (d.walkAt l n (k + 1))) := by
  have hv' : decide ((n : Int) ≤ vs.length) = true := by
    rw [decide_eq_true_iff]
    omega
  rw [receive_items hn h, hv']
  rfl

theorem receive_short (hn : 0 < n) (h : a.reading d.document.queryField = .items vs)
    (hv : vs.length < n) :
    ∃ next, (d.walkAt l n k).receive a = (d.records l vs, .ok next) ∧ next.state.hasNext = false := by
  refine ⟨_, receive_items hn h, ?_⟩
  show decide ((n : Int) ≤ vs.length) = false
  rw [decide_eq_false_iff_not]
  omega

theorem receive_unfetched {p : FetchProblem}
    (h : a.reading d.document.queryField = .unfetched p) :
    (d.walkAt l n k).receive a = ([], .error (d.fetchFailure l n k p)) := by
  have hp := page_reading (d := d) (l := l) (n := n) (k := k) a
  rw [h] at hp
  dsimp only at hp
  rw [Walk.receive, hp]

theorem receive_misused {f : Fault} (h : a.reading d.document.queryField = .misused f) :
    (d.walkAt l n k).receive a = ([], .error (.fault f)) := by
  have hp := page_reading (d := d) (l := l) (n := n) (k := k) a
  rw [h] at hp
  rcases hp with hp | ⟨ms, hp, hi⟩
  · rw [Walk.receive, hp]
  · rw [Walk.receive, hp]
    dsimp only
    rw [items_walkAt, hi]
    rfl

end NodeDefinition

end Harvest
