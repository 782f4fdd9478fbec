import Harvest.Proofs.Sourcing.Completeness
import Harvest.Proofs.Sourcing.Independence

/-!
# Walks and their outcomes

A walk that is not cancelled is settled by the outcomes of its requests, the one after the other.
`Surroundings.scripted` are surroundings in which these are the members of a sequence, and which keep a
list of all that the walk does. `Walk.run_scripted` gives this list in closed form: the walk asks for page
after page as long as they are full, and hands over the items of every page before it asks for the next
one. `Walk.run_traces` says what that means for requests, records and failures.

The closed form has two parameters. `FullAt` says of the page with a number that it is as long as was asked
for, and `actsOn` lists what is done about the first pages. `Comes` then tells how many requests have been
sent after so many turns: as many as there were turns, as long as all pages were full, and else up to the
first that is not. From `Comes` the statements on requests, offsets, records and failures are read off one
by one (`Comes.full`, `Comes.last`, `Comes.next`), and `Traces` puts them together.

Outcomes are answers of every kind, so the sequence may have errors and answers without a page at any
number, also behind the one at which the walk ends: those are never asked for.
-/

namespace Harvest

/-! ## Pages of answers

A page is the list of entities under the query field. An answer may have none: the reading of an answer says
so in three ways, of which only one occurs for a regular answer without a page. -/

/-- The items of the page in an answer, which has none where `entities` is absent or null; nothing if no
page can be taken from the answer. -/
def Answer.page? (queryField : String) : Answer → Option (List Value)
  | .data v =>
    match v.field? queryField with
    | some (.object ms) =>
      match Members.field ms entitiesField with
      | .list vs => some vs
      | _ => some []
    | _ => none
  | _ => none

/-- Entities that are null are no items. -/
theorem items_of_null {ms : Members} (h : Members.field ms entitiesField = .null) :
    LimitOffset.items (.object ms) = .ok [] := by
  unfold LimitOffset.items
  split
  next => rfl
  next =>
    dsimp only
    rw [h]
    rfl

namespace Answer

variable {queryField : String} {a : Answer} {vs : List Value}

/-- A regular answer is taken for the page that it has. -/
theorem IsRegular.reading_eq_items_iff (h : a.IsRegular queryField) :
    a.reading queryField = .items vs ↔ a.page? queryField = some vs := by
  cases a with
  | failed e => exact ⟨nofun, nofun⟩
  | broken f => exact h.elim
  | data v =>
      unfold reading page?
      dsimp only
      cases hf : v.field? queryField with
      | none => exact ⟨nofun, nofun⟩
      | some x =>
          cases x with
          | object ms =>
              dsimp only
              rcases h ms hf with hn | ⟨ws, hws⟩
              · rw [hn, items_of_null hn]
                dsimp only
                rw [Reading.items.injEq, Option.some.injEq]
              · rw [hws, items_of_list hws]
                dsimp only
                rw [Reading.items.injEq, Option.some.injEq]
          | atom x => cases x <;> exact ⟨nofun, nofun⟩
          | _ => exact ⟨nofun, nofun⟩

/-- A regular answer without a page is a page that was not fetched. -/
theorem IsRegular.reading_of_page?_eq_none (h : a.IsRegular queryField)
    (hp : a.page? queryField = none) : ∃ problem, a.reading queryField = .unfetched problem := by
  cases hr : a.reading queryField with
  | items vs =>
      rw [h.reading_eq_items_iff, hp] at hr
      cases hr
  | unfetched problem => exact ⟨problem, rfl⟩
  | misused f => exact absurd hr (h.ne_misused f)

end Answer

/-! ## Sequences of outcomes

The surroundings answer the request with a number by the outcome of that number, whatever the request is.
They count by the requests in their list. -/

namespace Walk

/-- What a walk does to its surroundings. -/
inductive Act where
  | asked (r : Request)
  | yielded (r : EntityRecord)

/-- The requests that a walk has sent. -/
def requests (acts : List Act) : List Request :=
  acts.filterMap fun
    | .asked r => some r
    | .yielded _ => none

/-- The records that a walk has handed over. -/
def yields (acts : List Act) : List EntityRecord :=
  acts.filterMap fun
    | .asked _ => none
    | .yielded r => some r

@[simp] theorem requests_append (acts more : List Act) :
    requests (acts ++ more) = requests acts ++ requests more := List.filterMap_append

@[simp] theorem yields_append (acts more : List Act) :
    yields (acts ++ more) = yields acts ++ yields more := List.filterMap_append

@[simp] theorem requests_asked (r : Request) (acts : List Act) :
    requests (.asked r :: acts) = r :: requests acts := rfl

@[simp] theorem yields_asked (r : Request) (acts : List Act) :
    yields (.asked r :: acts) = yields acts := rfl

@[simp] theorem requests_yielded (rs : List EntityRecord) : requests (rs.map .yielded) = [] := by
  induction rs with
  | nil => rfl
  | cons r rs ih => exact ih

@[simp] theorem yields_yielded (rs : List EntityRecord) : yields (rs.map .yielded) = rs := by
  induction rs with
  | nil => rfl
  | cons r rs ih => exact congrArg (r :: ·) ih

end Walk

/-- Surroundings in which the outcomes of requests are the members of a sequence, and nothing cancels a
walk. They keep a list of what is done. -/
def Surroundings.scripted (outcomes : Nat → Answer) : Surroundings (List Walk.Act) where
  ask r := fun acts => (outcomes (Walk.requests acts).length, acts ++ [.asked r])
  cancelled _ := false
  emit r acts := acts ++ [.yielded r]

namespace Surroundings

variable {outcomes : Nat → Answer} {acts : List Walk.Act}

theorem ask_scripted (r : Request) :
    (scripted outcomes).ask r acts = (outcomes (Walk.requests acts).length, acts ++ [.asked r]) := rfl

/-- Records are put into the list in their order. -/
theorem emit_scripted (rs : List EntityRecord) :
    rs.foldl (fun acts r => (scripted outcomes).emit r acts) acts = acts ++ rs.map .yielded := by
  induction rs generalizing acts with
  | nil => exact (List.append_nil acts).symm
  | cons r rs ih =>
      rw [List.foldl_cons, ih, List.map_cons, List.append_cons]
      rfl

end Surroundings

/-- A definition that goes by a document. Walks depend on nothing else of a definition. -/
def CompiledDocument.definition (doc : CompiledDocument) : NodeDefinition :=
  { descriptor := default, nodeType := "", document := doc, idFields := [] }

namespace Walk

section Outcomes

variable (doc : CompiledDocument) (l : String) (n : Nat) (outcomes : Nat → Answer)

/-! ### The closed form

`actsOn` is a list that can be computed from the outcomes alone. `Walk.run_scripted` says that it is the list
that the surroundings keep, and `Comes` tells how many pages it is about. -/

/-- The items of a page. -/
def itemsAt (k : Nat) : List Value := ((outcomes k).page? doc.queryField).getD []

/-- Whether a page can be taken from an outcome, and is as long as was asked for. -/
def FullAt (k : Nat) : Prop := ∃ vs, (outcomes k).page? doc.queryField = some vs ∧ n ≤ vs.length

/-- What a walk does about its first pages. -/
def actsOn (k : Nat) : List Act :=
  (List.range k).flatMap fun j =>
    .asked (doc.definition.pageRequest l n j)
      :: (doc.definition.records l (itemsAt doc outcomes j)).map .yielded

/-- How many requests a walk has sent after so many turns, and how it stands then. -/
inductive Comes (turns : Nat) : Nat → Option (Except Failure Unit) → Prop
  | running (h : ∀ j, j + 1 < turns → FullAt doc n outcomes j)
      (hp : ∀ j, j + 1 = turns → ((outcomes j).page? doc.queryField).isSome = true) :
      Comes turns turns none
  | ended {k : Nat} {vs : List Value} (h : ∀ j < k, FullAt doc n outcomes j) (hk : k + 1 < turns)
      (hp : (outcomes k).page? doc.queryField = some vs) (hv : vs.length < n) :
      Comes turns (k + 1) (some (.ok ()))
  | failed {k : Nat} {problem : FetchProblem} (h : ∀ j < k, FullAt doc n outcomes j) (hk : k < turns)
      (hp : (outcomes k).page? doc.queryField = none) :
      Comes turns (k + 1) (some (.error (doc.definition.fetchFailure l n k problem)))

variable {doc l n outcomes}

/-- The next page is asked for, and its records are handed over. -/
theorem actsOn_succ (k : Nat) :
    actsOn doc l n outcomes (k + 1) = actsOn doc l n outcomes k
      ++ .asked (doc.definition.pageRequest l n k)
        :: (doc.definition.records l (itemsAt doc outcomes k)).map .yielded := by
  rw [actsOn, List.range_succ, List.flatMap_append, List.flatMap_singleton]
  rfl

/-! ### What the list says

Its requests are those for the first pages, its records those of their items. Wherever a request stands in
it, the records before it are those of the pages before. -/

/-- The requests for the first pages have the offsets of these pages. -/
theorem requests_actsOn (k : Nat) :
    requests (actsOn doc l n outcomes k) = (List.range k).map (doc.definition.pageRequest l n) := by
  induction k with
  | zero => rfl
  | succ k ih =>
      rw [actsOn_succ, requests_append, ih, requests_asked, requests_yielded, List.range_succ,
        List.map_append]
      rfl

@[simp] theorem length_requests_actsOn (k : Nat) :
    (requests (actsOn doc l n outcomes k)).length = k := by
  rw [requests_actsOn, List.length_map, List.length_range]

/-- The records of the first pages are those of their items, page by page. -/
theorem yields_actsOn (k : Nat) :
    yields (actsOn doc l n outcomes k)
      = doc.definition.records l ((List.range k).flatMap (itemsAt doc outcomes)) := by
  induction k with
  | zero => rfl
  | succ k ih =>
      rw [actsOn_succ, yields_append, ih, yields_asked, yields_yielded, List.range_succ,
        List.flatMap_append, List.flatMap_singleton, NodeDefinition.records_append]

/-- A request stands between what was done about the pages before it and its own page. -/
theorem eq_actsOn_of_split {K : Nat} {before after : List Act} {r : Request}
    (h : actsOn doc l n outcomes K = before ++ .asked r :: after) :
    ∃ k < K, before = actsOn doc l n outcomes k ∧ r = doc.definition.pageRequest l n k := by
  induction K generalizing after with
  | zero => cases List.append_ne_nil_of_right_ne_nil before (List.cons_ne_nil _ _) h.symm
  | succ K ih =>
      rw [actsOn_succ, List.append_eq_append_iff] at h
      -- The request is the last one, or one of those before; records are no requests.
      rcases h with ⟨rest, rfl, h⟩ | ⟨rest, h, hrest⟩
      · cases rest with
        | nil =>
            cases h
            exact ⟨K, Nat.lt_succ_self K, List.append_nil _, rfl⟩
        | cons a rest =>
            have hmem : Act.asked r
                ∈ (doc.definition.records l (itemsAt doc outcomes K)).map Act.yielded := by
              rw [(List.cons.inj h).2]
              exact List.mem_append_right rest List.mem_cons_self
            obtain ⟨x, -, hx⟩ := List.mem_map.mp hmem
            cases hx
      · cases rest with
        | nil =>
            cases hrest
            exact ⟨K, Nat.lt_succ_self K, (List.append_nil _ ▸ h).symm, rfl⟩
        | cons a rest =>
            cases hrest
            obtain ⟨k, hk, hbefore⟩ := ih h
            exact ⟨k, Nat.lt_succ_of_lt hk, hbefore⟩

/-- What is done about a page that is asked for. -/
theorem run_asking (hop : doc.operations.contains l = true) {turns k : Nat} :
    (doc.definition.walkAt l n k).run (.scripted outcomes) (turns + 1) (actsOn doc l n outcomes k)
      = match (doc.definition.walkAt l n k).receive (outcomes k) with
        | (rs, .error e) => (some (.error e), actsOn doc l n outcomes k
            ++ .asked (doc.definition.pageRequest l n k) :: rs.map .yielded)
        | (rs, .ok w) => w.run (.scripted outcomes) turns (actsOn doc l n outcomes k
            ++ .asked (doc.definition.pageRequest l n k) :: rs.map .yielded) := by
  have hturn : (doc.definition.walkAt l n k).turn
      ((Surroundings.scripted outcomes).cancelled (actsOn doc l n outcomes k))
        = .ask (doc.definition.pageRequest l n k) :=
    turn_ask rfl (NodeDefinition.request_walkAt hop)
  obtain ⟨⟨rs, next⟩, hx⟩ : ∃ x, (doc.definition.walkAt l n k).receive (outcomes k) = x := ⟨_, rfl⟩
  rw [run, hturn, hx]
  dsimp only
  rw [Surroundings.ask_scripted, length_requests_actsOn]
  dsimp only
  rw [hx, Surroundings.emit_scripted, List.append_assoc]
  cases next <;> rfl

/-- **A walk asks for page after page** as long as they are full. -/
theorem run_scripted (hop : doc.operations.contains l = true) (hn : 0 < n)
    (ho : ∀ k, (outcomes k).IsRegular doc.queryField) {turns k : Nat}
    (hfull : ∀ j < k, FullAt doc n outcomes j) :
    ∃ sent x, (doc.definition.walkAt l n k).run (.scripted outcomes) turns (actsOn doc l n outcomes k)
        = (x, actsOn doc l n outcomes sent)
      ∧ Comes doc l n outcomes (k + turns) sent x := by
  induction turns generalizing k with
  | zero =>
      refine ⟨k, none, rfl, .running (fun j hj => hfull j (by omega)) fun j hj => ?_⟩
      obtain ⟨vs, hvs, -⟩ := hfull j (by omega)
      rw [hvs]
      rfl
  | succ turns ih =>
      rw [run_asking hop]
      cases hp : (outcomes k).page? doc.queryField with
      | none =>
          obtain ⟨problem, hr⟩ := (ho k).reading_of_page?_eq_none hp
          have hitems : itemsAt doc outcomes k = [] := by
            rw [itemsAt, hp]
            rfl
          refine ⟨k + 1, some (.error (doc.definition.fetchFailure l n k problem)), ?_,
            .failed hfull (by omega) hp⟩
          rw [NodeDefinition.receive_unfetched (d := doc.definition) hr, actsOn_succ, hitems]
          rfl
      | some vs =>
          have hr := (ho k).reading_eq_items_iff.mpr hp
          have hitems : itemsAt doc outcomes k = vs := by
            rw [itemsAt, hp]
            rfl
          by_cases hv : n ≤ vs.length
          · rw [NodeDefinition.receive_full (d := doc.definition) hn hr hv]
            dsimp only
            obtain ⟨sent, x, hrun, hcomes⟩ := ih (k := k + 1) fun j hj => by
              rcases Nat.lt_succ_iff_lt_or_eq.mp hj with hj | rfl
              · exact hfull j hj
              · exact ⟨vs, hp, hv⟩
            rw [actsOn_succ, hitems] at hrun
            exact ⟨sent, x, hrun, by rwa [Nat.add_assoc, Nat.add_comm 1] at hcomes⟩
          · have hv' := Nat.lt_of_not_le hv
            obtain ⟨next, hrec, hnext⟩ :=
              NodeDefinition.receive_short (d := doc.definition) (l := l) (k := k) hn hr hv'
            rw [hrec]
            dsimp only
            have hacts : actsOn doc l n outcomes (k + 1) = _ := actsOn_succ k
            rw [hitems] at hacts
            rw [← hacts]
            -- That there is no page after it is found out in the turn to come.
            cases turns with
            | zero =>
                refine ⟨k + 1, none, rfl, .running (fun j hj => hfull j (by omega)) fun j hj => ?_⟩
                obtain rfl : j = k := by omega
                rw [hp]
                rfl
            | succ turns =>
                refine ⟨k + 1, some (.ok ()), ?_, .ended hfull (by omega) hp hv'⟩
                rw [run, turn_finished hnext]

end Outcomes

/-! ## Traces

What can be said of the walk without the list: the variables of each request, whose items are handed over,
and with what failure it ends. -/

section Traces

variable {doc : CompiledDocument} {l name : String} {n turns sent : Nat} {outcomes : Nat → Answer}
  {x : Option (Except Failure Unit)}

/-- The variables of the request for a page. -/
def variablesOf (n k : Nat) : Members := [(.str "limit", .int n), (.str "offset", .int (k * n : Nat))]

/-- The items among the first pages that name the type as their own. -/
def ownItems (doc : CompiledDocument) (outcomes : Nat → Answer) (k : Nat) : List Value :=
  ((List.range k).flatMap (itemsAt doc outcomes)).filter (Value.isOf doc.typeName)

/-- Whether records are those of some items of a type in a language. -/
def Shows (doc : CompiledDocument) (l : String) (rs : List EntityRecord) (vs : List Value) : Prop :=
  rs.map (fun r => (r.typeName, r.language, Value.object r.data)) = vs.map fun v => (doc.typeName, l, v)

/-- What a walk has done after so many turns, and what has come of it. -/
structure Traces (doc : CompiledDocument) (l name : String) (n : Nat) (outcomes : Nat → Answer)
    (turns : Nat) (x : Option (Except Failure Unit)) (acts : List Act) : Prop where
  /-- The requests go from page to page. -/
  request_eq : ∀ k r, (requests acts)[k]? = some r →
    r = ({ query := doc.text, operationName := some name, variableValues := variablesOf n k } : Request)
  /-- A walk begins with a request. -/
  begins : 0 < turns → 0 < (requests acts).length
  /-- One more page is asked for exactly after a full one. -/
  next_iff : ∀ k, k + 1 < turns →
    (k + 1 < (requests acts).length ↔ k < (requests acts).length ∧ FullAt doc n outcomes k)
  /-- All items of the pages before a request were handed over before it, and nothing else. -/
  before : ∀ before r after, acts = before ++ .asked r :: after →
    Shows doc l (yields before) (ownItems doc outcomes (requests before).length)
  /-- The walk breaks off over an outcome without a page. -/
  failed : ∀ k, k < (requests acts).length → (outcomes k).page? doc.queryField = none →
    (requests acts).length = k + 1 ∧ Shows doc l (yields acts) (ownItems doc outcomes k)
      ∧ ∃ problem, x = some (.error (.fetch doc.typeName l (variablesOf n k) problem))
  /-- The walk ends after a page that is not full. -/
  ended : ∀ k vs, k + 1 < turns → k < (requests acts).length →
    (outcomes k).page? doc.queryField = some vs → vs.length < n →
      (requests acts).length = k + 1 ∧ Shows doc l (yields acts) (ownItems doc outcomes (k + 1))
        ∧ x = some (.ok ())

/-- The records of a page are those of its items that name the type as their own. -/
theorem shows_records (vs : List Value) :
    Shows doc l (doc.definition.records l vs) (vs.filter (Value.isOf doc.typeName)) := by
  have h := doc.definition.records_items l vs
  have hname : ∀ r ∈ doc.definition.records l vs, r.typeName = doc.typeName := by
    intro r hr
    obtain ⟨v, -, hv⟩ := List.mem_filterMap.mp hr
    unfold record? at hv
    split at hv
    next =>
      split at hv
      next =>
        split at hv
        next => cases hv; rfl
        next => cases hv
      next => cases hv
    next => cases hv
  have hmap := congrArg (List.map fun y : String × Value => (doc.typeName, y.1, y.2)) h
  rw [List.map_map, List.map_map] at hmap
  refine (List.map_congr_left fun r hr => ?_).trans hmap
  rw [hname r hr]
  rfl

theorem shows_actsOn (k : Nat) :
    Shows doc l (yields (actsOn doc l n outcomes k)) (ownItems doc outcomes k) := by
  rw [yields_actsOn]
  exact shows_records _

/-- An outcome without a page brings no items. -/
theorem ownItems_succ_of_none {k : Nat} (h : (outcomes k).page? doc.queryField = none) :
    ownItems doc outcomes (k + 1) = ownItems doc outcomes k := by
  rw [ownItems, ownItems, List.range_succ, List.flatMap_append, List.flatMap_singleton, itemsAt, h,
    Option.getD_none, List.append_nil]

/-- A request names the operation of its language and gives the limit and the offset. -/
theorem pageRequest_eq (hl : doc.operations.get? l = some name) (k : Nat) :
    doc.definition.pageRequest l n k
      = { query := doc.text, operationName := some name, variableValues := variablesOf n k } := by
  rw [variablesOf, Nat.mul_comm, ← hl]
  rfl

theorem fetchFailure_eq (k : Nat) (problem : FetchProblem) :
    doc.definition.fetchFailure l n k problem
      = .fetch doc.typeName l (variablesOf n k) problem := by
  rw [variablesOf, Nat.mul_comm]
  rfl

namespace Comes

/-! ### What is known by the number of requests

A walk stands in one of three ways, and `Comes` has a constructor for each. -/

/-- All pages but the last one were full. -/
theorem full (h : Comes doc l n outcomes turns sent x) {k : Nat} (hk : k + 1 < sent) :
    FullAt doc n outcomes k := by
  cases h with
  | running h _ => exact h k hk
  | ended h _ _ _ => exact h k (Nat.lt_of_succ_lt_succ hk)
  | failed h _ _ => exact h k (Nat.lt_of_succ_lt_succ hk)

/-- No page is asked for after one that is not full. -/
theorem last (h : Comes doc l n outcomes turns sent x) {k : Nat} (hk : k < sent)
    (hf : ¬ FullAt doc n outcomes k) : sent = k + 1 := by
  by_contra hne
  exact hf (h.full (by omega))

/-- As long as there are turns, a walk does not stop at a full page. -/
theorem next (h : Comes doc l n outcomes turns sent x) {k : Nat} (ht : k + 1 < turns)
    (hk : k < sent) (hf : FullAt doc n outcomes k) : k + 1 < sent := by
  obtain ⟨vs, hvs, hv⟩ := hf
  cases h with
  | running _ _ => exact ht
  | @ended k' ws _ _ hp hw =>
      have hne : k ≠ k' := by
        rintro rfl
        cases hvs.symm.trans hp
        exact Nat.not_lt.mpr hv hw
      omega
  | @failed k' _ _ _ hp =>
      have hne : k ≠ k' := by
        rintro rfl
        cases hvs.symm.trans hp
      omega

/-- At an outcome without a page the walk fails. -/
theorem of_none (h : Comes doc l n outcomes turns sent x) {k : Nat} (hk : k < sent)
    (hp : (outcomes k).page? doc.queryField = none) :
    sent = k + 1 ∧ ∃ problem, x = some (.error (.fetch doc.typeName l (variablesOf n k) problem)) := by
  have hsent : sent = k + 1 := h.last hk fun ⟨vs, hvs, _⟩ => by cases hp.symm.trans hvs
  subst hsent
  refine ⟨rfl, ?_⟩
  cases h with
  | running _ hlast =>
      have hsome := hlast k rfl
      rw [hp] at hsome
      cases hsome
  | ended _ _ hp' _ => cases hp.symm.trans hp'
  | @failed _ problem _ _ _ => exact ⟨problem, by rw [fetchFailure_eq]⟩

/-- At a page that is not full the walk ends. -/
theorem of_short (h : Comes doc l n outcomes turns sent x) {k : Nat} (ht : k + 1 < turns)
    (hk : k < sent) {vs : List Value} (hp : (outcomes k).page? doc.queryField = some vs)
    (hv : vs.length < n) : sent = k + 1 ∧ x = some (.ok ()) := by
  have hsent : sent = k + 1 := h.last hk fun ⟨ws, hws, hw⟩ => by
    cases hp.symm.trans hws
    exact Nat.not_lt.mpr hw hv
  subst hsent
  refine ⟨rfl, ?_⟩
  cases h with
  | running _ _ => exact absurd ht (Nat.lt_irrefl _)
  | ended _ _ _ _ => rfl
  | failed _ _ hp' => cases hp.symm.trans hp'

/-- What is known of a walk by its outcomes, as one structure. -/
theorem traces (h : Comes doc l n outcomes turns sent x)
    (hl : doc.operations.get? l = some name) :
    Traces doc l name n outcomes turns x (actsOn doc l n outcomes sent) where
  request_eq k r hr := by
    rw [requests_actsOn, List.getElem?_map, Option.map_eq_some_iff] at hr
    obtain ⟨j, hj, rfl⟩ := hr
    obtain ⟨hk, rfl⟩ := List.getElem?_eq_some_iff.mp hj
    rw [List.getElem_range, pageRequest_eq hl]
  begins ht := by
    rw [length_requests_actsOn]
    cases h with
    | running _ _ => exact ht
    | ended _ _ _ _ => exact Nat.succ_pos _
    | failed _ _ _ => exact Nat.succ_pos _
  next_iff k ht := by
    rw [length_requests_actsOn]
    exact ⟨fun hk => ⟨Nat.lt_of_succ_lt hk, h.full hk⟩, fun hk => h.next ht hk.1 hk.2⟩
  -- a request of the trace splits it at a whole number of pages
  before before r after hacts := by
    obtain ⟨k, -, rfl, -⟩ := eq_actsOn_of_split hacts
    rw [length_requests_actsOn]
    exact shows_actsOn k
  failed k hk hp := by
    rw [length_requests_actsOn] at hk ⊢
    obtain ⟨rfl, hx⟩ := h.of_none hk hp
    exact ⟨rfl, ownItems_succ_of_none hp ▸ shows_actsOn (k + 1), hx⟩
  ended k vs ht hk hp hv := by
    rw [length_requests_actsOn] at hk ⊢
    obtain ⟨rfl, hx⟩ := h.of_short ht hk hp hv
    exact ⟨rfl, shows_actsOn (k + 1), hx⟩

end Comes

/-- **The outcomes of its requests settle what a walk does**: what it asks for, what it hands over
before that, and where and how it comes to its end. -/
theorem run_traces (hl : doc.operations.get? l = some name) (hn : 1 ≤ n)
    (ho : ∀ k, (outcomes k).IsRegular doc.queryField) (turns : Nat) :
    Traces doc l name n outcomes turns
      ((start doc l ⟨.int n⟩).run (.scripted outcomes) turns []).1
      ((start doc l ⟨.int n⟩).run (.scripted outcomes) turns []).2 := by
  have hop : doc.operations.contains l = true := by
    rw [Keyed.contains, hl]
    rfl
  have hstart : (start doc l ⟨.int n⟩).run (.scripted outcomes) turns []
      = (doc.definition.walkAt l n 0).run (.scripted outcomes) turns (actsOn doc l n outcomes 0) := rfl
  obtain ⟨sent, x, hrun, hcomes⟩ :=
    run_scripted hop hn ho fun j hj => absurd hj (Nat.not_lt_zero j)
  rw [hstart, hrun]
  rw [Nat.zero_add] at hcomes
  exact hcomes.traces hl

end Traces

end Walk

/-! ## A walk that breaks off after two pages -/

namespace Sample

/-- A document with one operation. -/
def nodeDocument : CompiledDocument :=
  { (default : CompiledDocument) with
    typeName := "Node", queryField := "nodeQuery", operations := .ofList [("EN", "LIST_Node_EN")] }

/-- A full page with an item of another type, a second one with an item that is none, then an error. -/
def twoPages : Nat → Answer
  | 0 => pageOf [item "Node" "1", item "Term" "2"]
  | 1 => pageOf [.null, item "Node" "3"]
  | _ => .data .null

theorem isRegular_twoPages (k : Nat) : (twoPages k).IsRegular nodeDocument.queryField := by
  match k with
  | 0 =>
      intro ms hms
      cases hms
      exact .inr ⟨_, rfl⟩
  | 1 =>
      intro ms hms
      cases hms
      exact .inr ⟨_, rfl⟩
  | k + 2 => exact nofun

/-- The walk sends three requests and hands over one record of each full page. -/
theorem traces_twoPages :
    nodeDocument.operations.get? "EN" = some "LIST_Node_EN"
      ∧ Walk.Traces nodeDocument "EN" "LIST_Node_EN" 2 twoPages 5
        ((Walk.start nodeDocument "EN" ⟨.int 2⟩).run (.scripted twoPages) 5 []).1
        ((Walk.start nodeDocument "EN" ⟨.int 2⟩).run (.scripted twoPages) 5 []).2
      ∧ (Walk.requests ((Walk.start nodeDocument "EN" ⟨.int 2⟩).run (.scripted twoPages) 5 []).2).length
        = 3
      ∧ (Walk.yields ((Walk.start nodeDocument "EN" ⟨.int 2⟩).run (.scripted twoPages) 5 []).2).length
        = 2 :=
  ⟨by decide, Walk.run_traces (by decide) (by decide) isRegular_twoPages 5, by decide, by decide⟩

end Sample

end Harvest
