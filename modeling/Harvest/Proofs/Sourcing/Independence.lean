import Harvest.Proofs.Sourcing.Containment

/-!
# Independence

Two runs of one plan are told apart by a type only if the answers to its own requests differ. Whatever
the remotes answer for other types, in whatever order tasks move and however many of them may be under
way, the report says the same of the type and the receiver gets the same records of it, if both runs come
to an end: `Sourcing.Ends.alikeOn`.

It is not assumed that the same requests are sent in both. A page that is not full is the last one of its
language, so that neither walk goes beyond the page at which the other one ends (`Walking.le_of_agree`), and
up to there their requests and answers are the same. What a task has done when it is done follows language
by language (`Behind.eq_of_agree`).
-/

namespace Harvest

variable {σ σ₁ σ₂ : Type}

/-! ## Answers in agreement

Two sites agree on a type if they answer the requests for its pages alike; about all other requests nothing
is assumed. Answers are regular if no page in them is taken for what it is not. -/

/-- Whether an answer is an error or data in which a page, if there is one, has a list of items or
none at all. -/
def Answer.IsRegular (queryField : String) : Answer → Prop
  | .failed _ => True
  | .broken _ => False
  | .data v => ∀ ms, v.field? queryField = some (.object ms) →
    Members.field ms entitiesField = .null ∨ ∃ vs, Members.field ms entitiesField = .list vs

/-- Whether two sites answer the requests for the pages of a type alike. -/
def Site.Agree (site₁ : Site σ₁) (site₂ : Site σ₂) (d : NodeDefinition) (n : Nat) : Prop :=
  ∀ l ∈ d.languages, ∀ k a₁ a₂, site₁.Gives (d.pageRequest l n k) a₁ →
    site₂.Gives (d.pageRequest l n k) a₂ → a₁ = a₂

theorem isOf_pageRequest {d : NodeDefinition} {l : String} (hl : l ∈ d.languages) (n k : Nat) :
    (d.pageRequest l n k).IsOf d := ⟨rfl, l, hl, rfl⟩

/-- Sites that answer the requests of a type by one function agree on it. -/
theorem Site.Agree.of_answers {site₁ : Site σ₁} {site₂ : Site σ₂} {d : NodeDefinition}
    {f : Request → Answer} (h₁ : ∀ r, r.IsOf d → ∀ s, (site₁.ask r s).1 = f r)
    (h₂ : ∀ r, r.IsOf d → ∀ s, (site₂.ask r s).1 = f r) (n : Nat) : site₁.Agree site₂ d n := by
  rintro l hl k a₁ a₂ ⟨s₁, rfl⟩ ⟨s₂, rfl⟩
  have hof := isOf_pageRequest hl n k
  rw [h₁ _ hof, h₂ _ hof]

namespace Answer

variable {queryField : String} {a : Answer}

theorem IsRegular.isOrderly (h : a.IsRegular queryField) : a.isOrderly = true := by
  cases a with
  | broken f => exact h.elim
  | _ => rfl

/-- A regular answer is not taken for what it is not. -/
theorem IsRegular.isUnlistable (h : a.IsRegular queryField) : a.isUnlistable queryField = false := by
  unfold Answer.isUnlistable
  cases a with
  | data v =>
      dsimp only
      split
      next ms hf =>
        rcases h ms hf with hn | ⟨vs, hvs⟩
        · rw [hn]
          rfl
        · rw [hvs]
          rfl
      next => rfl
  | _ => rfl

theorem IsRegular.ne_misused (h : a.IsRegular queryField) (f : Fault) :
    a.reading queryField ≠ .misused f := by
  intro hr
  have hl := (isUnlistable_of_misused h.isOrderly hr).2
  rw [h.isUnlistable] at hl
  cases hl

end Answer

/-- Whether the answers to the requests of a type are regular. -/
def Site.IsRegularOn (site : Site σ) (d : NodeDefinition) : Prop :=
  ∀ r, r.IsOf d → ∀ s, (site.ask r s).1.IsRegular d.document.queryField

/-- What a site gives for the page of a type is regular. -/
theorem Site.IsRegularOn.gives {site : Site σ} {d : NodeDefinition} (h : site.IsRegularOn d)
    {l : String} (hl : l ∈ d.languages) {n k : Nat} {a : Answer}
    (hg : site.Gives (d.pageRequest l n k) a) : a.IsRegular d.document.queryField := by
  obtain ⟨s, rfl⟩ := hg
  exact h _ (isOf_pageRequest hl n k) s

/-- No task crashes over a regular answer. -/
theorem Stands.not_crashed_of_regular {site : Site σ} {d : NodeDefinition} {n : Nat} {es : Trace}
    {t : Task} (h : Stands site d n es t) (hr : site.IsRegularOn d) (f : Failure) :
    t.phase ≠ .crashed f := by
  intro hf
  obtain ⟨l, k, a, g, hl, hg, hread, -, -⟩ := h.of_crashed hf
  exact (hr.gives hl hg).ne_misused g hread

/-! ## Courses in agreement

What a task has done so far, compared between two runs: within one language, at the end of a language, and
over the languages that are behind. Each step needs the one before, since a later language begins only after
an earlier one. -/

section Agree

variable {site₁ : Site σ₁} {site₂ : Site σ₂} {d : NodeDefinition} {n : Nat} {l : String}
  {es es₁ es₂ : Trace}

/-! ### One language

Two walks of a language on sites in agreement cannot part, since each of their pages is the same. If both are
over, it is at the same page, because a walk ends at its first page that is not full. -/

/-- All pages before the current one were full. -/
theorem Walking.full_of_lt {site : Site σ} {j k : Nat} (h : Walking site d n l k es) (hj : j < k) :
    ∃ a vs, site.Gives (d.pageRequest l n j) a ∧ a.reading d.document.queryField = .items vs
      ∧ n ≤ vs.length := by
  induction h with
  | begun => cases hj
  | page h hg hr hv ih =>
      rcases Nat.lt_succ_iff_lt_or_eq.mp hj with hj | rfl
      · exact ih hj
      · exact ⟨_, _, hg, hr, hv⟩

/-- Two walks at the same page have done the same. -/
theorem Walking.eq_of_agree (ha : site₁.Agree site₂ d n) (hl : l ∈ d.languages) {k : Nat}
    (h₁ : Walking site₁ d n l k es₁) (h₂ : Walking site₂ d n l k es₂) : es₁ = es₂ := by
  induction h₁ generalizing es₂ with
  | begun =>
      cases h₂
      rfl
  | page _ hg₁ hr₁ _ ih =>
      cases h₂ with
      | page h₂ hg₂ hr₂ _ =>
          obtain rfl := ih h₂
          obtain rfl := ha l hl _ _ _ hg₁ hg₂
          cases hr₁.symm.trans hr₂
          rfl

/-- The page at which a walk ends is not full. -/
theorem Walked.last {site : Site σ} {f : Option Failure} (h : Walked site d n l es f) :
    ∃ k before a, Walking site d n l k before ∧ site.Gives (d.pageRequest l n k) a
      ∧ (∀ vs, a.reading d.document.queryField = .items vs → vs.length < n)
      ∧ ((∃ vs, a.reading d.document.queryField = .items vs
          ∧ es = before ++ d.pageEffects l n k a vs ∧ f = none)
        ∨ ∃ p, a.reading d.document.queryField = .unfetched p
          ∧ es = before ++ [.asked (d.pageRequest l n k) a] ∧ f = some (d.fetchFailure l n k p)) := by
  cases h with
  | @short k before a vs h hg hr hv =>
      refine ⟨k, before, a, h, hg, fun ws hws => ?_, .inl ⟨vs, hr, rfl, rfl⟩⟩
      cases hr.symm.trans hws
      exact hv
  | @unfetched k before a p h hg hr =>
      refine ⟨k, before, a, h, hg, fun ws hws => ?_, .inr ⟨p, hr, rfl, rfl⟩⟩
      cases hr.symm.trans hws

/-- A walk that goes on does so beyond no page at which the other one ended. -/
theorem Walking.le_of_agree (ha : site₁.Agree site₂ d n) (hl : l ∈ d.languages) {k₁ k₂ : Nat}
    {a : Answer} (hg : site₁.Gives (d.pageRequest l n k₁) a)
    (hlast : ∀ vs, a.reading d.document.queryField = .items vs → vs.length < n)
    (h₂ : Walking site₂ d n l k₂ es) : k₂ ≤ k₁ := by
  by_contra hk
  obtain ⟨b, vs, hb, hr, hv⟩ := h₂.full_of_lt (Nat.lt_of_not_le hk)
  obtain rfl := ha l hl _ _ _ hg hb
  exact Nat.not_lt.mpr hv (hlast vs hr)

theorem Site.Agree.symm (ha : site₁.Agree site₂ d n) : site₂.Agree site₁ d n :=
  fun l hl k a₁ a₂ h₁ h₂ => (ha l hl k a₂ a₁ h₂ h₁).symm

/-- Walks of a language end alike. -/
theorem Walked.eq_of_agree (ha : site₁.Agree site₂ d n) (hl : l ∈ d.languages)
    {f₁ f₂ : Option Failure} (h₁ : Walked site₁ d n l es₁ f₁) (h₂ : Walked site₂ d n l es₂ f₂) :
    es₁ = es₂ ∧ f₁ = f₂ := by
  obtain ⟨k₁, b₁, a₁, hw₁, hg₁, hlast₁, hend₁⟩ := h₁.last
  obtain ⟨k₂, b₂, a₂, hw₂, hg₂, hlast₂, hend₂⟩ := h₂.last
  -- Neither walk goes beyond the page at which the other one ends.
  obtain rfl : k₁ = k₂ := Nat.le_antisymm (hw₁.le_of_agree ha.symm hl hg₂ hlast₂)
    (hw₂.le_of_agree ha hl hg₁ hlast₁)
  obtain rfl := hw₁.eq_of_agree ha hl hw₂
  obtain rfl := ha l hl _ _ _ hg₁ hg₂
  rcases hend₁ with ⟨vs, hr, rfl, rfl⟩ | ⟨p, hr, rfl, rfl⟩
  · rcases hend₂ with ⟨ws, hr', rfl, rfl⟩ | ⟨q, hr', -, -⟩
    · cases hr.symm.trans hr'
      exact ⟨rfl, rfl⟩
    · cases hr.symm.trans hr'
  · rcases hend₂ with ⟨ws, hr', -, -⟩ | ⟨q, hr', rfl, rfl⟩
    · cases hr.symm.trans hr'
    · cases hr.symm.trans hr'
      exact ⟨rfl, rfl⟩

/-- Tasks that have walked through the same languages have done the same. -/
theorem Behind.eq_of_agree (ha : site₁.Agree site₂ d n) {past : List String}
    (hp : past ⊆ d.languages) {e₁ e₂ : TypeReport} (h₁ : Behind site₁ d n past es₁ e₁)
    (h₂ : Behind site₂ d n past es₂ e₂) : es₁ = es₂ ∧ e₁ = e₂ := by
  induction h₁ generalizing es₂ e₂ with
  | nothing =>
      generalize hpast : ([] : List String) = past at h₂
      cases h₂ with
      | nothing => exact ⟨rfl, rfl⟩
      | language => exact absurd hpast.symm (List.concat_ne_nil _ _)
  | @language past es₁ e₁ l more₁ f₁ _ hw₁ ih =>
      generalize hpast : past ++ [l] = all at h₂
      cases h₂ with
      | nothing => exact absurd hpast (List.concat_ne_nil _ _)
      | @language past' es₂ e₂ l' more₂ f₂ h₂ hw₂ =>
          obtain ⟨rfl, heq⟩ := List.append_inj' hpast rfl
          cases heq
          have hl : l ∈ d.languages := hp (List.mem_append_right past List.mem_cons_self)
          obtain ⟨rfl, rfl⟩ := ih (fun x hx => hp (List.mem_append_left [l] hx)) h₂
          obtain ⟨rfl, rfl⟩ := hw₁.eq_of_agree ha hl hw₂
          exact ⟨rfl, rfl⟩

end Agree

/-! ## Whole runs

Both runs end, and their reports and records are put together from what the tasks have done. -/

/-- A run of a plan that is not cancelled, with a receiver that refuses nothing and a remote whose
answers are regular. -/
structure Sourcing.Regular (site : Site σ) (o : Order) (p : Plan) (n : Nat) (s : σ) : Prop where
  paging : o.paging = none
  size : o.config.pageSize = n
  concurrency : 1 ≤ o.config.concurrency
  cancelled : ∀ s, site.cancelled s = false
  accepts : (site.declareAll p.nodes.values s).1 = .ok ()
  answers : ∀ d ∈ p.nodes.values, ∀ r, r.IsOf d → ∀ s,
    (site.ask r s).1.IsRegular d.document.queryField

theorem Sourcing.Regular.not_cancels {site : Site σ} {o : Order} {p : Plan} {n : Nat} {s : σ}
    (h : Regular site o p n s) : ¬site.Cancels := fun ⟨s, hc⟩ =>
  Bool.false_ne_true ((h.cancelled s).symm.trans hc)

section Runs

open Interleaving

variable {p : Plan} {n : Nat}

/-! ### What can be told of a type

The report and the records of a type come from its own task, or from the plan if it has none. -/

/-- The report on a type without a task does not depend on the tasks. -/
theorem Plan.reportOn_of_no_task {tasks : List Task} {c : Descriptor}
    (h : ∀ t ∈ tasks, t.definition.typeName ≠ c.typeName) :
    p.reportOn tasks c = p.reportOn [] c := by
  have hnone : tasks.find? (fun t => decide (t.definition.typeName = c.typeName)) = none :=
    List.find?_eq_none.mpr fun t ht => by
      rw [decide_eq_true_iff]
      exact h t ht
  rw [reportOn, reportOn, hnone]
  rfl

/-- No record is handed over of a type without a node definition. -/
theorem Chronicle.received_of_no_node {site : Site σ} {steps : Interleaving Effect}
    {r : Run (σ × Trace)} {log : Trace} (h : Chronicle site n p steps r log) {typeName : String}
    (hd : ∀ d ∈ p.nodes.values, d.typeName ≠ typeName) : log.received typeName = [] := by
  obtain ⟨announced, rfl⟩ := h.log_eq
  apply List.filterMap_eq_nil_iff.mpr
  intro x hx
  rcases List.mem_append.mp hx with hx | hx
  · obtain ⟨c, -, rfl⟩ := List.mem_map.mp hx
    rfl
  · obtain ⟨i, hi⟩ := mem_merged.mp hx
    obtain ⟨d, t, hmem, -, hst⟩ := h.getElem?_of_own hi
    cases hst.of x hi with
    | asked => rfl
    | emitted r => exact if_neg (hd d (List.mem_of_getElem? hmem))

/-- What a run tells of a type with a document comes from a walk through all of its languages. -/
structure Chronicle.Tells (site : Site σ) (n : Nat) (d : NodeDefinition) (es : Trace)
    (e : TypeReport) (report : Report) (log : Trace) : Prop where
  behind : Behind site d n d.languages es e
  entry : report.find? d.typeName = some e.closed
  received : log.received d.typeName = es.received d.typeName

/-- What a run tells of a type without a document comes from the plan alone. -/
structure Chronicle.Silent (p : Plan) (c : Descriptor) (report : Report) (log : Trace) : Prop where
  entry : report.find? c.typeName = some (p.reportOn [] c)
  received : log.received c.typeName = []

variable {site : Site σ} {o : Order} {s s' : σ} {x : Except Failure Report} {log : Trace}

/-- **A regular run ends with a report** that tells of every type what its own walks did. -/
theorem Sourcing.Ends.tells (hp : p.Coherent) (hn : 0 < n) (hr : Regular site o p n s)
    (h : Ends site.traced o p (s, []) x (s', log)) :
    ∃ report, x = .ok report
      ∧ (∀ d ∈ p.nodes.values, ∃ es e, Chronicle.Tells site n d es e report log)
      ∧ ∀ c ∈ p.descriptors, (∀ d ∈ p.nodes.values, d.typeName ≠ c.typeName) →
        Chronicle.Silent p c report log := by
  have hw := Order.walking_eq hr.paging hr.size
  obtain ⟨steps, r, hch, ⟨f, -, i, t, ht, hf⟩ | ⟨rfl, he⟩⟩ := h.chronicle hp hn hw hr.accepts
  · obtain ⟨j, d, hd, hst⟩ := hch.accounts.task_of_mem (List.mem_of_getElem? ht)
    exact absurd hf (hst.not_crashed_of_regular (hr.answers d (List.mem_of_getElem? hd)) f)
  · refine ⟨_, rfl, fun d hd => ?_, fun c hc hnone => ⟨?_, hch.received_of_no_node hnone⟩⟩
    · obtain ⟨i, hi⟩ := List.getElem?_of_mem hd
      obtain ⟨t, hst, ht, hentry⟩ := hch.entry hp hi (site.cancelled s')
      rcases hst.of_ended (he t ht) with ⟨e, hb, hclosed⟩ | ⟨⟨s₁, hc⟩, -⟩
      · exact ⟨_, e, hb, hclosed ▸ hentry, hch.received hp hi⟩
      · cases (hr.cancelled s₁).symm.trans hc
    · refine (Plan.find?_report hch.entry_typeName hc _).trans (congrArg some ?_)
      apply Plan.reportOn_of_no_task
      intro t ht
      have hmem : t.definition ∈ p.nodes.values :=
        hch.definitions_eq ▸ List.mem_map_of_mem ht
      exact hnone _ hmem

end Runs

/-- Whether two runs end with reports, tell the same of a type and hand over the same records of it. -/
def AlikeOn (typeName : String) (x₁ : Except Failure Report) (log₁ : Trace)
    (x₂ : Except Failure Report) (log₂ : Trace) : Prop :=
  ∃ report₁ report₂ e, x₁ = .ok report₁ ∧ x₂ = .ok report₂
    ∧ report₁.find? typeName = some e ∧ report₂.find? typeName = some e
    ∧ log₁.received typeName = log₂.received typeName

namespace Sourcing

/-- Two runs that end tell the same of a type on which their sites agree. -/
theorem Ends.alikeOn {p : Plan} {n : Nat} (hp : p.Coherent) (hn : 0 < n) {site₁ : Site σ₁}
    {o₁ : Order} {s₁ s₁' : σ₁} (hr₁ : Regular site₁ o₁ p n s₁) {site₂ : Site σ₂} {o₂ : Order}
    {s₂ s₂' : σ₂} (hr₂ : Regular site₂ o₂ p n s₂) {c : Descriptor} (hc : c ∈ p.descriptors)
    (hagree : ∀ d ∈ p.nodes.values, d.typeName = c.typeName → site₁.Agree site₂ d n)
    {x₁ x₂ : Except Failure Report} {log₁ log₂ : Trace}
    (h₁ : Ends site₁.traced o₁ p (s₁, []) x₁ (s₁', log₁))
    (h₂ : Ends site₂.traced o₂ p (s₂, []) x₂ (s₂', log₂)) : AlikeOn c.typeName x₁ log₁ x₂ log₂ := by
  obtain ⟨report₁, rfl, htells₁, hsilent₁⟩ := h₁.tells hp hn hr₁
  obtain ⟨report₂, rfl, htells₂, hsilent₂⟩ := h₂.tells hp hn hr₂
  by_cases hd : ∃ d ∈ p.nodes.values, d.typeName = c.typeName
  · obtain ⟨d, hd, hname⟩ := hd
    obtain ⟨es₁, e₁, hb₁, he₁, hrec₁⟩ := htells₁ d hd
    obtain ⟨es₂, e₂, hb₂, he₂, hrec₂⟩ := htells₂ d hd
    obtain ⟨rfl, rfl⟩ := hb₁.eq_of_agree (hagree d hd hname) (List.Subset.refl _) hb₂
    rw [← hname]
    exact ⟨report₁, report₂, _, rfl, rfl, he₁, he₂, hrec₁.trans hrec₂.symm⟩
  · have hnone : ∀ d ∈ p.nodes.values, d.typeName ≠ c.typeName := fun d hd' he => hd ⟨d, hd', he⟩
    obtain ⟨he₁, hrec₁⟩ := hsilent₁ c hc hnone
    obtain ⟨he₂, hrec₂⟩ := hsilent₂ c hc hnone
    exact ⟨report₁, report₂, _, rfl, rfl, he₁, he₂, hrec₁.trans hrec₂.symm⟩

end Sourcing

/-! ## Two remotes that differ in one type

The remotes from which the samples of this and the following modules are taken. -/

namespace Sample

/-- Whether a request is one of the type `Node`. -/
def isOfNode (r : Request) : Bool :=
  r.operationName = some "LIST_Node_EN" || r.operationName = some "LIST_Node_DE"

/-- A page with one item. -/
def onePage : Answer := pageOf [item "Node" "1"]

/-- Answers with a page for one type, without one for the other. -/
def nodesOnly (r : Request) : Answer := if isOfNode r then onePage else .data .null

/-- Answers with a page for both types. -/
def both (_ : Request) : Answer := onePage

/-- The types of the plan, in their order. -/
theorem nodes_plan : ∃ node term, plan.nodes.values = [node, term] ∧ node.typeName = "Node"
    ∧ term.typeName = "Term" ∧ node.languages = ["EN", "DE"] ∧ term.languages = ["EN", "DE"] := by
  have htypes := typesOf_plan
  rw [typesOf, List.map_eq_cons_iff] at htypes
  obtain ⟨node, rest, hnodes, hnode, hrest⟩ := htypes
  obtain ⟨term, others, rfl, hterm, hnone⟩ := List.map_eq_cons_iff.mp hrest
  obtain rfl := List.map_eq_nil_iff.mp hnone
  exact ⟨node, term, hnodes, congrArg (·.1) hnode, congrArg (·.1) hterm, congrArg (·.2.2) hnode,
    congrArg (·.2.2) hterm⟩

/-- The requests of one type can be told from those of the other. -/
theorem isOfNode_eq {d : NodeDefinition} (hd : d ∈ plan.nodes.values) {r : Request} (hr : r.IsOf d) :
    isOfNode r = decide (d.typeName = "Node") := by
  obtain ⟨-, l, hl, hop⟩ := hr
  rw [((Plan.prepare_coherent prepare_eq).isFor d hd).operation_eq l hl] at hop
  change r.operationName = some (Descriptor.operationName d.typeName l) at hop
  obtain ⟨node, term, hnodes, hnode, hterm, hnodeLanguages, htermLanguages⟩ := nodes_plan
  rw [hnodes] at hd
  rcases List.mem_pair.mp hd with rfl | rfl
  · rw [isOfNode, hop, hnode]
    rcases List.mem_pair.mp (hnodeLanguages ▸ hl) with rfl | rfl <;> decide
  · rw [isOfNode, hop, hterm]
    rcases List.mem_pair.mp (htermLanguages ▸ hl) with rfl | rfl <;> decide

/-- A page of items is regular under both query fields. -/
theorem isRegular_pageOf (items : List Value) {queryField : String}
    (hq : queryField = "nodeQuery" ∨ queryField = "termQuery") :
    (pageOf items).IsRegular queryField := by
  rcases hq with rfl | rfl
  · intro ms hms
    cases hms
    exact .inr ⟨_, rfl⟩
  · intro ms hms
    cases hms
    exact .inr ⟨_, rfl⟩

/-- The page has one item under both query fields. -/
theorem items_onePage {queryField : String} (hq : queryField = "nodeQuery" ∨ queryField = "termQuery")
    {vs : List Value} (h : onePage.reading queryField = .items vs) : vs.length = 1 := by
  rcases hq with rfl | rfl
  · cases h
    rfl
  · cases h
    rfl

/-- A run of such a remote is regular. -/
theorem regular_answering {f : Request → Answer} (hf : ∀ r, (∃ items, f r = pageOf items) ∨ f r = .data .null)
    {o : Order} (hpaging : o.paging = none) (hsize : o.config.pageSize = 2)
    (hconcurrency : 1 ≤ o.config.concurrency) : Sourcing.Regular (answering f) o plan 2 () := by
  refine ⟨hpaging, hsize, hconcurrency, fun _ => rfl, declareAll_answering _ _, ?_⟩
  intro d hd r _ s
  have hq := queryField_of_mem hd
  rw [← ((Plan.prepare_coherent prepare_eq).isFor d hd).queryField_eq] at hq
  show (f r).IsRegular _
  rcases hf r with ⟨items, h⟩ | h
  · rw [h]
    exact isRegular_pageOf _ hq
  · rw [h]
    exact nofun

/-- The listings of such a remote end, as no page of it is full. -/
theorem runsDry_answering {f : Request → Answer} (hf : ∀ r, f r = onePage ∨ f r = .data .null) :
    ∀ d ∈ plan.nodes.values, ∃ pages, (answering f).RunsDry d 2 pages := by
  rintro d hd
  refine ⟨0, ?_⟩
  rintro l hl k a vs - ⟨s, rfl⟩ hr
  have hq := queryField_of_mem hd
  rw [← ((Plan.prepare_coherent prepare_eq).isFor d hd).queryField_eq] at hq
  change (f _).reading _ = _ at hr
  rcases hf (d.pageRequest l 2 k) with h | h
  · rw [h] at hr
    rw [items_onePage hq hr]
    decide
  · rw [h] at hr
    cases hr

theorem nodesOnly_cases (r : Request) : nodesOnly r = onePage ∨ nodesOnly r = .data .null := by
  unfold nodesOnly
  split
  next => exact .inl rfl
  next => exact .inr rfl

/-- A page with as many items as are asked for. -/
def twoItems : Answer := pageOf [item "Node" "1", item "Term" "1"]

/-- Full pages for one type, without end, and a page with one item for the other. -/
def endlessFor (nodes : Bool) (r : Request) : Answer := if isOfNode r = nodes then twoItems else onePage

theorem endlessFor_cases (nodes : Bool) (r : Request) :
    (∃ items, endlessFor nodes r = pageOf items) ∨ endlessFor nodes r = .data .null := by
  unfold endlessFor
  split
  next => exact .inl ⟨_, rfl⟩
  next => exact .inl ⟨_, rfl⟩

end Sample

end Harvest
