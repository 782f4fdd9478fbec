import Harvest.Proofs.Sourcing.Progress

/-!
# Completeness

A remote that holds a fixed list for every type and language, and answers each request for a page with
the slice that it asks for, is sourced completely: `source_complete` says that a run ends, that the
receiver gets every item of a type exactly as often as the lists hold it, in their order, and which
requests are sent.

The slices of a list fit together: the pages of one language are cut from it at multiples of the page size,
so that the items before a page and those from it on are the list (`Walking.served`). The walk ends at the
first page that is not full, which is the one that reaches the end of the list, and the number of requests
is that of the full pages and one.

Then it is a matter of going up: the languages of a type one after the other (`Behind.served`), and the
types of the plan. That runs end under fair schedules is `ends_of_fair`, as a list has an end.
-/

namespace Harvest

variable {σ : Type}

/-- Whether an item names a type as its own. -/
def Value.isOf (typeName : String) (v : Value) : Bool :=
  match v.field? "__typename" with
  | some (.str t) => t = typeName
  | _ => false

/-- The request of the listing of a type in a language with a limit and an offset. -/
def NodeDefinition.listingRequest (d : NodeDefinition) (l : String) (limit offset : Nat) : Request :=
  { query := d.document.text
    operationName := some (Descriptor.operationName d.typeName l)
    variableValues := LimitOffset.pageVariables (.int limit) (.int offset) }

/-- Whether a site answers every request of a type with the slice of a list, one for each language. -/
def Site.Serves (site : Site σ) (d : NodeDefinition) (lists : String → List Value) : Prop :=
  ∀ l ∈ d.languages, ∀ (limit offset : Nat) (s : σ), ∃ v ms,
    (site.ask (d.listingRequest l limit offset) s).1 = .data v
      ∧ v.field? d.descriptor.queryField = some (.object ms)
      ∧ Members.field ms entitiesField = .list (((lists l).drop offset).take limit)

/-! ## Items and records

An item is handed over if it names the type, and with all that it holds. -/

theorem record?_of_isOf {w : Walk} {v : Value} (h : v.isOf w.document.typeName = true) :
    ∃ r, w.record? v = some r ∧ r.language = w.language ∧ Value.object r.data = v := by
  unfold Value.isOf Value.field? at h
  unfold Walk.record?
  split at h
  next t ht =>
    split at ht
    next ms key =>
      dsimp only
      rw [ht]
      dsimp only
      rw [if_pos (of_decide_eq_true h)]
      exact ⟨_, rfl, rfl, rfl⟩
    next => cases ht
  next => cases h

theorem record?_of_not_isOf {w : Walk} {v : Value} (h : v.isOf w.document.typeName = false) :
    w.record? v = none := by
  unfold Walk.record?
  split
  next ms =>
    split
    next t ht =>
      apply if_neg
      intro he
      have hv : (Value.object ms).isOf w.document.typeName = true := by
        unfold Value.isOf
        dsimp only [Value.field?]
        rw [ht]
        exact decide_eq_true he
      rw [hv] at h
      cases h
    next => rfl
  next => rfl

/-- The records of a page are the items that name the type as their own. -/
theorem NodeDefinition.records_items (d : NodeDefinition) (l : String) (vs : List Value) :
    (d.records l vs).map (fun r => (r.language, Value.object r.data))
      = (vs.filter (Value.isOf d.document.typeName)).map fun v => (l, v) := by
  induction vs with
  | nil => rfl
  | cons v vs ih =>
      cases h : v.isOf d.document.typeName with
      | true =>
          obtain ⟨r, hr, hl, hv⟩ := record?_of_isOf (w := d.walkAt l 0 0) h
          rw [List.filter_cons_of_pos h, List.map_cons, records, Walk.records,
            List.filterMap_cons_some hr, List.map_cons, hl, hv]
          exact congrArg _ ih
      | false =>
          have hr := record?_of_not_isOf (w := d.walkAt l 0 0) h
          rw [List.filter_cons_of_neg (by rw [h]; exact Bool.false_ne_true), records, Walk.records,
            List.filterMap_cons_none hr]
          exact ih

/-! ## Walks through lists

One language, page by page. -/

theorem NodeDefinition.pageRequest_eq {d : NodeDefinition} (hd : d.document.IsFor d.descriptor)
    {l : String} (hl : l ∈ d.languages) (n k : Nat) :
    d.pageRequest l n k = d.listingRequest l n (n * k) := by
  rw [pageRequest, hd.operation_eq l hl]
  rfl

/-- The requests of a walk through a list of so many items. -/
def NodeDefinition.walkRequests (d : NodeDefinition) (n : Nat) (lists : String → List Value)
    (l : String) : List Request :=
  (List.range ((lists l).length / n + 1)).map fun k => d.listingRequest l n (n * k)

section Served

variable {site : Site σ} {d : NodeDefinition} {n : Nat} {lists : String → List Value} {l : String}
  {es : Trace}

/-- A page that holds a list has its items, none if the list is empty. -/
theorem items_of_list {ms : Members} {vs : List Value}
    (h : Members.field ms entitiesField = .list vs) : LimitOffset.items (.object ms) = .ok vs := by
  cases ms with
  | nil => cases h
  | cons m ms =>
      have ht : (Value.object (m :: ms)).isTruthy = true := rfl
      rw [LimitOffset.items, ht]
      dsimp only
      rw [h]
      cases vs with
      | nil => rfl
      | cons v vs => rfl

/-- Every page is read as the slice that was asked for. -/
theorem reading_of_serves (hd : d.document.IsFor d.descriptor) (hs : site.Serves d lists)
    (hl : l ∈ d.languages) {k : Nat} {a : Answer} (hg : site.Gives (d.pageRequest l n k) a) :
    a.reading d.document.queryField = .items (((lists l).drop (n * k)).take n) := by
  obtain ⟨s, rfl⟩ := hg
  obtain ⟨v, ms, ha, hv, hms⟩ := hs l hl n (n * k) s
  rw [NodeDefinition.pageRequest_eq hd hl, ha, hd.queryField_eq, Answer.reading]
  rw [hv]
  dsimp only
  have hitems := items_of_list hms
  rw [hitems]

/-! ### One language

A walk that is under way has handed over as many items as its pages have, and these are the first ones of the
list. It is over when a page falls short, which is when the list is at its end. -/

theorem Walking.served (hd : d.document.IsFor d.descriptor) (hs : site.Serves d lists)
    (hl : l ∈ d.languages) {k : Nat} (h : Walking site d n l k es) :
    n * k ≤ (lists l).length
      ∧ es.requests = (List.range k).map (fun k => d.listingRequest l n (n * k))
      ∧ es.received d.typeName = d.records l ((lists l).take (n * k)) := by
  induction h with
  | begun => exact ⟨Nat.zero_le _, rfl, rfl⟩
  | @page k es a vs h hg hr hv ih =>
      obtain ⟨hle, hreq, hrec⟩ := ih
      rw [reading_of_serves hd hs hl hg] at hr
      cases hr
      rw [List.length_take, List.length_drop] at hv
      refine ⟨by rw [Nat.mul_succ]; omega, ?_, ?_⟩
      · rw [Trace.requests_append, hreq, List.range_succ, List.map_append,
          NodeDefinition.pageEffects, Trace.requests_asked, Trace.requests_emitted,
          NodeDefinition.pageRequest_eq hd hl]
        rfl
      · rw [Trace.received_append, hrec, NodeDefinition.pageEffects, Trace.received_asked,
          Trace.received_emitted, Nat.mul_succ, List.take_add, NodeDefinition.records_append]

/-- **The walk of a language hands over its whole list**, and asks for one page more than are full. -/
theorem Walked.served (hn : 0 < n) (hd : d.document.IsFor d.descriptor) (hs : site.Serves d lists)
    (hl : l ∈ d.languages) {f : Option Failure} (h : Walked site d n l es f) :
    f = none ∧ es.requests = d.walkRequests n lists l
      ∧ es.received d.typeName = d.records l (lists l) := by
  cases h with
  | @short k es a vs h hg hr hv =>
      obtain ⟨hle, hreq, hrec⟩ := h.served hd hs hl
      rw [reading_of_serves hd hs hl hg] at hr
      cases hr
      rw [List.length_take, List.length_drop] at hv
      -- The pages before hold `n * k` items and this one holds less than `n`, so the list ends here.
      have hall : (lists l).length ≤ n * k + n := by omega
      have hk : (lists l).length / n = k :=
        Nat.div_eq_of_lt_le (by rw [Nat.mul_comm]; exact hle)
          (by rw [Nat.mul_comm, Nat.mul_succ]; omega)
      refine ⟨rfl, ?_, ?_⟩
      · rw [NodeDefinition.walkRequests, hk, Trace.requests_append, hreq, List.range_succ,
          List.map_append, NodeDefinition.pageEffects, Trace.requests_asked,
          Trace.requests_emitted, NodeDefinition.pageRequest_eq hd hl]
        rfl
      · rw [Trace.received_append, hrec, NodeDefinition.pageEffects, Trace.received_asked,
          Trace.received_emitted, ← NodeDefinition.records_append, ← List.take_add,
          List.take_of_length_le hall]
  | unfetched h hg hr =>
      rw [reading_of_serves hd hs hl hg] at hr
      cases hr

/-- The walks of some languages hand over their lists one after the other. -/
theorem Behind.served (hn : 0 < n) (hd : d.document.IsFor d.descriptor) (hs : site.Serves d lists)
    {past : List String} {e : TypeReport} (h : Behind site d n past es e)
    (hp : past ⊆ d.languages) :
    es.requests = past.flatMap (d.walkRequests n lists)
      ∧ es.received d.typeName = past.flatMap (fun l => d.records l (lists l))
      ∧ e = { TypeReport.fresh d.typeName with emitted := (es.received d.typeName).length } := by
  induction h with
  | nothing => exact ⟨rfl, rfl, rfl⟩
  | @language past es e l more f h hw ih =>
      have hl : l ∈ d.languages := hp (List.mem_append_right past List.mem_cons_self)
      obtain ⟨hreq, hrec, he⟩ := ih fun x hx => hp (List.mem_append_left [l] hx)
      obtain ⟨rfl, hreq', hrec'⟩ := hw.served hn hd hs hl
      refine ⟨?_, ?_, ?_⟩
      · rw [Trace.requests_append, hreq, hreq', List.flatMap_append, List.flatMap_singleton]
      · rw [Trace.received_append, hrec, hrec', List.flatMap_append, List.flatMap_singleton]
      · rw [he, Trace.received_append, List.length_append, Trace.emissions_eq (hw.of hl)]
        rfl

end Served

/-! ## Whole runs

All types, with the report, the records and the requests. -/

/-- A list that is served has no full pages beyond its end. -/
theorem runsDry_of_serves {site : Site σ} {d : NodeDefinition} {n : Nat}
    {lists : String → List Value} (hn : 0 < n) (hd : d.document.IsFor d.descriptor)
    (hs : site.Serves d lists) : ∃ pages, site.RunsDry d n pages := by
  have hbound (ls : List String) : ∃ m, ∀ l ∈ ls, (lists l).length ≤ m := by
    induction ls with
    | nil => exact ⟨0, List.forall_mem_nil _⟩
    | cons l ls ih =>
        obtain ⟨m, hm⟩ := ih
        refine ⟨max (lists l).length m, List.forall_mem_cons.mpr ⟨Nat.le_max_left .., ?_⟩⟩
        exact fun x hx => (hm x hx).trans (Nat.le_max_right ..)
  obtain ⟨m, hm⟩ := hbound d.languages
  refine ⟨m, ?_⟩
  intro l hl k a vs hk hg hr
  rw [reading_of_serves hd hs hl hg] at hr
  cases hr
  have hlen : (lists l).length ≤ n * k :=
    ((hm l hl).trans hk).trans (Nat.le_mul_of_pos_left k hn)
  rw [List.drop_of_length_le hlen, List.take_nil]
  exact hn

/-- A run of a plan that lost nothing and repeated nothing, by its report and its effects. -/
structure SourcedInFull (p : Plan) (n : Nat) (lists : String → String → List Value) (report : Report)
    (log : Trace) : Prop where
  /-- Every type with a document is complete, with the number of its own items. -/
  entry : ∀ d ∈ p.descriptors, (p.documents.get? d.typeName).isSome = true →
    report.find? d.typeName = some
      { typeName := d.typeName, status := .complete, errors := []
        emitted := (d.languages.flatMap fun l =>
          (lists d.typeName l).filter (Value.isOf d.typeName)).length }
  /-- The receiver gets the items of a type, language by language, in the order of the lists. -/
  received : ∀ d ∈ p.descriptors, (p.documents.get? d.typeName).isSome = true →
    (log.received d.typeName).map (fun r => (r.language, Value.object r.data))
      = d.languages.flatMap fun l =>
        ((lists d.typeName l).filter (Value.isOf d.typeName)).map fun v => (l, v)
  /-- No request is sent besides those that the lengths of the lists call for, one of each. -/
  requests : log.requests.Perm (p.nodes.values.flatMap fun d =>
    d.languages.flatMap (d.walkRequests n (lists d.typeName)))
  typeNames_nodup : (p.nodes.values.map NodeDefinition.typeName).Nodup
  languages_nodup : ∀ d ∈ p.nodes.values, d.languages.Nodup

section SourcedInFull

variable {site : Site σ} {n : Nat} {p : Plan} {lists : String → String → List Value}

/-! ### One type

All languages of a task at its end are behind it, so its records are those of all of its lists. -/

/-- No task crashes over a slice of a list. -/
theorem not_crashed_of_serves (hp : p.Coherent)
    (hserves : ∀ d ∈ p.nodes.values, site.Serves d (lists d.typeName)) {d : NodeDefinition}
    (hd : d ∈ p.nodes.values) {es : Trace} {t : Task} (hst : Stands site d n es t) (f : Failure) :
    t.phase ≠ .crashed f := by
  intro hf
  obtain ⟨l, k, a, g, hl, hg, hr, -⟩ := hst.of_crashed hf
  rw [reading_of_serves (hp.isFor d hd) (hserves d hd) hl hg] at hr
  cases hr

/-- A task at its end has handed over the lists of its type. -/
theorem behind_of_ended (hc : ¬ site.Cancels) {d : NodeDefinition} {es : Trace} {t : Task}
    (hst : Stands site d n es t) (ht : t.phase = .ended) :
    ∃ e, Behind site d n d.languages es e ∧ t.entry = e.closed :=
  (hst.of_ended ht).resolve_right fun h => hc h.1

open Interleaving in
theorem Chronicle.sourcedInFull (hp : p.Coherent) (hn : 0 < n) (hc : ¬ site.Cancels)
    (hserves : ∀ d ∈ p.nodes.values, site.Serves d (lists d.typeName))
    {steps : Interleaving Effect} {r : Run (σ × Trace)} {log : Trace}
    (h : Chronicle site n p steps r log) (he : ∀ t ∈ r.tasks, t.phase = .ended) (cancelled : Bool) :
    SourcedInFull p n lists (p.report r.tasks cancelled) log := by
  have hnode {d : Descriptor} (hd : d ∈ p.descriptors)
      (hdoc : (p.documents.get? d.typeName).isSome = true) :
      ∃ (i : Nat) (e : NodeDefinition), p.nodes.values[i]? = some e ∧ e.descriptor = d := by
    obtain ⟨doc, hget⟩ := Option.isSome_iff_exists.mp hdoc
    obtain ⟨e, hmem, hdesc, -⟩ := hp.covers hd hget
    obtain ⟨i, hi⟩ := List.getElem?_of_mem hmem
    exact ⟨i, e, hi, hdesc⟩
  -- Every type by the effects of its own task; the statements about the whole run follow.
  have hown {i : Nat} {d : NodeDefinition} (hd : p.nodes.values[i]? = some d) :
      Trace.requests (own i steps) = d.languages.flatMap (d.walkRequests n (lists d.typeName))
        ∧ Trace.received d.typeName (own i steps)
          = d.languages.flatMap (fun l => d.records l (lists d.typeName l))
        ∧ (p.report r.tasks cancelled).find? d.typeName = some
          { typeName := d.typeName, status := .complete, errors := []
            emitted := (Trace.received d.typeName (own i steps)).length } := by
    have hmem := List.mem_of_getElem? hd
    obtain ⟨t, hst, ht, hentry⟩ := h.entry hp hd cancelled
    obtain ⟨e, hb, hclosed⟩ := behind_of_ended hc hst (he t ht)
    obtain ⟨hreq, hrec, rfl⟩ :=
      hb.served hn (hp.isFor d hmem) (hserves d hmem) (List.Subset.refl _)
    refine ⟨hreq, hrec, ?_⟩
    rw [hentry, hclosed]
    rfl
  have hitems (d : NodeDefinition) (hd : d ∈ p.nodes.values) :
      (d.languages.flatMap fun l => d.records l (lists d.typeName l)).map
          (fun r => (r.language, Value.object r.data))
        = d.languages.flatMap fun l =>
          ((lists d.typeName l).filter (Value.isOf d.typeName)).map fun v => (l, v) := by
    rw [List.map_flatMap]
    apply List.flatMap_congr
    intro l _
    rw [d.records_items, (hp.isFor d hd).typeName_eq]
    rfl
  refine ⟨?_, ?_, h.requests fun hd => (hown hd).1, hp.nodup, fun d hd => (hp.isFor d hd).nodup⟩
  · intro c hc hdoc
    obtain ⟨i, d, hd, rfl⟩ := hnode hc hdoc
    obtain ⟨-, hrec, hentry⟩ := hown hd
    have hlen := congrArg List.length (hitems d (List.mem_of_getElem? hd))
    rw [List.length_map] at hlen
    simp only [List.length_flatMap, List.length_map] at hlen
    refine hentry.trans ?_
    rw [hrec, List.length_flatMap, List.length_flatMap, hlen]
    rfl
  · intro c hc hdoc
    obtain ⟨i, d, hd, rfl⟩ := hnode hc hdoc
    rw [show d.descriptor.typeName = d.typeName from rfl, h.received hp hd, (hown hd).2.1]
    exact hitems d (List.mem_of_getElem? hd)

end SourcedInFull

namespace Sourcing

theorem Ends.sourcedInFull {site : Site σ} {o : Order} {p : Plan} {n : Nat} (hp : p.Coherent)
    (hn : 0 < n) (hw : o.walking = .bySize n) (hc : ¬ site.Cancels)
    {lists : String → String → List Value}
    (hserves : ∀ d ∈ p.nodes.values, site.Serves d (lists d.typeName)) {s s' : σ}
    (haccepts : (site.declareAll p.nodes.values s).1 = .ok ()) {x : Except Failure Report}
    {log : Trace} (h : Ends site.traced o p (s, []) x (s', log)) :
    ∃ report, x = .ok report ∧ SourcedInFull p n lists report log := by
  obtain ⟨steps, r, hr, ⟨f, -, i, t, ht, hf⟩ | ⟨rfl, he⟩⟩ := h.chronicle hp hn hw haccepts
  · obtain ⟨j, d, hd, hst⟩ := hr.accounts.task_of_mem (List.mem_of_getElem? ht)
    exact absurd hf (not_crashed_of_serves hp hserves (List.mem_of_getElem? hd) hst f)
  · exact ⟨_, rfl, hr.sourcedInFull hp hn hc hserves he _⟩

/-- All tasks of a served plan come to their ends under every fair schedule. -/
theorem ended_of_fair {site : Site σ} {o : Order} {p : Plan} {n : Nat} (hp : p.Coherent)
    (hn : 0 < n) (hw : o.walking = .bySize n) (hconcurrency : 1 ≤ o.config.concurrency)
    {lists : String → String → List Value}
    (hserves : ∀ d ∈ p.nodes.values, site.Serves d (lists d.typeName)) (s : σ)
    {schedule : Nat → Nat} (hf : Run.Fair p.nodes.values.length schedule) :
    ∃ k, ∀ t ∈ ((tasksOf o p s).acts site o.walking (Run.firstMoves schedule k)).tasks,
      t.phase = .ended := by
  obtain ⟨m, hl⟩ := lasting_of_runsDry hn (fun d hd => hp.node hd)
    fun d hd => runsDry_of_serves hn (hp.isFor d hd) (hserves d hd)
  have hpermits : 0 < (tasksOf o p s).free + (tasksOf o p s).asking := by
    show 0 < o.config.concurrency.toNat + _
    omega
  have hlength : (tasksOf o p s).tasks.length = p.nodes.values.length := List.length_map ..
  rw [hw]
  obtain ⟨k, hk⟩ := Run.ends_of_fair site (.bySize n) hl (Run.start_settled _ _ s) hpermits
    (hlength.symm ▸ hf)
  refine ⟨k, ?_⟩
  intro t ht
  obtain ⟨d, hd, es, hst⟩ := hp.stands_of_order site _ s _ hn t ht
  exact (Task.ended_or_crashed (hk t ht)).resolve_right fun ⟨f, hf⟩ =>
    not_crashed_of_serves hp hserves hd hst f hf

/-- **A run loses nothing and repeats nothing.** -/
theorem source_complete {σ₀ : Type} {site₀ : Site σ₀} {o₀ : Order} {s₀ : σ₀} {p : Plan}
    (hprepare : (Plan.prepare site₀ o₀ s₀).1 = .ok p) {site : Site σ} {o : Order} {n : Nat}
    (hpaging : o.paging = none) (hsize : o.config.pageSize = n) (hn : 1 ≤ n)
    (hconcurrency : 1 ≤ o.config.concurrency) (hcancelled : ∀ s, site.cancelled s = false) {s : σ}
    (haccepts : (site.declareAll p.nodes.values s).1 = .ok ())
    {lists : String → String → List Value}
    (hserves : ∀ d ∈ p.nodes.values, site.Serves d (lists d.typeName)) :
    (∀ suspends, ∃ steps, ∀ fuel ≥ steps, ∃ report,
      (source site ⟨suspends, fuel⟩ o p s).1.result = some (.ok report)
        ∧ SourcedInFull p n lists report (source site.traced ⟨suspends, fuel⟩ o p (s, [])).2.2)
    ∧ (∀ s₁ schedule, Run.Fair p.nodes.values.length schedule →
      ∃ k, ∀ t ∈ ((tasksOf o p s₁).acts site o.walking (Run.firstMoves schedule k)).tasks,
        t.phase = .ended)
    ∧ ∀ {x s' log}, Ends site.traced o p (s, []) x (s', log) →
      ∃ report, x = .ok report ∧ SourcedInFull p n lists report log := by
  have hp := Plan.prepare_coherent hprepare
  have hw := Order.walking_eq hpaging hsize
  -- nothing cancels the run, and every listing runs dry, so it comes to an end
  have hc : ¬ site.Cancels := by
    rintro ⟨s, hs⟩
    rw [hcancelled s] at hs
    cases hs
  refine ⟨fun suspends => ?_, fun s₁ schedule hf => ?_, fun h => ?_⟩
  · obtain ⟨steps, hsteps⟩ := source_comes_to_end hp hn hw hconcurrency
      (fun d hd => runsDry_of_serves hn (hp.isFor d hd) (hserves d hd)) suspends s
    refine ⟨steps, ?_⟩
    intro fuel hfuel
    obtain ⟨x, hx, hends⟩ := hsteps fuel hfuel
    obtain ⟨report, rfl, hfull⟩ := hends.sourcedInFull hp hn hw hc hserves haccepts
    exact ⟨report, hx, hfull⟩
  · exact ended_of_fair hp hn hw hconcurrency hserves s₁ hf
  · exact h.sourcedInFull hp hn hw hc hserves haccepts

end Sourcing

/-! ## A remote with four items of a type -/

namespace Sample

/-- The items behind an operation, some of which are of no type or of another one. -/
def itemsOf (operation : String) : List Value :=
  if operation = "LIST_Node_EN" then [item "Node" "1", .record [], .null, item "Term" "2"]
  else if operation = "LIST_Term_DE" then [item "Term" "3"]
  else []

/-- The slice that a request asks for. -/
def slice (r : Request) : List Value :=
  match Members.field r.variableValues "limit", Members.field r.variableValues "offset" with
  | .int limit, .int offset =>
    ((itemsOf (r.operationName.getD "")).drop offset.toNat).take limit.toNat
  | _, _ => []

theorem serves {d : NodeDefinition} (hd : d ∈ plan.nodes.values) :
    (answering fun r => pageOf (slice r)).Serves d
      fun l => itemsOf (Descriptor.operationName d.typeName l) := by
  intro l _ limit offset s
  refine ⟨_, [(.str "entities", .list (slice (d.listingRequest l limit offset)))], rfl, ?_, rfl⟩
  rcases queryField_of_mem hd with h | h <;> rw [h] <;> rfl

/-- The run for this remote ends, and all four languages are sourced in full. -/
theorem sourced_in_full :
    ∃ steps, ∀ fuel ≥ steps, ∃ report,
      (Sourcing.source (answering fun r => pageOf (slice r)) ⟨true, fuel⟩ order plan ()).1.result
          = some (.ok report)
        ∧ SourcedInFull plan 2 (fun t l => itemsOf (Descriptor.operationName t l)) report
          (Sourcing.source (answering fun r => pageOf (slice r)).traced ⟨true, fuel⟩ order plan
            ((), [])).2.2 :=
  (Sourcing.source_complete prepare_eq rfl rfl (by decide) (by decide) (fun _ => rfl)
    (declareAll_answering _ _) fun _ hd => serves hd).1 true

end Sample

end Harvest
