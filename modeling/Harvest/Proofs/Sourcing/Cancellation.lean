import Harvest.Proofs.Paging.Outcomes
import Harvest.Proofs.Sourcing.Moment
import Harvest.Proofs.Sourcing.Reporting
import Harvest.Proofs.Sourcing.Solo

/-!
# Cancellation

A run that is cancelled sends no request any more, and loses nothing that was answered. A type is
reported as cancelled exactly if there was something left to ask for it; all others end as they would
have ended anyway. `cancellation_protocol` says so of every moment, of every order of moves and of the
program itself.

Two questions are behind the statement. Is anything lost that was answered? A task at its end has handed
over the items of all its pages, cancelled or not, by induction along what it has done (`Stands.handsOver`).
And how would a type have ended that was cancelled? For this the task is compared with the same type sourced
by itself on the same answers: it is cancelled exactly if the solo run would have sent another request
(`Stands.asksMore_iff`).

The moment is any number of effects, and what was done before it are the first effects of the whole trace.
To speak of one task the trace is cut at the moment first and then divided among the tasks, which are the
same parts as when it is divided first (`Interleaving.own_take_append_drop`).
-/

namespace Harvest

open Interleaving

variable {σ : Type}

/-! ## Nothing is lost

The records of a type against the items of its pages, page by page. -/

/-- The items of the page in an answer, none if there is no page. -/
def Answer.items (queryField : String) (a : Answer) : List Value := (a.page? queryField).getD []

/-- Whether all items of the pages that were answered were handed over, unless they are of other
types. -/
def Trace.HandsOver (es : Trace) (d : NodeDefinition) : Prop :=
  (es.received d.typeName).map (fun r => Value.object r.data)
    = (es.answers.flatMap (Answer.items d.document.queryField)).filter (Value.isOf d.typeName)

section HandsOver

variable {site : Site σ} {d : NodeDefinition} {n k : Nat} {l : String} {es more : Trace}

theorem Trace.HandsOver.append (h : es.HandsOver d) (hm : more.HandsOver d) :
    Trace.HandsOver (es ++ more) d := by
  rw [HandsOver, received_append, List.map_append, h, hm, answers_append, List.flatMap_append,
    List.filter_append]

theorem handsOver_pageEffects (hd : d.Coherent) {a : Answer} (ha : a.IsRegular d.document.queryField)
    {vs : List Value} (hr : a.reading d.document.queryField = .items vs) :
    Trace.HandsOver (d.pageEffects l n k a vs) d := by
  have hitems : a.items d.document.queryField = vs := by
    rw [Answer.items, ha.reading_eq_items_iff.mp hr, Option.getD_some]
  have hrecords := congrArg (List.map (·.2)) (d.records_items l vs)
  rw [List.map_map, List.map_map] at hrecords
  rw [Trace.HandsOver, NodeDefinition.pageEffects, Trace.received_asked, Trace.received_emitted,
    Trace.answers_asked, Trace.answers_emitted, List.flatMap_cons, List.flatMap_nil, List.append_nil,
    hitems, ← hd.typeName_eq]
  exact hrecords.trans (List.map_id _)

theorem handsOver_unfetched {a : Answer} (ha : a.IsRegular d.document.queryField) {p : FetchProblem}
    (hr : a.reading d.document.queryField = .unfetched p) (r : Request) :
    Trace.HandsOver [.asked r a] d := by
  have hpage : a.page? d.document.queryField = none := by
    cases hp : a.page? d.document.queryField with
    | none => rfl
    | some vs => cases hr.symm.trans (ha.reading_eq_items_iff.mpr hp)
  have hitems : a.items d.document.queryField = [] := by
    rw [Answer.items, hpage, Option.getD_none]
  rw [Trace.HandsOver, Trace.answers_asked, List.flatMap_cons, hitems]
  rfl

theorem Walking.handsOver (hd : d.Coherent) (ha : site.IsRegularOn d) (hl : l ∈ d.languages)
    (h : Walking site d n l k es) : es.HandsOver d := by
  induction h with
  | begun => rfl
  | page h hg hr hv ih => exact ih.append (handsOver_pageEffects hd (ha.gives hl hg) hr)

theorem Walked.handsOver (hd : d.Coherent) (ha : site.IsRegularOn d) (hl : l ∈ d.languages)
    {f : Option Failure} (h : Walked site d n l es f) : es.HandsOver d := by
  cases h with
  | short h hg hr hv =>
      exact (h.handsOver hd ha hl).append (handsOver_pageEffects hd (ha.gives hl hg) hr)
  | unfetched h hg hr =>
      exact (h.handsOver hd ha hl).append (handsOver_unfetched (ha.gives hl hg) hr _)

theorem Behind.handsOver (hd : d.Coherent) (ha : site.IsRegularOn d) {past : List String}
    {e : TypeReport} (hp : past ⊆ d.languages) (h : Behind site d n past es e) : es.HandsOver d := by
  induction h with
  | nothing => rfl
  | @language past es e l more f h hw ih =>
      have hl : l ∈ d.languages := hp (List.mem_append_right past List.mem_cons_self)
      exact (ih fun x hx => hp (List.mem_append_left [l] hx)).append (hw.handsOver hd ha hl)

/-- **A task at its end has handed over all that it got.** -/
theorem Stands.handsOver (hd : d.Coherent) (ha : site.IsRegularOn d) {t : Task}
    (h : Stands site d n es t) (hp : t.phase = .ended) : es.HandsOver d := by
  cases h with
  | fresh => cases hp
  | asking => cases hp
  | crashed => cases hp
  | closed h => exact h.handsOver hd ha (List.Subset.refl _)
  | @cancelled past l ls es more e k _ h hs hw =>
      have hsub : past ⊆ d.languages := by
        rw [hs]
        exact List.subset_append_left past _
      have hl : l ∈ d.languages := hs ▸ List.mem_append_right past List.mem_cons_self
      exact (h.handsOver hd ha hsub).append (hw.handsOver hd ha hl)

end HandsOver

/-! ## What would have come

A sequence of outcomes that begins with the answers of the task decides what the task would have done. -/

/-- Whether a task that follows some outcomes, and has done something before a moment, would send another
request after it if it went on by itself. -/
def Task.AsksMore (d : NodeDefinition) (n : Nat) (outcomes : Nat → Answer) (before : Trace) : Prop :=
  ∃ j, before.requests.length < (Task.solo d n outcomes j).2.2.requests.length

/-- Whether an entry is the one with which a task ends that follows some outcomes by itself. -/
def Task.EndsAlone (d : NodeDefinition) (n : Nat) (outcomes : Nat → Answer) (e : TypeReport) : Prop :=
  ∃ j, (Task.solo d n outcomes j).1.phase = .ended ∧ (Task.solo d n outcomes j).1.entry = e

/-- There is only one such entry. -/
theorem Task.EndsAlone.unique {d : NodeDefinition} {n : Nat} {outcomes : Nat → Answer}
    {e e' : TypeReport} (h : EndsAlone d n outcomes e) (h' : EndsAlone d n outcomes e') : e = e' := by
  have go {i j : Nat} (hi : (solo d n outcomes i).1.phase = .ended) (hij : i ≤ j) :
      (solo d n outcomes j).1.entry = (solo d n outcomes i).1.entry := by
    have hdone : (solo d n outcomes i).1.isDone = true := by
      rw [isDone, hi]
    rw [solo_of_isDone hdone hij]
  obtain ⟨i, hi, rfl⟩ := h
  obtain ⟨j, hj, rfl⟩ := h'
  rcases Nat.le_total i j with hij | hij
  · exact (go hi hij).symm
  · exact go hj hij

section AsksMore

variable {site : Site σ} {d : NodeDefinition} {n : Nat} {outcomes : Nat → Answer} {es before : Trace}
  {t : Task}

theorem requests_length_le {es es' : Trace} (h : es <+: es') :
    es.requests.length ≤ es'.requests.length := (h.filterMap _).length_le

/-- **A task was cancelled exactly if it would have asked for more**, given that it has sent no request
since the moment; otherwise it has ended as it would have by itself. -/
theorem Stands.asksMore_iff (hd : d.Coherent) (hn : 0 < n) (h : Stands site d n es t)
    (hp : t.phase = .ended) (hf : es.Follows outcomes)
    (hb : before.requests.length = es.requests.length) :
    (t.entry.status = .cancelled ↔ Task.AsksMore d n outcomes before)
      ∧ (t.entry.status ≠ .cancelled → Task.EndsAlone d n outcomes t.entry) := by
  cases h with
  | fresh => cases hp
  | asking => cases hp
  | crashed => cases hp
  | @closed es e ls h =>
      obtain ⟨j, hj⟩ := h.solo_closed hd hn hf
      have hstatus : e.closed.status ≠ .cancelled := by
        show (if e.errors.isEmpty then Status.complete else .partly) ≠ _
        split <;> nofun
      refine ⟨⟨fun hc => absurd hc hstatus, ?_⟩, fun _ => ⟨j, by rw [hj], by rw [hj]⟩⟩
      -- The solo run is at its end after `j` moves, so it never sends more requests than the task.
      rintro ⟨i, hi⟩
      have hdone : (Task.solo d n outcomes j).1.isDone = true := by
        rw [hj]
        rfl
      have hle : (Task.solo d n outcomes i).2.2.requests.length ≤ es.requests.length := by
        rcases Nat.le_total i j with hij | hij
        · have hprefix : (Task.solo d n outcomes i).2.2 <+: (Task.solo d n outcomes j).2.2 :=
            Task.solo_prefix hij
          rw [hj] at hprefix
          exact requests_length_le hprefix
        · rw [Task.solo_of_isDone hdone hij, hj]
      omega
  | cancelled _ h hs hw =>
      obtain ⟨j, r, a, hj⟩ := hw.solo_goesOn hd hn h hs hf
      refine ⟨⟨fun _ => ⟨j, ?_⟩, fun _ => rfl⟩, fun hne => absurd rfl hne⟩
      rw [hj, Trace.requests_append, List.length_append, hb]
      exact Nat.lt_succ_self _

/-- The solo run passes through all that a task at its end has done. -/
theorem Stands.prefix_solo (hd : d.Coherent) (hn : 0 < n) (h : Stands site d n es t)
    (hp : t.phase = .ended) (hf : es.Follows outcomes) :
    ∃ j, es <+: (Task.solo d n outcomes j).2.2 := by
  cases h with
  | fresh => cases hp
  | asking => cases hp
  | crashed => cases hp
  | closed h =>
      obtain ⟨j, hj⟩ := h.solo_closed hd hn hf
      exact ⟨j, by rw [hj]⟩
  | cancelled _ h hs hw =>
      obtain ⟨j, r, a, hj⟩ := hw.solo_goesOn hd hn h hs hf
      exact ⟨j, by rw [hj]; exact List.prefix_append _ _⟩

end AsksMore

/-! ## Whole runs

What the report tells of each type, put together from the tasks and the effects before the moment. -/

/-- What is reported of a type when a run was cancelled, against what its task had done before the moment
and did altogether. -/
structure TypeReport.CutShort (e : TypeReport) (d : NodeDefinition) (n : Nat) (before es : Trace) :
    Prop where
  /-- All items of all pages that were answered were handed over and counted. -/
  handsOver : es.HandsOver d
  emitted_eq : e.emitted = (es.received d.typeName).length
  /-- With the same answers, the type passes by itself through what was done before the moment. -/
  passes : ∀ outcomes, es.Follows outcomes → ∃ j, before <+: (Task.solo d n outcomes j).2.2
  cancelled_iff : ∀ outcomes, es.Follows outcomes →
    (e.status = .cancelled ↔ Task.AsksMore d n outcomes before)
  otherwise : e.status ≠ .cancelled → (e.status = .complete ∨ e.status = .partly)
    ∧ ∀ outcomes, es.Follows outcomes → Task.EndsAlone d n outcomes e

/-- What the report of a run tells that was cancelled after so many effects. Of these, the effects of a
task are those of its steps before the moment, as all types are announced before the first step. -/
structure Report.IsCutShort (report : Report) (p : Plan) (n m : Nat) (steps : Interleaving Effect)
    (log : Trace) : Prop where
  log_eq : log = p.nodes.values.map .declared ++ merged steps
  concerns : ∀ i x, x ∈ own i steps → ∃ d, p.nodes.values[i]? = some d ∧ x.Concerns d
  cancelled : report.cancelled = true
  silent : Trace.requests (log.drop m) = []
  told : ∀ c ∈ p.descriptors, p.fragments.failures.get? c.typeName = none →
    ∃ i d e, p.nodes.values[i]? = some d ∧ d.descriptor = c ∧ report.find? c.typeName = some e
      ∧ log.received c.typeName = Trace.received c.typeName (own i steps)
      ∧ e.CutShort d n (own i (steps.take (m - p.nodes.values.length))) (own i steps)
  skipped : ∀ c ∈ p.descriptors, ∀ problem, p.fragments.failures.get? c.typeName = some problem →
    report.find? c.typeName
      = some (.leftOut c.typeName (Failure.message (.fragment c.typeName problem)))

section Runs

variable {site : Site σ} {p : Plan} {n m : Nat} {steps : Interleaving Effect} {log : Trace}

/-- What is left of an interleaving after some steps is what is left for every party. -/
theorem Interleaving.own_take_append_drop {α : Type} (i k : Nat) (steps : Interleaving α) :
    own i steps = own i (steps.take k) ++ own i (steps.drop k) := by
  rw [← own_append, List.take_append_drop]

/-- No task has sent a request since a moment after which the run has sent none. -/
theorem requests_own_eq (hlog : log = p.nodes.values.map .declared ++ merged steps)
    (hsilent : Trace.requests (log.drop m) = []) (i : Nat) :
    (Trace.requests (own i (steps.take (m - p.nodes.values.length)))).length
      = (Trace.requests (own i steps)).length := by
  rw [own_take_append_drop i (m - p.nodes.values.length) steps, Trace.requests_append,
    List.length_append]
  have hnone : Trace.requests (own i (steps.drop (m - p.nodes.values.length))) = [] := by
    apply List.filterMap_eq_nil_iff.mpr
    intro x hx
    refine List.filterMap_eq_nil_iff.mp hsilent x ?_
    rw [hlog, List.drop_append, List.length_map]
    refine List.mem_append_right _ ?_
    rw [merged, ← List.map_drop]
    exact mem_merged.mpr ⟨i, hx⟩
  rw [hnone]
  rfl

namespace Chronicle

variable {x : σ × Nat} {r : Run ((σ × Nat) × Trace)}

/-! ### The report of a cancelled run

For a type with a document the report is compared with two things: what its task has done, of which nothing
may be missing, and what the task would have done by itself, of which it may be the beginning. -/

/-- The answers of a site do not depend on when it is cancelled. -/
theorem isRegularOn_cancelledAfter {d : NodeDefinition} (h : site.IsRegularOn d) :
    (site.cancelledAfter m).IsRegularOn d := fun r hr x => h r hr x.1

theorem isCutShort (hp : p.Coherent) (hparts : p.Partitioned) (hn : 0 < n)
    (h : Chronicle (site.cancelledAfter m) n p steps r log)
    (hlog : log = p.nodes.values.map .declared ++ merged steps)
    (he : ∀ t ∈ r.tasks, t.phase = .ended) (hanswers : ∀ d ∈ p.nodes.values, site.IsRegularOn d)
    (hsilent : Trace.requests (log.drop m) = []) {cancelled : Bool} (hcancelled : cancelled = true) :
    (p.report r.tasks cancelled).IsCutShort p n m steps log where
  log_eq := hlog
  concerns i x hx := h.concerns hx
  cancelled := hcancelled
  silent := hsilent
  told := by
    intro c hc hf
    obtain ⟨d, hd, rfl⟩ := (hparts.node_iff c hc).mpr hf
    obtain ⟨i, hi⟩ := List.getElem?_of_mem hd
    obtain ⟨t, hst, ht, hentry⟩ := h.entry hp hi cancelled
    have hended := he t ht
    have hregular := isRegularOn_cancelledAfter (m := m) (hanswers d hd)
    have htells := hst.tells (hp.isFor d hd) hregular hended
    -- all of the task's requests lie before the cancellation
    have hbefore := requests_own_eq hlog hsilent i
    refine ⟨i, d, t.entry, hi, rfl, hentry, h.received hp hi, ?_⟩
    exact {
      handsOver := hst.handsOver (hp.node hd) hregular hended
      emitted_eq := htells.emitted_eq
      passes := by
        intro outcomes hfollows
        obtain ⟨j, hj⟩ := hst.prefix_solo (hp.node hd) hn hended hfollows
        refine ⟨j, List.IsPrefix.trans ?_ hj⟩
        rw [own_take_append_drop i (m - p.nodes.values.length) steps]
        exact List.prefix_append _ _
      cancelled_iff := fun outcomes hfollows =>
        (hst.asksMore_iff (hp.node hd) hn hended hfollows hbefore).1
      otherwise := by
        intro hne
        refine ⟨?_, fun outcomes hfollows =>
          (hst.asksMore_iff (hp.node hd) hn hended hfollows hbefore).2 hne⟩
        rcases htells.status_mem with hs | hs | hs
        · exact .inl hs
        · exact .inr hs
        · exact absurd hs hne }
  skipped := by
    intro c hc problem hf
    rw [Plan.find?_report h.entry_typeName hc, h.reportOn_failed hp hparts hc hf]

end Chronicle

end Runs

namespace Sourcing

/-- A run that is not cancelled brings every type to the end to which it comes by itself. -/
theorem Ends.endsAlone {site : Site σ} {o : Order} {p : Plan} {n : Nat} (hp : p.Coherent) (hn : 0 < n)
    (hw : o.walking = .bySize n) (hcancelled : ∀ s, site.cancelled s = false) {s s' : σ}
    {report : Report} {log : Trace} (h : Ends site.traced o p (s, []) (.ok report) (s', log)) :
    ∃ steps, log = p.nodes.values.map .declared ++ merged steps
      ∧ ∀ i d, p.nodes.values[i]? = some d → ∃ e, report.find? d.typeName = some e
        ∧ ∀ outcomes, Trace.Follows (own i steps) outcomes → Task.EndsAlone d n outcomes e := by
  obtain ⟨steps, r, hch, hlog, rfl, he⟩ := h.account hp hn hw
  refine ⟨steps, hlog, fun i d hi => ?_⟩
  obtain ⟨t, hst, ht, hentry⟩ := hch.entry hp hi (site.cancelled s')
  refine ⟨t.entry, hentry, fun outcomes hfollows => ?_⟩
  have hd := hp.node (List.mem_of_getElem? hi)
  rcases hst.of_ended (he t ht) with ⟨e, hb, hclosed⟩ | ⟨⟨s₁, hs₁⟩, -⟩
  · obtain ⟨j, hj⟩ := hb.solo_closed hd hn hfollows
    exact ⟨j, by rw [hj], by rw [hj, hclosed]⟩
  · cases (hcancelled s₁).symm.trans hs₁

/-- **The protocol of cancellation.** At whatever moment a run is cancelled, it sends no request from then
on, hands over all that was answered, and reports a type as cancelled exactly if there was more to ask
for it. -/
theorem cancellation_protocol {σ₀ : Type} {site₀ : Site σ₀} {o₀ : Order} {s₀ : σ₀} {p : Plan}
    (hprepare : (Plan.prepare site₀ o₀ s₀).1 = .ok p) {site : Site σ} {o : Order} {n : Nat}
    (hpaging : o.paging = none) (hsize : o.config.pageSize = n) (hn : 1 ≤ n)
    (hconcurrency : 1 ≤ o.config.concurrency) {s : σ}
    (haccepts : (site.declareAll p.nodes.values s).1 = .ok ())
    (hanswers : ∀ d ∈ p.nodes.values, site.IsRegularOn d) (m : Nat) :
    (∀ {x s' log}, Ends (site.cancelledAfter m).traced o p ((s, 0), []) x (s', log) → m ≤ log.length →
      ∃ report steps, x = .ok report ∧ report.IsCutShort p n m steps log)
    ∧ ∀ suspends, ∃ moves, ∀ fuel ≥ moves, ∃ x log,
      (source (site.cancelledAfter m) ⟨suspends, fuel⟩ o p (s, 0)).1.result = some x
        ∧ (source (site.cancelledAfter m).traced ⟨suspends, fuel⟩ o p ((s, 0), [])).2.2 = log
        ∧ (m ≤ log.length → ∃ report steps, x = .ok report ∧ report.IsCutShort p n m steps log) := by
  have hp := Plan.prepare_coherent hprepare
  have hparts := Plan.prepare_partitioned hprepare
  have hw := Order.walking_eq hpaging hsize
  have haccepts' : ((site.cancelledAfter m).declareAll p.nodes.values (s, 0)).1 = .ok () :=
    (Site.declareAll_cancelledAfter p.nodes.values (s, 0)).trans haccepts
  -- a run that ends is cut short by what its record says; that one ends at all is shown below
  have hends {x : Except Failure Report} {s' : σ × Nat} {log : Trace}
      (h : Ends (site.cancelledAfter m).traced o p ((s, 0), []) x (s', log)) (hm : m ≤ log.length) :
      ∃ report steps, x = .ok report ∧ report.IsCutShort p n m steps log := by
    obtain ⟨hlen, hsilent⟩ := h.keeps (Site.keeps_cancelledAfter site m) ⟨rfl, by rw [List.drop_nil]; rfl⟩
    obtain ⟨report, rfl⟩ := h.reports hp hn hw haccepts' fun d hd =>
      Chronicle.isRegularOn_cancelledAfter (hanswers d hd)
    obtain ⟨steps, r, hch, hlog, rfl, he⟩ := h.account hp hn hw
    have hcancelled : (site.cancelledAfter m).cancelled s' = true :=
      decide_eq_true (hm.trans_eq hlen.symm)
    exact ⟨_, steps, rfl, hch.isCutShort hp hparts hn hlog he hanswers hsilent hcancelled⟩
  refine ⟨hends, fun suspends => ?_⟩
  obtain ⟨moves, hmoves⟩ := source_returns_cancelled site m o p suspends (s, 0)
  refine ⟨moves, ?_⟩
  intro fuel hfuel
  obtain ⟨x, hx⟩ := hmoves fuel hfuel
  refine ⟨x, _, hx, rfl, hends (source_ends hconcurrency ?_)⟩
  rw [(source_traced (site.cancelledAfter m) ⟨suspends, fuel⟩ o p (s, 0) []).1]
  exact hx

end Sourcing

/-! ## A run that is cancelled in the middle of a page -/

namespace Sample

/-- Answers with a full page for one type, again and again, and without one for the other. -/
def endless (r : Request) : Answer :=
  if isOfNode r then pageOf [item "Node" "1", item "Node" "2"] else .data .null

/-- What is sourced, both types at a time. -/
def parallel : Order := { order with config := { order.config with concurrency := 2 } }

theorem isRegularOn_endless {d : NodeDefinition} (hd : d ∈ plan.nodes.values) :
    (answering endless).IsRegularOn d := by
  intro r _ s
  have hq := queryField_of_mem hd
  rw [← ((Plan.prepare_coherent prepare_eq).isFor d hd).queryField_eq] at hq
  show (endless r).IsRegular _
  unfold endless
  split
  next => exact isRegular_pageOf _ hq
  next => exact nofun

theorem outcome_of_cancelled :
    (fun x => ((x.1.result.bind Except.toOption).map fun r => (statusesOf r, r.totalEmitted), x.2.2.length))
        (Sourcing.source ((answering endless).cancelledAfter 9).traced ⟨true, 20⟩ parallel plan
          (((), 0), []))
      = (some ([("Node", .cancelled, 0), ("Term", .partly, 2)], 4), 10) := by
  decide +kernel

/-- The run is cancelled while the first record of the second page is handed over. The second one still
is, but there is no third page; the other type was at its last request. -/
theorem cutShort_endless :
    ∃ report steps,
      (Sourcing.source ((answering endless).cancelledAfter 9) ⟨true, 20⟩ parallel plan ((), 0)).1.result
          = some (.ok report)
        ∧ report.IsCutShort plan 2 9 steps
          (Sourcing.source ((answering endless).cancelledAfter 9).traced ⟨true, 20⟩ parallel plan
            (((), 0), [])).2.2
        ∧ statusesOf report = [("Node", .cancelled, 0), ("Term", .partly, 2)]
        ∧ report.totalEmitted = 4 := by
  obtain ⟨houtcome, hlength⟩ := Prod.mk.inj outcome_of_cancelled
  obtain ⟨report, hreport, hstatuses⟩ := Option.map_eq_some_iff.mp houtcome
  obtain ⟨x, hx', hok⟩ := Option.bind_eq_some_iff.mp hreport
  have hx := hx'
  rw [(Sourcing.source_traced ((answering endless).cancelledAfter 9) ⟨true, 20⟩ parallel plan
    ((), 0) []).1] at hx
  obtain ⟨report', steps, rfl, hcut⟩ := (Sourcing.cancellation_protocol prepare_eq rfl rfl (by decide)
    (by decide) (declareAll_answering endless _) (fun _ hd => isRegularOn_endless hd) 9).1
      (Sourcing.source_ends (by decide) hx') (by rw [hlength]; decide)
  cases hok
  exact ⟨report, steps, hx, hcut, congrArg (·.1) hstatuses, congrArg (·.2) hstatuses⟩

end Sample

end Harvest
