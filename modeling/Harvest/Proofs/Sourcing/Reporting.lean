import Harvest.Proofs.Plan.Partition
import Harvest.Proofs.Sourcing.Independence

/-!
# Reports

The report of a run is exact: it has one entry for each type, in their order, and every entry tells what
the run did for its type, no matter whether it was cancelled. `Report.IsExact` spells this out against
the effects of the run, and `report_exact` says that it holds of every ending.

An entry of the report is made by the task of its type, page by page, or by the plan if the type has no
document. `TypeReport.Tells` compares the entry of a task with the effects of the task: which of its
languages broke off, how many records were handed over, and which status follows from both. The induction is
the one that says where a task stands, so it is enough to look at one language at a time.

The whole report is then put together from the order of the types in the plan. For the totals, records are
counted by their types (`Trace.emissions_eq_sum`) and types by their statuses (`Report.byStatus_perm`).
-/

namespace Harvest

open Interleaving

variable {σ : Type}

/-! ## Announcements

Before anything else all types are announced; the trace begins with them. -/

/-- Types that are all accepted are announced one after the other. -/
theorem Site.declareAll_accepted {site : Site σ} {ds : List NodeDefinition} {s : σ}
    (h : (site.declareAll ds s).1 = .ok ()) (log : Trace) :
    site.traced.declareAll ds (s, log)
      = (.ok (), ((site.declareAll ds s).2, log ++ ds.map .declared)) := by
  obtain ⟨announced, -, hall, hd⟩ := site.declareAll_traced ds s log
  rw [hd, hall h, h]

/-! ## Endings with a report -/

namespace Sourcing

variable {site : Site σ} {o : Order} {p : Plan} {n : Nat} {s s' : σ} {x : Except Failure Report}
  {report : Report} {log : Trace}

/-- A run whose answers are regular ends with a report. -/
theorem Ends.reports (hp : p.Coherent) (hn : 0 < n) (hw : o.walking = .bySize n)
    (haccepts : (site.declareAll p.nodes.values s).1 = .ok ())
    (hanswers : ∀ d ∈ p.nodes.values, site.IsRegularOn d)
    (h : Ends site.traced o p (s, []) x (s', log)) : ∃ report, x = .ok report := by
  obtain ⟨steps, r, hch, ⟨f, -, i, t, ht, hf⟩ | ⟨rfl, -⟩⟩ := h.chronicle hp hn hw haccepts
  · obtain ⟨j, d, hd, hst⟩ := hch.accounts.task_of_mem (List.mem_of_getElem? ht)
    exact absurd hf (hst.not_crashed_of_regular (hanswers d (List.mem_of_getElem? hd)) f)
  · exact ⟨_, rfl⟩

/-- A run that ends with a report has announced all types and has brought all tasks to their ends. -/
theorem Ends.account (hp : p.Coherent) (hn : 0 < n) (hw : o.walking = .bySize n)
    (h : Ends site.traced o p (s, []) (.ok report) (s', log)) :
    ∃ steps r, Chronicle site n p steps r log
      ∧ log = p.nodes.values.map .declared ++ merged steps
      ∧ report = p.report r.tasks (site.cancelled s') ∧ ∀ t ∈ r.tasks, t.phase = .ended := by
  generalize hx : (s', log) = y at h
  generalize hreport : Except.ok report = x at h
  cases h with
  | refused => cases hreport
  | crashed => cases hreport
  | @ended x₁ order r h₁ hr he =>
      cases hreport
      have ha : (site.declareAll p.nodes.values s).1 = .ok () := by
        obtain ⟨announced, -, -, hd⟩ := site.declareAll_traced p.nodes.values s []
        rw [h₁] at hd
        exact (congrArg (·.1) hd).symm
      rw [Site.declareAll_accepted ha, List.nil_append] at h₁
      cases h₁
      rw [hw] at hr
      obtain ⟨steps, hacc, hlog⟩ := Accounts.of_order site (fun d hd => hp.node hd) hn
        o.config.concurrency.toNat
        ((site.declareAll p.nodes.values s).2, p.nodes.values.map .declared) order
      subst hr
      have hlog' : log = p.nodes.values.map .declared ++ merged steps :=
        (congrArg Prod.snd hx).trans hlog
      exact ⟨steps, _, ⟨hacc, _, hlog'⟩, hlog', by rw [← hx]; rfl, he⟩

end Sourcing

/-! ## What an entry tells

A language has broken off if one of its requests got an answer without a page. Requests tell their language
by the operation that they name. -/

/-- Whether a request of a language got an answer without a page. -/
def Trace.breaksOff (d : NodeDefinition) (es : Trace) (l : String) : Bool :=
  es.any fun
    | .asked r a =>
      r.operationName == d.document.operations.get? l && a.isUnusable d.document.queryField
    | _ => false

/-- Whether an entry tells what was done for a type with a document. -/
structure TypeReport.Tells (e : TypeReport) (d : NodeDefinition) (es : Trace) : Prop where
  typeName_eq : e.typeName = d.typeName
  emitted_eq : e.emitted = (es.received d.typeName).length
  errors_length : e.errors.length = d.languages.countP (es.breaksOff d)
  status_mem : e.status = .complete ∨ e.status = .partly ∨ e.status = .cancelled
  status_eq : e.status ≠ .cancelled →
    (e.status = .complete ↔ e.errors.length = 0) ∧ (e.status = .partly ↔ e.errors.length ≠ 0)

section BreaksOff

variable {site : Site σ} {d : NodeDefinition} {n k : Nat} {l : String} {es more : Trace}

/-! ### Languages that break off

A request tells its language by the name of its operation. So the answers of one walk count for its language
and for no other one, and the errors of a task can be counted by its languages. -/

theorem Trace.breaksOff_append (l : String) :
    (es ++ more).breaksOff d l = (es.breaksOff d l || more.breaksOff d l) := List.any_append

/-- No language breaks off if a page can be taken from every answer. -/
theorem Trace.breaksOff_eq_false
    (h : es.Answered fun a => a.isUnusable d.document.queryField = false) (l : String) :
    es.breaksOff d l = false := by
  rw [breaksOff, List.any_eq_false]
  intro x hx
  cases x with
  | asked r a =>
      dsimp only
      rw [h r a hx, Bool.and_false]
      exact Bool.false_ne_true
  | _ => exact Bool.false_ne_true

theorem Walking.breaksOff (h : Walking site d n l k es) (l' : String) :
    es.breaksOff d l' = false :=
  Trace.breaksOff_eq_false (fun r a ha => (h.answered r a ha).2) l'

/-- The name of an operation tells its language. -/
theorem operationName_inj {typeName l l' : String}
    (h : Descriptor.operationName typeName l = Descriptor.operationName typeName l') : l = l' := by
  have happend := congrArg String.toList h
  simp only [Descriptor.operationName, toString, String.toList_append] at happend
  exact String.toList_inj.mp (List.append_cancel_left happend)

/-- Two languages of a document have different operations. -/
theorem CompiledDocument.IsFor.operation_inj (h : d.document.IsFor d.descriptor) {l' : String}
    (hl : l ∈ d.languages) (hl' : l' ∈ d.languages)
    (he : d.document.operations.get? l = d.document.operations.get? l') : l = l' := by
  rw [h.operation_eq l hl, h.operation_eq l' hl'] at he
  exact operationName_inj (Option.some.inj he)

/-- **A walk breaks off its own language**, and that exactly if it comes to a failure. -/
theorem Walked.breaksOff (hd : d.document.IsFor d.descriptor) (hr : site.IsRegularOn d)
    (hl : l ∈ d.languages) {f : Option Failure} (h : Walked site d n l es f) {l' : String}
    (hl' : l' ∈ d.languages) : es.breaksOff d l' = (decide (l = l') && f.isSome) := by
  cases h with
  | short h hg hread hv =>
      rw [Option.isSome_none, Bool.and_false]
      refine Trace.breaksOff_eq_false ?_ l'
      exact Trace.Answered.append (fun r a ha => (h.answered r a ha).2)
        (answered_pageEffects (P := fun a => a.isUnusable d.document.queryField = false)
          (Answer.isUnusable_of_items hread) _)
  | @unfetched k es a p h hg hread =>
      have hu := Answer.isUnusable_of_unfetched (hr.gives hl hg).isOrderly hread
      have hop : (d.document.operations.get? l == d.document.operations.get? l') = decide (l = l') := by
        rw [Bool.eq_iff_iff, beq_iff_eq, decide_eq_true_iff]
        exact ⟨hd.operation_inj hl hl', fun he => by rw [he]⟩
      rw [Trace.breaksOff_append, h.breaksOff, Bool.false_or, Option.isSome_some, Bool.and_true, ← hop,
        Trace.breaksOff, List.any_cons, List.any_nil, Bool.or_false]
      dsimp only
      rw [hu, Bool.and_true]
      rfl

/-- The report of a task counts the languages behind it that broke off, and no other language has. -/
theorem Behind.errors_length (hd : d.document.IsFor d.descriptor) (hr : site.IsRegularOn d)
    {past : List String} {e : TypeReport} (hp : past ⊆ d.languages) (hn : past.Nodup)
    (h : Behind site d n past es e) :
    e.errors.length = past.countP (es.breaksOff d)
      ∧ ∀ l ∈ d.languages, l ∉ past → es.breaksOff d l = false := by
  -- on the languages left behind, of which each counts once
  induction h with
  | nothing => exact ⟨rfl, fun l _ _ => rfl⟩
  | @language past es e l more f h hw ih =>
      have hl : l ∈ d.languages := hp (List.mem_append_right past List.mem_cons_self)
      have hpast : past ⊆ d.languages := fun x hx => hp (List.mem_append_left [l] hx)
      obtain ⟨hn', -, hne⟩ := List.nodup_append.mp hn
      obtain ⟨hlen, hrest⟩ := ih hpast hn'
      have hmore {l' : String} (hl' : l' ∈ d.languages) (h : l ≠ l') : more.breaksOff d l' = false := by
        rw [hw.breaksOff hd hr hl hl', decide_eq_false h, Bool.false_and]
      have hnot : l ∉ past := fun hmem => hne l hmem l List.mem_cons_self rfl
      constructor
      · have hsame : past.countP ((es ++ more).breaksOff d) = past.countP (es.breaksOff d) := by
          refine List.countP_congr fun l' hl' => ?_
          rw [Trace.breaksOff_append, hmore (hpast hl') fun he => hnot (he ▸ hl'), Bool.or_false]
        have hself : (es ++ more).breaksOff d l = f.isSome := by
          rw [Trace.breaksOff_append, hrest l hl hnot, hw.breaksOff hd hr hl hl, decide_eq_true rfl,
            Bool.false_or, Bool.true_and]
        rw [List.countP_append, hsame, ← hlen, List.countP_singleton, hself]
        cases f with
        | none => rfl
        | some f => exact List.length_append
      · intro l' hl' hmem
        rw [List.mem_append, List.mem_singleton, not_or] at hmem
        rw [Trace.breaksOff_append, hrest l' hl' hmem.1, hmore hl' fun he => hmem.2 he.symm]
        rfl

/-! ### Entries at their end

The status is set when the last language is over, and by the errors that there are then. A task that is
cancelled on the way gets its own status, whatever the languages before have brought. -/

theorem Behind.emitted_eq {past : List String} {e : TypeReport} (hp : past ⊆ d.languages)
    (h : Behind site d n past es e) : e.emitted = (es.received d.typeName).length := by
  obtain ⟨walks, -, -, rfl⟩ := h.walks hp
  rfl

/-- **The entry of a task at its end tells what the task has done.** -/
theorem Stands.tells {t : Task} (hd : d.document.IsFor d.descriptor) (hr : site.IsRegularOn d)
    (h : Stands site d n es t) (hp : t.phase = .ended) : t.entry.Tells d es := by
  cases h with
  | fresh => cases hp
  | asking => cases hp
  | crashed => cases hp
  | @closed es e ls h =>
      have hstatus : e.closed.status = if e.errors.isEmpty then .complete else .partly := rfl
      have hemitted := h.emitted_eq (List.Subset.refl _)
      refine ⟨h.entry_typeName, hemitted,
        (h.errors_length hd hr (List.Subset.refl _) hd.nodup).1, ?_, fun _ => ?_⟩
      · rw [hstatus]
        split
        next => exact .inl rfl
        next => exact .inr (.inl rfl)
      · show (_ ↔ e.errors.length = 0) ∧ (_ ↔ e.errors.length ≠ 0)
        rw [hstatus]
        cases e.errors with
        | nil => exact ⟨⟨fun _ => rfl, fun _ => rfl⟩, nofun, fun hne => absurd rfl hne⟩
        | cons x xs => exact ⟨⟨nofun, nofun⟩, fun _ => nofun, fun _ => rfl⟩
  -- what came of the interrupted language is counted, but it breaks off for no fault of its own
  | @cancelled past l ls es more e k _ h hs hw =>
      have hsub : past ⊆ d.languages := by
        rw [hs]
        exact List.subset_append_left past _
      have hn : (past ++ l :: ls).Nodup := hs ▸ hd.nodup
      have hl : l ∈ d.languages := hs ▸ List.mem_append_right past List.mem_cons_self
      obtain ⟨hlen, hrest⟩ := h.errors_length hd hr hsub (List.nodup_append.mp hn).1
      have hsame (l' : String) : (es ++ more).breaksOff d l' = es.breaksOff d l' := by
        rw [Trace.breaksOff_append, hw.breaksOff, Bool.or_false]
      refine ⟨h.entry_typeName, ?_, ?_, .inr (.inr rfl), fun hne => absurd rfl hne⟩
      · show e.emitted + more.emissions = _
        rw [h.emitted_eq hsub, Trace.emissions_eq (hw.of hl), Trace.received_append,
          List.length_append]
      · have hnone : (l :: ls).countP ((es ++ more).breaksOff d) = 0 := by
          rw [List.countP_eq_zero]
          intro l' hl'
          have hmem : l' ∈ d.languages := hs ▸ List.mem_append_right past hl'
          rw [hsame, hrest l' hmem fun hp' => (List.nodup_append.mp hn).2.2 l' hp' l' hl' rfl]
          exact Bool.false_ne_true
        rw [hs, List.countP_append, hnone, Nat.add_zero, funext hsame]
        exact hlen

end BreaksOff

/-! ## Totals

Sums over the types of a report. That no two of them have one name is what makes the sums right. -/

/-- One more for one name is as much more as often as the name occurs. -/
theorem sum_map_add_ite {names : List String} (f : String → Nat) (a : String) :
    (names.map fun t => f t + if t = a then 1 else 0).sum = (names.map f).sum + names.count a := by
  induction names with
  | nil => rfl
  | cons t names ih =>
      rw [List.map_cons, List.map_cons, List.sum_cons, List.sum_cons, ih, List.count_cons]
      by_cases h : t = a
      · rw [if_pos h, if_pos (beq_iff_eq.mpr h)]
        omega
      · rw [if_neg h, if_neg (by rwa [beq_iff_eq])]
        omega

/-- Records are counted by the types that they are of. -/
theorem Trace.emissions_eq_sum {log : Trace} {names : List String} (hn : names.Nodup)
    (h : ∀ d r, .emitted d r ∈ log → d.typeName ∈ names) :
    log.emissions = (names.map fun t => (log.received t).length).sum := by
  induction log with
  | nil =>
      refine (List.sum_eq_zero fun x hx => ?_).symm
      obtain ⟨t, -, rfl⟩ := List.mem_map.mp hx
      rfl
  | cons x log ih =>
      have ih := ih fun d r hr => h d r (List.mem_cons_of_mem x hr)
      cases x with
      | declared d => exact ih
      | asked r a => exact ih
      | kept c => exact ih
      | emitted d r =>
          have hlen (t : String) : (received t (.emitted d r :: log)).length
              = (received t log).length + if t = d.typeName then 1 else 0 := by
            rw [received, List.filterMap_cons]
            by_cases ht : t = d.typeName
            · rw [if_pos ht, Effect.record?, if_pos ht.symm]
              rfl
            · rw [if_neg ht, Effect.record?, if_neg fun he => ht he.symm]
              rfl
          -- Exactly one of the names is that of the record.
          have hcons : emissions (.emitted d r :: log) = emissions log + 1 :=
            List.countP_cons_of_pos rfl
          rw [hcons, ih, funext hlen, sum_map_add_ite,
            List.count_eq_one_of_mem hn (h d r List.mem_cons_self)]

namespace Report

theorem totalEmitted_eq_sum (r : Report) : r.totalEmitted = (r.types.map (·.emitted)).sum := by
  rw [totalEmitted, List.sum_eq_foldl, List.foldl_map]

/-- The types of a report by their statuses. -/
def byStatus (r : Report) : List String :=
  r.withStatus .complete ++ (r.withStatus .partly ++ (r.withStatus .skipped ++ r.withStatus .cancelled))

/-- Types are listed by status one after the other. -/
theorem withStatus_cons (e : TypeReport) (types : List TypeReport) (cancelled : Bool) (s : Status) :
    (⟨e :: types, cancelled⟩ : Report).withStatus s
      = if e.status = s then e.typeName :: (⟨types, cancelled⟩ : Report).withStatus s
        else (⟨types, cancelled⟩ : Report).withStatus s := by
  unfold withStatus
  dsimp only
  by_cases hs : e.status = s
  · rw [if_pos hs, List.filter_cons, if_pos (decide_eq_true hs), List.map_cons]
  · rw [if_neg hs, List.filter_cons, if_neg (by rwa [decide_eq_true_iff])]

/-- **Every type has one of the four statuses**, if none is pending. -/
theorem byStatus_perm {r : Report} (h : ∀ e ∈ r.types, e.status ≠ .pending) :
    r.byStatus.Perm (r.types.map (·.typeName)) := by
  obtain ⟨types, cancelled⟩ := r
  induction types with
  | nil => exact List.Perm.refl _
  | cons e types ih =>
      have ih := (ih fun e he => h e (List.mem_cons_of_mem _ he)).cons e.typeName
      refine List.Perm.trans ?_ ih
      simp only [byStatus, withStatus_cons]
      cases hs : e.status with
      | pending => exact absurd hs (h e List.mem_cons_self)
      | complete => exact List.Perm.refl _
      | partly => exact List.perm_middle
      | skipped => exact (List.perm_middle.append_left _).trans List.perm_middle
      | cancelled =>
          exact (((List.perm_middle.append_left _).append_left _).trans
            (List.perm_middle.append_left _)).trans List.perm_middle

end Report

/-! ## Whole runs

The entries in the order of the types, each with what it tells. -/

/-- Whether an effect has to do with a type. -/
def Effect.Concerns (x : Effect) (d : NodeDefinition) : Prop :=
  match x with
  | declared c => c = d
  | asked r _ => r.IsOf d
  | emitted c _ => c = d
  | kept _ => False

/-- An effect of the task of a type has to do with that type. -/
theorem Effect.Of.concerns {site : Site σ} {d : NodeDefinition} {n : Nat} {x : Effect}
    (h : x.Of site d n) : x.Concerns d := by
  cases h with
  | asked hl hg => exact isOf_pageRequest hl _ _
  | emitted r => rfl

/-- A report is exact if it agrees with the plan and with what the run did, step by step of its
tasks. -/
structure Report.IsExact (report : Report) (site : Site σ) (p : Plan) (steps : Interleaving Effect)
    (log : Trace) : Prop where
  log_eq : log = p.nodes.values.map .declared ++ merged steps
  concerns : ∀ i x, x ∈ own i steps → ∃ d, p.nodes.values[i]? = some d ∧ x.Concerns d
  /-- There is one entry for each type, in their order. -/
  typeNames_eq : report.types.map (·.typeName) = p.descriptors.map (·.typeName)
  nodup : (report.types.map (·.typeName)).Nodup
  ne_pending : ∀ e ∈ report.types, e.status ≠ .pending
  skipped_iff : ∀ c ∈ p.descriptors, ∀ e, report.find? c.typeName = some e →
    (e.status = .skipped ↔ ∃ problem, p.fragments.failures.get? c.typeName = some problem)
  /-- Of a type whose fragment failed, there is the failure and nothing else, and nothing was done. -/
  leftOut : ∀ c ∈ p.descriptors, ∀ problem, p.fragments.failures.get? c.typeName = some problem →
    report.find? c.typeName
        = some (.leftOut c.typeName (Failure.message (.fragment c.typeName problem)))
      ∧ ∀ x ∈ log, ∃ d ∈ p.nodes.values, d.typeName ≠ c.typeName ∧ x.Concerns d
  /-- Of every other type, the entry tells what the receiver got and which languages broke off. -/
  told : ∀ c ∈ p.descriptors, p.fragments.failures.get? c.typeName = none →
    ∃ i d e, p.nodes.values[i]? = some d ∧ d.descriptor = c ∧ report.find? c.typeName = some e
      ∧ e.Tells d (own i steps) ∧ e.emitted = (log.received c.typeName).length
      ∧ (e.status = .cancelled → site.Cancels)
  totalEmitted_eq : report.totalEmitted = log.emissions
  partition : report.byStatus.Perm (p.descriptors.map (·.typeName))

namespace Chronicle

variable {site : Site σ} {p : Plan} {n : Nat} {steps : Interleaving Effect} {r : Run (σ × Trace)}
  {log : Trace}

theorem concerns (h : Chronicle site n p steps r log) {i : Nat} {x : Effect} (hx : x ∈ own i steps) :
    ∃ d, p.nodes.values[i]? = some d ∧ x.Concerns d := by
  obtain ⟨d, t, hd, -, hst⟩ := h.getElem?_of_own hx
  exact ⟨d, hd, (hst.of x hx).concerns⟩

/-- Every effect has to do with one of the types that are sourced. -/
theorem mem_concerns (h : Chronicle site n p steps r log)
    (hlog : log = p.nodes.values.map .declared ++ merged steps) {x : Effect} (hx : x ∈ log) :
    ∃ d ∈ p.nodes.values, x.Concerns d := by
  rw [hlog] at hx
  rcases List.mem_append.mp hx with hx | hx
  · obtain ⟨d, hd, rfl⟩ := List.mem_map.mp hx
    exact ⟨d, hd, rfl⟩
  · obtain ⟨i, hi⟩ := mem_merged.mp hx
    obtain ⟨d, hd, hc⟩ := h.concerns hi
    exact ⟨d, List.mem_of_getElem? hd, hc⟩

/-! ### Entries of the report

Every type of the plan has one: its failure if it has no fragment, else the entry of its task. -/

/-- The report on a type whose fragment failed is its failure. -/
theorem reportOn_failed (hp : p.Coherent) (hparts : p.Partitioned)
    (h : Chronicle site n p steps r log) {c : Descriptor} (hc : c ∈ p.descriptors)
    {problem : FragmentProblem} (hf : p.fragments.failures.get? c.typeName = some problem) :
    p.reportOn r.tasks c = .leftOut c.typeName (Failure.message (.fragment c.typeName problem)) := by
  rw [Plan.reportOn_of_no_task fun t ht => ?_, Plan.reportOn, Plan.lookup_skipped, hf]
  · rfl
  · have hmem : t.definition ∈ p.nodes.values := h.definitions_eq ▸ List.mem_map_of_mem ht
    exact hparts.typeName_ne hp hc hf _ hmem

/-- The report on any other type tells what its task has done. -/
theorem reportOn_tells (hp : p.Coherent) (hparts : p.Partitioned)
    (h : Chronicle site n p steps r log) (he : ∀ t ∈ r.tasks, t.phase = .ended)
    (hanswers : ∀ d ∈ p.nodes.values, site.IsRegularOn d) {c : Descriptor} (hc : c ∈ p.descriptors)
    (hf : p.fragments.failures.get? c.typeName = none) :
    ∃ (i : Nat) (d : NodeDefinition), p.nodes.values[i]? = some d ∧ d.descriptor = c
      ∧ (p.reportOn r.tasks c).Tells d (own i steps)
      ∧ ((p.reportOn r.tasks c).status = .cancelled → site.Cancels) := by
  obtain ⟨d, hd, rfl⟩ := (hparts.node_iff c hc).mpr hf
  obtain ⟨i, hi⟩ := List.getElem?_of_mem hd
  obtain ⟨t, hst, ht, hentry⟩ := h.entry hp hi false
  have hreport : p.reportOn r.tasks d.descriptor = t.entry :=
    Option.some.inj ((Plan.find?_report h.entry_typeName hc false).symm.trans hentry)
  refine ⟨i, d, hi, rfl, ?_⟩
  rw [hreport]
  refine ⟨hst.tells (hp.isFor d hd) (hanswers d hd) (he t ht), fun hcancelled => ?_⟩
  rcases hst.of_ended (he t ht) with ⟨e, -, hclosed⟩ | ⟨hcancels, -⟩
  · have hstatus : e.closed.status = if e.errors.isEmpty then .complete else .partly := rfl
    rw [hclosed, hstatus] at hcancelled
    split at hcancelled <;> cases hcancelled
  · exact hcancels

/-- Whether or not a type has a document, the records that were handed over of it are counted. -/
theorem emitted_reportOn (hp : p.Coherent) (hparts : p.Partitioned)
    (h : Chronicle site n p steps r log) (he : ∀ t ∈ r.tasks, t.phase = .ended)
    (hanswers : ∀ d ∈ p.nodes.values, site.IsRegularOn d) {c : Descriptor} (hc : c ∈ p.descriptors) :
    (p.reportOn r.tasks c).emitted = (log.received c.typeName).length := by
  cases hf : p.fragments.failures.get? c.typeName with
  | none =>
      obtain ⟨i, d, hi, rfl, htells, -⟩ := h.reportOn_tells hp hparts he hanswers hc hf
      rw [htells.emitted_eq]
      exact congrArg List.length (h.received hp hi).symm
  | some problem =>
      rw [h.reportOn_failed hp hparts hc hf, h.received_of_no_node (hparts.typeName_ne hp hc hf)]
      rfl

/-- No type is left pending, and the skipped ones are those whose fragment failed. -/
theorem status_reportOn (hp : p.Coherent) (hparts : p.Partitioned)
    (h : Chronicle site n p steps r log) (he : ∀ t ∈ r.tasks, t.phase = .ended)
    (hanswers : ∀ d ∈ p.nodes.values, site.IsRegularOn d) {c : Descriptor} (hc : c ∈ p.descriptors) :
    (p.reportOn r.tasks c).status ≠ .pending
      ∧ ((p.reportOn r.tasks c).status = .skipped
        ↔ ∃ problem, p.fragments.failures.get? c.typeName = some problem) := by
  cases hf : p.fragments.failures.get? c.typeName with
  | none =>
      obtain ⟨i, d, -, -, htells, -⟩ := h.reportOn_tells hp hparts he hanswers hc hf
      rcases htells.status_mem with hs | hs | hs <;> rw [hs] <;> exact ⟨nofun, nofun, nofun⟩
  | some problem =>
      rw [h.reportOn_failed hp hparts hc hf]
      exact ⟨nofun, fun _ => ⟨problem, rfl⟩, fun _ => rfl⟩

/-- **The report of a run is exact.** -/
theorem isExact (hp : p.Coherent) (hparts : p.Partitioned) (h : Chronicle site n p steps r log)
    (hlog : log = p.nodes.values.map .declared ++ merged steps)
    (he : ∀ t ∈ r.tasks, t.phase = .ended) (hanswers : ∀ d ∈ p.nodes.values, site.IsRegularOn d)
    (cancelled : Bool) : (p.report r.tasks cancelled).IsExact site p steps log := by
  have hfind {c : Descriptor} (hc : c ∈ p.descriptors) :
      (p.report r.tasks cancelled).find? c.typeName = some (p.reportOn r.tasks c) :=
    Plan.find?_report h.entry_typeName hc cancelled
  have hnames : (p.report r.tasks cancelled).types.map (·.typeName)
      = p.descriptors.map (·.typeName) := by
    rw [Plan.report, List.map_map]
    exact List.map_congr_left fun c _ => Plan.typeName_reportOn h.entry_typeName c
  have hpending : ∀ e ∈ (p.report r.tasks cancelled).types, e.status ≠ .pending := by
    intro e hmem
    obtain ⟨c, hc, rfl⟩ := List.mem_map.mp hmem
    exact (h.status_reportOn hp hparts he hanswers hc).1
  exact {
    log_eq := hlog
    concerns := fun i x hx => h.concerns hx
    typeNames_eq := hnames
    nodup := hnames ▸ hparts.nodup
    ne_pending := hpending
    skipped_iff := by
      intro c hc e hentry
      cases (hfind hc).symm.trans hentry
      exact (h.status_reportOn hp hparts he hanswers hc).2
    leftOut := by
      intro c hc problem hf
      refine ⟨by rw [hfind hc, h.reportOn_failed hp hparts hc hf], fun x hx => ?_⟩
      obtain ⟨d, hd, hx⟩ := h.mem_concerns hlog hx
      exact ⟨d, hd, hparts.typeName_ne hp hc hf d hd, hx⟩
    told := by
      intro c hc hf
      obtain ⟨i, d, hi, hd, htells, hcancels⟩ := h.reportOn_tells hp hparts he hanswers hc hf
      have hemitted := h.emitted_reportOn hp hparts he hanswers hc
      exact ⟨i, d, _, hi, hd, hfind hc, htells, hemitted, hcancels⟩
    totalEmitted_eq := by
      have hlisted (d : NodeDefinition) (x : EntityRecord) (hx : .emitted d x ∈ log) :
          d.typeName ∈ p.descriptors.map (·.typeName) := by
        obtain ⟨c, hc, rfl⟩ := h.mem_concerns hlog hx
        exact List.mem_map_of_mem (hp.descriptor_mem d hc)
      rw [Report.totalEmitted_eq_sum, Trace.emissions_eq_sum hparts.nodup hlisted, Plan.report,
        List.map_map, List.map_map]
      exact congrArg List.sum
        (List.map_congr_left fun c hc => h.emitted_reportOn hp hparts he hanswers hc)
    partition := hnames ▸ Report.byStatus_perm hpending }

end Chronicle

namespace Sourcing

/-- **The report of a run is exact**, in whatever order its tasks move and whether or not it is
cancelled: every run of a plan whose answers are regular ends with a report, and with an exact one. -/
theorem report_exact {σ₀ : Type} {site₀ : Site σ₀} {o₀ : Order} {s₀ : σ₀} {p : Plan}
    (hprepare : (Plan.prepare site₀ o₀ s₀).1 = .ok p) {site : Site σ} {o : Order} {n : Nat}
    (hpaging : o.paging = none) (hsize : o.config.pageSize = n) (hn : 1 ≤ n)
    (hconcurrency : 1 ≤ o.config.concurrency) {s : σ}
    (haccepts : (site.declareAll p.nodes.values s).1 = .ok ())
    (hanswers : ∀ d ∈ p.nodes.values, site.IsRegularOn d) :
    (∀ {x s' log}, Ends site.traced o p (s, []) x (s', log) →
      ∃ report steps, x = .ok report ∧ report.IsExact site p steps log)
    ∧ (∀ {pace x}, (source site pace o p s).1.result = some x →
      ∃ report steps, x = .ok report
        ∧ report.IsExact site p steps (source site.traced pace o p (s, [])).2.2)
    ∧ ((∀ d ∈ p.nodes.values, ∃ pages, site.RunsDry d n pages) → ∀ suspends,
      ∃ moves, ∀ fuel ≥ moves, ∃ x, (source site ⟨suspends, fuel⟩ o p s).1.result = some x) := by
  have hp := Plan.prepare_coherent hprepare
  have hparts := Plan.prepare_partitioned hprepare
  have hw := Order.walking_eq hpaging hsize
  have hends {x : Except Failure Report} {s' : σ} {log : Trace}
      (h : Ends site.traced o p (s, []) x (s', log)) :
      ∃ report steps, x = .ok report ∧ report.IsExact site p steps log := by
    obtain ⟨report, rfl⟩ := h.reports hp hn hw haccepts hanswers
    obtain ⟨steps, r, hch, hlog, rfl, he⟩ := h.account hp hn hw
    exact ⟨_, steps, rfl, hch.isExact hp hparts hlog he hanswers _⟩
  refine ⟨hends, fun {pace x} h => ?_, fun hdry suspends => ?_⟩
  · rw [← (source_traced site pace o p s []).1] at h
    exact hends (source_ends hconcurrency h)
  · obtain ⟨moves, hmoves⟩ := source_comes_to_end hp hn hw hconcurrency hdry suspends s
    exact ⟨moves, fun fuel hfuel => ⟨_, (hmoves fuel hfuel).choose_spec.1⟩⟩

end Sourcing

/-! ## A plan with a fragment that failed -/

namespace Sample

/-- What is sourced: the same as before, with a text for one of the types that holds no fragment. -/
def brokenOrder : Order := { order with custom := .ofList [("Term", "?")] }

/-- The plan for the remote, in which that type is left out. -/
def brokenPlan : Plan :=
  (Plan.prepare (answering fun _ => .data description) brokenOrder ()).1.toOption.getD default

/-- What a report tells of its types: their names and statuses, and how many errors they have. -/
def statusesOf (r : Report) : List (String × Status × Nat) :=
  r.types.map fun e => (e.typeName, e.status, e.errors.length)

theorem prepare_broken :
    (Plan.prepare (answering fun _ => .data description) brokenOrder ()).1 = .ok brokenPlan :=
  eq_ok_of_isSome (by decide +kernel)

/-- The statuses that this run reports. -/
theorem statuses_of_source :
    (((Sourcing.source (answering fun _ => .data .null) ⟨true, 20⟩ brokenOrder brokenPlan ()).1.result.bind
        Except.toOption).map statusesOf)
      = some [("Node", .partly, 2), ("Term", .skipped, 1)] := by
  decide +kernel

/-- A run of this plan against a remote without any data ends, one type partial in both languages and the
other one skipped, and its report is exact. -/
theorem isExact_broken :
    ∃ report steps,
      (Sourcing.source (answering fun _ => .data .null) ⟨true, 20⟩ brokenOrder brokenPlan ()).1.result
          = some (.ok report)
        ∧ report.IsExact (answering fun _ => .data .null) brokenPlan steps
          (Sourcing.source (answering fun _ => .data .null).traced ⟨true, 20⟩ brokenOrder brokenPlan
            ((), [])).2.2
        ∧ statusesOf report = [("Node", .partly, 2), ("Term", .skipped, 1)] := by
  obtain ⟨report, hreport, hstatuses⟩ := Option.map_eq_some_iff.mp statuses_of_source
  obtain ⟨x, hx, hok⟩ := Option.bind_eq_some_iff.mp hreport
  have haccepts := declareAll_answering (fun _ => .data .null) brokenPlan.nodes.values
  obtain ⟨report', steps, rfl, hexact⟩ := (Sourcing.report_exact prepare_broken rfl rfl (by decide)
    (by decide) haccepts fun _ _ _ _ _ => nofun).2.1 hx
  cases hok
  exact ⟨report, steps, hx, hexact, hstatuses⟩

end Sample

end Harvest
