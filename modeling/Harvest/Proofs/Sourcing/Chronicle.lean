import Harvest.Proofs.Plan.Coherence
import Harvest.Proofs.Sourcing.Ending

/-!
# Chronicles

What the report of a run says of a type, what the receiver got of it and which requests were sent for
it can be told from the effects of its own task. This module brings an ending of a coherent plan down
to its types: `Sourcing.Ends.chronicle` does so for the whole run, `Chronicle.entry`,
`Chronicle.received` and `Chronicle.requests` for what can be seen from outside.

A `Chronicle` pairs a run with an interleaving of effects, each under the number of its task, and with the
log that has the announcements in front of them. The numbers are those of the types in the plan. Since no
two types of a plan have one name, each name leads to one number, so that anything that is said of a type by
its name is said of one task.
-/

namespace Harvest

open Interleaving

variable {σ : Type}

theorem Plan.Coherent.node {p : Plan} (h : p.Coherent) {d : NodeDefinition}
    (hd : d ∈ p.nodes.values) : d.Coherent where
  typeName_eq := (h.isFor d hd).typeName_eq
  contains := by
    intro l hl
    rw [Keyed.contains, (h.isFor d hd).operation_eq l hl]
    rfl

/-! ## Reports by type

Looking an entry up by the name of its type. -/

/-- The entry of a report for a type. -/
def Report.find? (r : Report) (typeName : String) : Option TypeReport :=
  r.types.find? (·.typeName = typeName)

namespace Plan

variable {p : Plan} {tasks : List Task} {d : Descriptor}

theorem typeName_reportOn (h : ∀ t ∈ tasks, t.entry.typeName = t.definition.typeName)
    (d : Descriptor) : (p.reportOn tasks d).typeName = d.typeName := by
  unfold reportOn
  split
  next t ht =>
    have hd := List.find?_some (p := fun t : Task => decide (t.definition.typeName = d.typeName)) ht
    rw [h t (List.mem_of_find?_eq_some ht)]
    exact of_decide_eq_true hd
  next => rfl
  next => rfl

/-- The report on a type that has a task is what that task tells. -/
theorem reportOn_task (hn : (tasks.map (·.definition.typeName)).Nodup) {t : Task} (ht : t ∈ tasks)
    (hd : t.definition.typeName = d.typeName) : p.reportOn tasks d = t.entry := by
  have hfind : tasks.find? (fun t => decide (t.definition.typeName = d.typeName)) = some t :=
    find?_name hn ht fun u => by rw [decide_eq_true_iff, hd]
  rw [reportOn, hfind]

theorem find?_report (h : ∀ t ∈ tasks, t.entry.typeName = t.definition.typeName)
    (hd : d ∈ p.descriptors) (cancelled : Bool) :
    (p.report tasks cancelled).find? d.typeName = some (p.reportOn tasks d) := by
  have hname : (fun e : TypeReport => decide (e.typeName = d.typeName)) ∘ p.reportOn tasks
      = fun c => decide (c.typeName = d.typeName) := by
    funext c
    rw [Function.comp_apply, typeName_reportOn h c]
  -- A report goes by the name of its type, so both searches stop at the same place.
  rw [Report.find?, report, List.find?_map, hname]
  cases hf : p.descriptors.find? (fun c => decide (c.typeName = d.typeName)) with
  | none => exact absurd (decide_eq_true rfl) (List.find?_eq_none.mp hf d hd)
  | some c =>
      have hc := of_decide_eq_true
        (List.find?_some (p := fun c : Descriptor => decide (c.typeName = d.typeName)) hf)
      rw [Option.map_some, reportOn, reportOn, hc]

end Plan

/-! ## Tasks at their ends

There are two ways for a task to be done, and each of them says what has been done before. -/

section Stands

variable {site : Site σ} {d : NodeDefinition} {n : Nat} {es : Trace} {t : Task}

theorem Behind.entry_typeName {past : List String} {e : TypeReport}
    (h : Behind site d n past es e) : e.typeName = d.typeName := by
  induction h with
  | nothing => rfl
  | @language past es e l more f _ _ ih => cases f <;> exact ih

theorem Stands.entry_typeName (h : Stands site d n es t) : t.entry.typeName = d.typeName := by
  cases h with
  | fresh => rfl
  | asking h => exact h.entry_typeName
  | closed h => exact h.entry_typeName
  | cancelled _ h => exact h.entry_typeName
  | crashed h => exact h.entry_typeName

/-- A task at its end has walked through all languages, unless it was cancelled. -/
theorem Stands.of_ended (h : Stands site d n es t) (hp : t.phase = .ended) :
    (∃ e, Behind site d n d.languages es e ∧ t.entry = e.closed)
      ∨ (site.Cancels ∧ t.entry.status = .cancelled) := by
  cases h with
  | fresh => cases hp
  | asking => cases hp
  | closed h => exact .inl ⟨_, h, rfl⟩
  | cancelled hc => exact .inr ⟨hc, rfl⟩
  | crashed => cases hp

/-- A task crashes over an answer that is not what it is taken for. -/
theorem Stands.of_crashed {f : Failure} (h : Stands site d n es t) (hp : t.phase = .crashed f) :
    ∃ l k a g, l ∈ d.languages ∧ site.Gives (d.pageRequest l n k) a
      ∧ a.reading d.document.queryField = .misused g ∧ f = .fault g
      ∧ .asked (d.pageRequest l n k) a ∈ es := by
  cases h with
  | fresh => cases hp
  | asking => cases hp
  | closed => cases hp
  | cancelled => cases hp
  | @crashed past l ls es more e k a g h hs hw hg hr =>
      cases hp
      have hl : l ∈ d.languages := hs ▸ List.mem_append_right past List.mem_cons_self
      exact ⟨l, k, a, g, hl, hg, hr, rfl, List.mem_append_right es
        (List.mem_append_right more List.mem_cons_self)⟩

end Stands

section Untraced

variable {p : Plan} {n : Nat} (site : Site σ) (permits : Nat) (s : σ) (order : List Nat)

/-! ### Runs that are not traced

What a task has done is known from a traced run, and the same run untraced has the same tasks. -/

/-- Tasks come to be the same whether what they do is written down or not. -/
theorem Plan.Coherent.accounts_of_order (hp : p.Coherent) (hn : 0 < n) :
    ∃ steps r, Accounts site n p.nodes.values steps r
      ∧ r.tasks = ((Run.start p.nodes.values permits s).acts site (.bySize n) order).tasks := by
  obtain ⟨steps, hacc, -⟩ :=
    Accounts.of_order site (fun d hd => hp.node hd) hn permits (s, []) order
  refine ⟨steps, _, hacc, ?_⟩
  exact congrArg Run.tasks
    (Run.untraced_acts site (.bySize n) (.start p.nodes.values permits (s, [])) order)

theorem Plan.Coherent.stands_of_order (hp : p.Coherent) (hn : 0 < n) :
    ∀ t ∈ ((Run.start p.nodes.values permits s).acts site (.bySize n) order).tasks,
      ∃ d ∈ p.nodes.values, ∃ es, Stands site d n es t := by
  intro t ht
  obtain ⟨steps, r, hacc, hsame⟩ := hp.accounts_of_order site permits s order hn
  obtain ⟨i, d, hd, hst⟩ := hacc.task_of_mem (hsame ▸ ht)
  exact ⟨d, List.mem_of_getElem? hd, _, hst⟩

/-- Each type has its task at its own place. -/
theorem Plan.Coherent.stands_at (hp : p.Coherent) (hn : 0 < n) {i : Nat} {d : NodeDefinition}
    (hd : p.nodes.values[i]? = some d) :
    ∃ t es, ((Run.start p.nodes.values permits s).acts site (.bySize n) order).tasks[i]? = some t
      ∧ Stands site d n es t := by
  obtain ⟨steps, r, hacc, hsame⟩ := hp.accounts_of_order site permits s order hn
  obtain ⟨t, ht, hst⟩ := hacc.stands hd
  exact ⟨t, _, hsame ▸ ht, hst⟩

end Untraced

/-! ## Runs and their types

One place for each type: its task, its effects, its entry. -/

/-- What can be told of a run of a plan from its effects. -/
structure Chronicle (site : Site σ) (n : Nat) (p : Plan) (steps : Interleaving Effect)
    (r : Run (σ × Trace)) (log : Trace) : Prop where
  accounts : Accounts site n p.nodes.values steps r
  log_eq : ∃ announced : List NodeDefinition, log = announced.map .declared ++ merged steps

/-- **Every ending of a coherent plan comes from tasks that stand well with what they have done.** -/
theorem Sourcing.Ends.chronicle {site : Site σ} {o : Order} {p : Plan} {n : Nat} (hp : p.Coherent)
    (hn : 0 < n) (hw : o.walking = .bySize n) {s s' : σ} {x : Except Failure Report} {log : Trace}
    (ha : (site.declareAll p.nodes.values s).1 = .ok ())
    (h : Ends site.traced o p (s, []) x (s', log)) :
    ∃ steps r, Chronicle site n p steps r log
      ∧ ((∃ f, x = .error f ∧ r.Crashed f)
        ∨ x = .ok (p.report r.tasks (site.cancelled s')) ∧ ∀ t ∈ r.tasks, t.phase = .ended) := by
  obtain ⟨announced, -, -, hd⟩ := site.declareAll_traced p.nodes.values s []
  rw [ha, List.nil_append] at hd
  -- the record of any order of moves, for the two ways in which the tasks can end
  have go {x₁ : σ × Trace} {order : List Nat} {r : Run (σ × Trace)}
      (h₁ : site.traced.declareAll p.nodes.values (s, []) = (.ok (), x₁))
      (hr : r = (tasksOf o p x₁).acts site.traced o.walking order) :
      ∃ steps, Chronicle site n p steps r r.world.2 := by
    rw [h₁] at hd
    cases hd
    rw [hw] at hr
    obtain ⟨steps, hacc, hlog⟩ := Accounts.of_order site (fun d hd => hp.node hd) hn
      o.config.concurrency.toNat ((site.declareAll p.nodes.values s).2, announced.map .declared) order
    subst hr
    exact ⟨steps, hacc, announced, hlog⟩
  generalize hx : (s', log) = y at h
  cases h with
  | refused h₁ =>
      rw [h₁] at hd
      cases hd
  | @crashed x₁ order r f h₁ hr hc =>
      obtain ⟨steps, ho⟩ := go h₁ hr
      rw [← hx] at ho
      exact ⟨steps, r, ho, .inl ⟨f, rfl, hc⟩⟩
  | @ended x₁ order r h₁ hr he =>
      obtain ⟨steps, ho⟩ := go h₁ hr
      rw [← hx] at ho
      refine ⟨steps, r, ho, .inr ⟨?_, he⟩⟩
      rw [← hx]
      rfl

namespace Chronicle

variable {site : Site σ} {n : Nat} {p : Plan} {steps : Interleaving Effect} {r : Run (σ × Trace)}
  {log : Trace} {i : Nat} {d : NodeDefinition}

theorem entry_typeName (h : Chronicle site n p steps r log) :
    ∀ t ∈ r.tasks, t.entry.typeName = t.definition.typeName := by
  intro t ht
  obtain ⟨i, d, -, hst⟩ := h.accounts.task_of_mem ht
  rw [hst.entry_typeName, hst.definition_eq]

theorem definitions_eq (h : Chronicle site n p steps r log) :
    r.tasks.map (·.definition) = p.nodes.values := by
  refine List.ext_getElem ?_ fun i h₁ h₂ => ?_
  · rw [List.length_map, h.accounts.length_eq]
  · obtain ⟨t, ht, hst⟩ := h.accounts.stands (List.getElem?_eq_getElem h₂)
    rw [List.getElem_map, (List.getElem?_eq_some_iff.mp ht).2]
    exact hst.definition_eq

theorem typeNames_nodup (hp : p.Coherent) (h : Chronicle site n p steps r log) :
    (r.tasks.map (·.definition.typeName)).Nodup := by
  have hn := hp.nodup
  rw [← h.definitions_eq, List.map_map] at hn
  exact hn

/-- What the report says of a type is what its task tells. -/
theorem entry (hp : p.Coherent) (h : Chronicle site n p steps r log)
    (hd : p.nodes.values[i]? = some d) (cancelled : Bool) :
    ∃ t, Stands site d n (own i steps) t ∧ t ∈ r.tasks
      ∧ (p.report r.tasks cancelled).find? d.typeName = some t.entry := by
  obtain ⟨t, ht, hst⟩ := h.accounts.stands hd
  have hmem := List.mem_of_getElem? ht
  refine ⟨t, hst, hmem, ?_⟩
  have he := Plan.find?_report (p := p) h.entry_typeName
    (hp.descriptor_mem d (List.mem_of_getElem? hd)) cancelled
  have ht' : p.reportOn r.tasks d.descriptor = t.entry :=
    Plan.reportOn_task (h.typeNames_nodup hp) hmem (by rw [hst.definition_eq]; rfl)
  rw [ht'] at he
  exact he

theorem getElem?_of_own (h : Chronicle site n p steps r log) {x : Effect} (hx : x ∈ own i steps) :
    ∃ d t, p.nodes.values[i]? = some d ∧ r.tasks[i]? = some t
      ∧ Stands site d n (own i steps) t := by
  have hi : i < p.nodes.values.length := h.accounts.bounded _ (mem_of_mem_own hx)
  obtain ⟨t, ht, hst⟩ := h.accounts.stands (List.getElem?_eq_getElem hi)
  exact ⟨_, t, List.getElem?_eq_getElem hi, ht, hst⟩

/-- **The records of a type come from its own task**, in the order in which it handed them over. -/
theorem received (hp : p.Coherent) (h : Chronicle site n p steps r log)
    (hd : p.nodes.values[i]? = some d) :
    log.received d.typeName = Trace.received d.typeName (own i steps) := by
  obtain ⟨announced, rfl⟩ := h.log_eq
  have hnone : Trace.received d.typeName (announced.map .declared) = [] :=
    List.filterMap_eq_nil_iff.mpr fun x hx => by
      obtain ⟨c, -, rfl⟩ := List.mem_map.mp hx
      rfl
  rw [Trace.received_append, hnone, List.nil_append]
  -- Another task hands over nothing of this type, as names of types are different.
  apply filterMap_merged _ i
  intro j hj x hx
  obtain ⟨c, t, hc, -, hst⟩ := h.getElem?_of_own hx
  cases hst.of x hx with
  | asked => rfl
  | emitted e =>
      refine if_neg fun hname => hj ?_
      obtain rfl : c = d :=
        List.inj_on_of_nodup_map hp.nodup (List.mem_of_getElem? hc) (List.mem_of_getElem? hd) hname
      have hj := (List.getElem?_eq_some_iff.mp hc).1
      exact (List.getElem?_inj hj (hp.nodup.of_map _)).mp (hc.trans hd.symm)

/-- **All requests are those of the tasks**, in another order. -/
theorem requests (h : Chronicle site n p steps r log) {f : NodeDefinition → List Request}
    (hf : ∀ {i d}, p.nodes.values[i]? = some d → Trace.requests (own i steps) = f d) :
    log.requests.Perm (p.nodes.values.flatMap f) := by
  obtain ⟨announced, rfl⟩ := h.log_eq
  have hnone : Trace.requests (announced.map .declared) = [] :=
    List.filterMap_eq_nil_iff.mpr fun x hx => by
      obtain ⟨c, -, rfl⟩ := List.mem_map.mp hx
      rfl
  rw [Trace.requests_append, hnone, List.nil_append]
  have hperm := (merged_perm h.accounts.bounded).filterMap Effect.request?
  rw [List.filterMap_flatMap] at hperm
  have hmap : ((List.range p.nodes.values.length).map fun i => Trace.requests (own i steps))
      = p.nodes.values.map f := by
    refine List.ext_getElem (by rw [List.length_map, List.length_map, List.length_range])
      fun i h₁ h₂ => ?_
    rw [List.length_map] at h₂
    rw [List.getElem_map, List.getElem_map, List.getElem_range]
    exact hf (List.getElem?_eq_getElem h₂)
  rw [List.flatMap_def, ← hmap]
  exact hperm

end Chronicle

end Harvest
