import Harvest.Proofs.Sourcing.Chronicle

/-!
# Solo runs

`Task.solo` sources one type by itself: the outcomes of its requests are the members of a sequence, and
nothing cancels it. A task that has got the same answers, among whatever other tasks, has done what the
solo run does up to some point. So the solo run says how such a task would go on.

The sequence is followed by the answers that a task has got, whatever they were answers to: `Trace.Follows`
is only about the answers and their order. Where a task stands is translated into where the solo run stands
after the same answers, `Task.Begins` between two languages and `Task.Asks` within one. At the end of a task
this says what the solo run does altogether (`Behind.solo_closed`), and for a task that was told to stop it
says that the solo run goes on (`Walking.solo_goesOn`).
-/

namespace Harvest

variable {σ : Type}

/-- The site at which the outcomes of requests are the members of a sequence, whatever they ask for. Its
world is the number of the requests. -/
def Site.script (outcomes : Nat → Answer) : Site Nat :=
  { ask := fun _ k => (outcomes k, k + 1)
    cancelled := fun _ => false
    declare := fun _ k => (.ok (), k)
    emit := fun _ _ k => k
    cache := fun _ => ⟨.memory .empty, .empty⟩
    keep := fun _ k => k }

/-- The task of a type after so many moves by itself, with all that it has done. -/
def Task.solo (d : NodeDefinition) (n : Nat) (outcomes : Nat → Answer) : Nat → Task × (Nat × Trace)
  | 0 => (.fresh d, (0, []))
  | j + 1 =>
    (solo d n outcomes j).1.move (Site.script outcomes).traced (.bySize n) (solo d n outcomes j).2

/-- The answer that came. -/
def Effect.answer? : Effect → Option Answer
  | .asked _ a => some a
  | _ => none

namespace Trace

/-- The answers of a trace. -/
def answers (es : Trace) : List Answer := es.filterMap Effect.answer?

@[simp] theorem answers_append (es more : Trace) :
    answers (es ++ more) = answers es ++ answers more := List.filterMap_append

@[simp] theorem answers_asked (r : Request) (a : Answer) (es : Trace) :
    answers (.asked r a :: es) = a :: answers es := rfl

@[simp] theorem answers_emitted (d : NodeDefinition) (rs : List EntityRecord) :
    answers (rs.map (.emitted d)) = [] := by
  induction rs with
  | nil => rfl
  | cons r rs ih => exact ih

/-- Whether the answers of a trace are the first members of a sequence. -/
def Follows (es : Trace) (outcomes : Nat → Answer) : Prop :=
  ∀ k a, es.answers[k]? = some a → outcomes k = a

/-- The first answers follow a sequence if all of them do. -/
theorem Follows.left {es more : Trace} {outcomes : Nat → Answer}
    (h : Follows (es ++ more) outcomes) : es.Follows outcomes := by
  intro k a hk
  refine h k a ?_
  rw [answers_append, List.getElem?_append_left (List.getElem?_eq_some_iff.mp hk).1]
  exact hk

/-- The answer after some others is the next member of the sequence. -/
theorem Follows.answer {es more : Trace} {outcomes : Nat → Answer} {r : Request} {a : Answer}
    (h : Follows (es ++ .asked r a :: more) outcomes) : outcomes es.answers.length = a := by
  refine h _ a ?_
  rw [answers_append, answers_asked, List.getElem?_append_right (Nat.le_refl _), Nat.sub_self]
  rfl

end Trace

/-- The effects of a page are its request and its records. -/
theorem NodeDefinition.append_pageEffects (d : NodeDefinition) (l : String) (n k : Nat) (a : Answer)
    (vs : List Value) (es : Trace) :
    es ++ d.pageEffects l n k a vs
      = es ++ [.asked (d.pageRequest l n k) a] ++ (d.records l vs).map (.emitted d) := by
  rw [pageEffects, List.append_assoc, List.singleton_append]

/-- A page is one answer more. -/
theorem NodeDefinition.length_answers_pageEffects (d : NodeDefinition) (l : String) (n k : Nat) (a : Answer)
    (vs : List Value) (es : Trace) :
    (es ++ d.pageEffects l n k a vs).answers.length = es.answers.length + 1 := by
  rw [Trace.answers_append, pageEffects, Trace.answers_asked, Trace.answers_emitted,
    List.length_append]
  rfl

/-! ## Moves of a solo run

The site of a solo run counts the requests and answers each by the member with its number. -/

namespace Task

variable {d : NodeDefinition} {n : Nat} {outcomes : Nat → Answer} {t : Task} {es : Trace} {q j : Nat}

/-! ### One move after the other

The site of a script answers in turn and remembers nothing but the number of its answers, so a solo run is
the same function of the script for every task. -/

theorem emitAll_script (rs : List EntityRecord) :
    (Site.script outcomes).traced.emitAll d rs (q, es) = (q, es ++ rs.map (.emitted d)) := by
  have h : (Site.script outcomes).emitAll d rs q = q := by
    induction rs with
    | nil => rfl
    | cons r rs ih => exact ih
  rw [Site.emitAll_traced, h]

/-- A walk with a page to come asks for it. -/
theorem follow_script {l : String} {k : Nat} (hop : d.document.operations.contains l = true) :
    follow (Site.script outcomes).traced t (d.walkAt l n k) (q, es)
      = ({ t with phase := .asking (d.walkAt l n k) (outcomes q) },
          (q + 1, es ++ [.asked (d.pageRequest l n k) (outcomes q)])) :=
  follow_ask rfl rfl (NodeDefinition.request_walkAt hop)

theorem solo_succ : solo d n outcomes (j + 1)
    = (solo d n outcomes j).1.move (Site.script outcomes).traced (.bySize n) (solo d n outcomes j).2 := rfl

/-- What a solo run has done stays done. -/
theorem solo_prefix {i : Nat} (h : i ≤ j) :
    (solo d n outcomes i).2.2 <+: (solo d n outcomes j).2.2 := by
  induction h with
  | refl => exact List.prefix_refl _
  | @step j _ ih =>
      refine ih.trans ?_
      obtain ⟨⟨t, q, es⟩, hx⟩ : ∃ x, solo d n outcomes j = x := ⟨_, rfl⟩
      rw [solo_succ, hx]
      dsimp only
      rw [move_traced]
      exact List.prefix_append _ _

/-- A solo run that is done does nothing more. -/
theorem solo_of_isDone {i : Nat} (hd : (solo d n outcomes i).1.isDone = true) (h : i ≤ j) :
    solo d n outcomes j = solo d n outcomes i := by
  induction h with
  | refl => rfl
  | step _ ih =>
      rw [solo_succ, ih, move_of_isDone _ _ _ _ hd]

/-- The languages that are left after some were walked through begin as they do in a solo run. -/
def Begins (d : NodeDefinition) (n : Nat) (outcomes : Nat → Answer) (e : TypeReport) (es : Trace)
    (ls : List String) : Prop :=
  ∃ j, solo d n outcomes j
    = beginLanguages (Site.script outcomes).traced (.bySize n) ⟨d, ls, e, .between⟩ ls (es.answers.length, es)

/-- A solo run comes to ask for a page. -/
def Asks (d : NodeDefinition) (n : Nat) (outcomes : Nat → Answer) (e : TypeReport) (es : Trace)
    (l : String) (ls : List String) (k : Nat) : Prop :=
  ∃ j, solo d n outcomes j
    = (⟨d, ls, e, .asking (d.walkAt l n k) (outcomes es.answers.length)⟩,
        (es.answers.length + 1, es ++ [.asked (d.pageRequest l n k) (outcomes es.answers.length)]))

/-! ### Coming to a request -/

theorem begins_fresh : Begins d n outcomes (.fresh d.typeName) [] d.languages :=
  ⟨1, (beginLanguages_phase _ _ (Task.fresh d) (0, []) .between d.languages).symm⟩

theorem Begins.asks {e : TypeReport} {l : String} {ls : List String}
    (h : Begins d n outcomes e es (l :: ls)) (hop : d.document.operations.contains l = true) :
    Asks d n outcomes e es l ls 0 := by
  obtain ⟨j, hj⟩ := h
  rw [beginLanguages_cons] at hj
  exact ⟨j, hj.trans (follow_script (t := ⟨d, ls, e, .between⟩) (k := 0) hop)⟩

variable {a : Answer} {vs : List Value} {l : String} {ls : List String} {k : Nat} {e : TypeReport}

/-- After a full page a solo run asks for the next one. -/
theorem Asks.full (hn : 0 < n) (hop : d.document.operations.contains l = true)
    (h : Asks d n outcomes e es l ls k) (ha : outcomes es.answers.length = a)
    (hr : a.reading d.document.queryField = .items vs) (hv : n ≤ vs.length) :
    Asks d n outcomes (e.withRecords (d.records l vs).length) (es ++ d.pageEffects l n k a vs) l ls
      (k + 1) := by
  obtain ⟨j, hj⟩ := h
  refine ⟨j + 1, ?_⟩
  rw [solo_succ, hj, ha, move]
  dsimp only
  rw [resume_full _ _ (NodeDefinition.receive_full hn hr hv) rfl, emitAll_script, follow_script hop,
    NodeDefinition.length_answers_pageEffects, NodeDefinition.append_pageEffects]

/-- After a short page a solo run begins the languages that are left. -/
theorem Asks.short (hn : 0 < n) (h : Asks d n outcomes e es l ls k)
    (ha : outcomes es.answers.length = a) (hr : a.reading d.document.queryField = .items vs)
    (hv : vs.length < n) :
    Begins d n outcomes (e.withRecords (d.records l vs).length) (es ++ d.pageEffects l n k a vs) ls := by
  obtain ⟨j, hj⟩ := h
  refine ⟨j + 1, ?_⟩
  obtain ⟨next, hrec, hnext⟩ := NodeDefinition.receive_short (l := l) (k := k) hn hr hv
  rw [solo_succ, hj, ha, move]
  dsimp only
  rw [resume_last _ _ hrec hnext, emitAll_script, NodeDefinition.length_answers_pageEffects,
    NodeDefinition.append_pageEffects]
  exact (beginLanguages_phase _ _ _ _ .between ls).symm

/-- So it does after a page that was not fetched. -/
theorem Asks.unfetched {p : FetchProblem} (h : Asks d n outcomes e es l ls k)
    (ha : outcomes es.answers.length = a) (hr : a.reading d.document.queryField = .unfetched p) :
    Begins d n outcomes (e.withError (d.fetchFailure l n k p).message)
      (es ++ [.asked (d.pageRequest l n k) a]) ls := by
  obtain ⟨j, hj⟩ := h
  refine ⟨j + 1, ?_⟩
  have hlen : (es ++ [Effect.asked (d.pageRequest l n k) a] : Trace).answers.length
      = es.answers.length + 1 := by
    rw [Trace.answers_append, List.length_append]
    rfl
  rw [solo_succ, hj, ha, move]
  dsimp only
  rw [resume_unfetched _ _ (NodeDefinition.receive_unfetched hr), hlen]
  exact (beginLanguages_phase _ _ _ _ .between ls).symm

end Task

/-! ## Tasks and solo runs

From what a task has done to the state of the solo run with the same answers. -/

section Solo

variable {site : Site σ} {d : NodeDefinition} {n : Nat} {outcomes : Nat → Answer} {l : String}
  {ls past : List String} {es more : Trace} {e : TypeReport}

/-- A walk that has got the same answers asks for the same page as in a solo run. -/
theorem Walking.asks (hn : 0 < n) (hop : d.document.operations.contains l = true) {k : Nat}
    (h : Walking site d n l k more) (hb : Task.Begins d n outcomes e es (l :: ls))
    (hf : Trace.Follows (es ++ more) outcomes) :
    Task.Asks d n outcomes (e.withRecords more.emissions) (es ++ more) l ls k := by
  induction h with
  | begun =>
      rw [List.append_nil]
      exact hb.asks hop
  | @page k more a vs h hg hr hv ih =>
      rw [← List.append_assoc] at hf ⊢
      have := (ih hf.left).full hn hop hf.answer hr hv
      rwa [TypeReport.withRecords_withRecords, ← NodeDefinition.emissions_pageEffects d l n k a vs,
        ← Trace.emissions_append] at this

/-- A task that has walked through some languages and got the same answers has done what the solo run
does until it begins those that are left. -/
theorem Behind.begins (hd : d.Coherent) (hn : 0 < n) (h : Behind site d n past es e)
    (hs : d.languages = past ++ ls) (hf : es.Follows outcomes) : Task.Begins d n outcomes e es ls := by
  induction h generalizing ls with
  | nothing =>
      rw [List.nil_append] at hs
      rw [← hs]
      exact Task.begins_fresh
  | @language past es e l more f h hw ih =>
      rw [List.append_assoc] at hs
      have hop : d.document.operations.contains l = true :=
        hd.contains l (hs ▸ List.mem_append_right past List.mem_cons_self)
      have hb := ih hs hf.left
      cases hw with
      | @short k more a vs hw hg hr hv =>
          rw [← List.append_assoc] at hf ⊢
          have := (hw.asks hn hop hb hf.left).short hn hf.answer hr hv
          rwa [TypeReport.withRecords_withRecords, ← NodeDefinition.emissions_pageEffects d l n k a vs,
            ← Trace.emissions_append] at this
      | @unfetched k more a p hw hg hr =>
          rw [← List.append_assoc] at hf ⊢
          have := (hw.asks hn hop hb hf.left).unfetched hf.answer hr
          rw [TypeReport.afterWalk, Trace.emissions_append]
          exact this

/-- A task that has walked through all languages has done what the solo run does altogether. -/
theorem Behind.solo_closed (hd : d.Coherent) (hn : 0 < n) (h : Behind site d n d.languages es e)
    (hf : es.Follows outcomes) :
    ∃ j, Task.solo d n outcomes j = (⟨d, [], e.closed, .ended⟩, (es.answers.length, es)) :=
  h.begins hd hn (List.append_nil _).symm hf

/-- Where a task was told to go no further, the solo run sends another request. -/
theorem Walking.solo_goesOn (hd : d.Coherent) (hn : 0 < n) (h : Behind site d n past es e)
    (hs : d.languages = past ++ l :: ls) {k : Nat} (hw : Walking site d n l k more)
    (hf : Trace.Follows (es ++ more) outcomes) :
    ∃ j r a, (Task.solo d n outcomes j).2.2 = es ++ more ++ [.asked r a] := by
  have hop : d.document.operations.contains l = true :=
    hd.contains l (hs ▸ List.mem_append_right past List.mem_cons_self)
  obtain ⟨j, hj⟩ := hw.asks hn hop (h.begins hd hn hs hf.left) hf
  exact ⟨j, _, _, by rw [hj]⟩

end Solo

end Harvest
