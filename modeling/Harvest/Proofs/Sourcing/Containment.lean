import Harvest.Proofs.Sourcing.Progress

/-!
# Containment of failures

An answer from which no page can be taken ends one language of one type. The only answers that do more
than that are those whose `entities` are the truth value true or a number other than zero: nothing lists
such a value, and the fault that comes of it ends the whole run. `failures_contained` says that this is
the exact line between the two.

The proof goes up in three steps. For one answer, `Answer.reading` has three results, and each of them is
told by a look at the value under the query field. For one walk, `Walk.run_fault_iff` says that it fails
beyond its language exactly if one of its answers is unlistable. For one run, the answers of a task are
taken from its trace: a task that has ended got none of that kind (`Stands.lists`), and whether a language
went to its end can be told from the answers of its walk (`Walked.eq_none_iff`).

All of this is for any schedule and any moment of cancellation; a type that was cancelled is the only one of
which nothing more is said.
-/

namespace Harvest

variable {σ : Type}

/-! ## Kinds of answers

An answer is unlistable, or unusable, or it has a page with items. The lemmas go from each kind to the
reading and back. -/

/-- Whether a value counts as present and yet has no items. Of what JSON text denotes, these are the
truth value true and the numbers other than zero. -/
def Value.isUnlistable : Value → Bool
  | .atom a =>
    match a with
    | .null => false
    | .bool b => b
    | .int i => i != 0
    | .float x => !x.isZero
    | .str _ => false
    | .bytes _ => false
    | .date _ => true
    | .time _ => true
  | .list _ => false
  | .object _ => false
  | .set es => !es.isEmpty
  | _ => true

namespace Answer

/-- Whether the items of a page are asked of a value that has none. -/
def isUnlistable (queryField : String) : Answer → Bool
  | .data v =>
    match v.field? queryField with
    | some (.object ms) => (Members.field ms entitiesField).isUnlistable
    | _ => false
  | _ => false

/-- Whether no page can be taken from an answer: it is an error, or there is no object under the query
field. -/
def isUnusable (queryField : String) : Answer → Bool
  | .failed _ => true
  | .broken _ => false
  | .data v =>
    match v.field? queryField with
    | some (.object _) => false
    | _ => true

/-- Whether an answer is data or the error of a remote. -/
def isOrderly : Answer → Bool
  | .broken _ => false
  | _ => true

end Answer

/-! ### Items

The items of a page are listed under `entities`. What counts as false is passed over, and what is left is
listed; only the truth value true and numbers cannot be. -/

theorem entries_of_isUnlistable {v : Value} (h : v.isUnlistable = true) :
    v.isTruthy = true ∧ LimitOffset.entries v = .error .kind := by
  cases v with
  | atom a =>
      cases a with
      | null => cases h
      | str s => cases h
      | bytes bs => cases h
      | _ => exact ⟨h, rfl⟩
  | list vs => cases h
  | object ms => cases h
  | _ => exact ⟨h, rfl⟩

/-- Whatever counts as present and is not of that kind has items. -/
theorem entries_of_not_isUnlistable {v : Value} (h : v.isUnlistable = false) (ht : v.isTruthy = true) :
    ∃ vs, LimitOffset.entries v = .ok vs := by
  cases v with
  | atom a =>
      cases a with
      | str s => exact ⟨_, rfl⟩
      | bytes bs => exact ⟨_, rfl⟩
      | null => cases ht
      | _ =>
          have := ht.symm.trans h
          cases this
  | list vs => exact ⟨_, rfl⟩
  | object ms => exact ⟨_, rfl⟩
  | _ =>
      have := ht.symm.trans h
      cases this

/-- The items of an object cannot be listed if its entities cannot. -/
theorem items_of_isUnlistable {ms : Members}
    (h : (Members.field ms entitiesField).isUnlistable = true) :
    LimitOffset.items (.object ms) = .error .kind := by
  obtain ⟨ht, he⟩ := entries_of_isUnlistable h
  cases ms with
  | nil => cases h
  | cons m ms =>
      have hpage : (Value.object (m :: ms)).isTruthy = true := rfl
      rw [LimitOffset.items, hpage]
      dsimp only
      rw [ht]
      exact he

/-- The items of an object can be listed otherwise; there may be none. -/
theorem items_of_not_isUnlistable {ms : Members}
    (h : (Members.field ms entitiesField).isUnlistable = false) :
    ∃ vs, LimitOffset.items (.object ms) = .ok vs := by
  cases ms with
  | nil => exact ⟨[], rfl⟩
  | cons m ms =>
      have hpage : (Value.object (m :: ms)).isTruthy = true := rfl
      rw [LimitOffset.items, hpage]
      dsimp only
      cases ht : (Members.field (m :: ms) entitiesField).isTruthy with
      | false => exact ⟨[], rfl⟩
      | true => exact entries_of_not_isUnlistable h ht

namespace Answer

variable {queryField : String} {a : Answer}

/-! ### Readings

Each kind of answer has its reading, and since every answer is of one of the kinds, the reading tells the
kind. -/

/-- An answer that cannot be listed is a misuse. -/
theorem reading_of_isUnlistable (h : a.isUnlistable queryField = true) :
    a.reading queryField = .misused .kind := by
  unfold isUnlistable at h
  unfold reading
  cases a with
  | failed e => cases h
  | broken f => cases h
  | data v =>
      dsimp only at h ⊢
      split at h
      next ms hf =>
        rw [hf]
        dsimp only
        rw [items_of_isUnlistable h]
      next => cases h

/-- An answer without a page is one that was not fetched. -/
theorem reading_of_isUnusable (h : a.isUnusable queryField = true) :
    ∃ p, a.reading queryField = .unfetched p := by
  unfold isUnusable at h
  unfold reading
  cases a with
  | failed e => exact ⟨_, rfl⟩
  | broken f => cases h
  | data v =>
      dsimp only at h ⊢
      split
      next => exact ⟨_, rfl⟩
      next => exact ⟨_, rfl⟩
      next ms hf =>
        rw [hf] at h
        cases h
      next => exact ⟨_, rfl⟩

/-- All other answers have items. -/
theorem reading_of_items (ho : a.isOrderly = true) (hl : a.isUnlistable queryField = false)
    (hu : a.isUnusable queryField = false) : ∃ vs, a.reading queryField = .items vs := by
  unfold isUnlistable at hl
  unfold isUnusable at hu
  unfold reading
  cases a with
  | failed e => cases hu
  | broken f => cases ho
  | data v =>
      dsimp only at hl hu ⊢
      split at hu
      next ms hf =>
        rw [hf] at hl ⊢
        dsimp only at hl ⊢
        obtain ⟨vs, hvs⟩ := items_of_not_isUnlistable hl
        exact ⟨vs, by rw [hvs]⟩
      next => cases hu

/-- Where items were read, they could be listed. -/
theorem isUnlistable_of_items {vs : List Value} (h : a.reading queryField = .items vs) :
    a.isUnlistable queryField = false := by
  by_contra hl
  rw [reading_of_isUnlistable (Bool.not_eq_false _ ▸ hl)] at h
  cases h

theorem isUnusable_of_items {vs : List Value} (h : a.reading queryField = .items vs) :
    a.isUnusable queryField = false := by
  by_contra hu
  obtain ⟨p, hp⟩ := reading_of_isUnusable (Bool.not_eq_false _ ▸ hu)
  rw [hp] at h
  cases h

theorem isUnlistable_of_unfetched {p : FetchProblem} (h : a.reading queryField = .unfetched p) :
    a.isUnlistable queryField = false := by
  by_contra hl
  rw [reading_of_isUnlistable (Bool.not_eq_false _ ▸ hl)] at h
  cases h

/-- An answer from which no page was taken is an error or has no page. -/
theorem isUnusable_of_unfetched {p : FetchProblem} (ho : a.isOrderly = true)
    (h : a.reading queryField = .unfetched p) : a.isUnusable queryField = true := by
  by_contra hu
  cases hl : a.isUnlistable queryField with
  | true =>
      rw [reading_of_isUnlistable hl] at h
      cases h
  | false =>
      obtain ⟨vs, hvs⟩ := reading_of_items ho hl (Bool.eq_false_iff.mpr hu)
      rw [hvs] at h
      cases h

/-- There is no other misuse of an answer than to list what cannot be listed. -/
theorem isUnlistable_of_misused {f : Fault} (ho : a.isOrderly = true)
    (h : a.reading queryField = .misused f) : f = .kind ∧ a.isUnlistable queryField = true := by
  cases hl : a.isUnlistable queryField with
  | true =>
      rw [reading_of_isUnlistable hl] at h
      cases h
      exact ⟨rfl, rfl⟩
  | false =>
      cases hu : a.isUnusable queryField with
      | true =>
          obtain ⟨p, hp⟩ := reading_of_isUnusable hu
          rw [hp] at h
          cases h
      | false =>
          obtain ⟨vs, hvs⟩ := reading_of_items ho hl hu
          rw [hvs] at h
          cases h

end Answer

/-! ## One walk

A walk by limit and offset that keeps its answers. It goes on as long as pages come, so the induction is on
the turns. -/

/-- Whether a failure stays with one language of one type. -/
def Failure.isScoped : Failure → Bool
  | fetch .. => true
  | cancelled .. => true
  | _ => false

/-- The surroundings that keep a list of the answers. -/
def Surroundings.traced (around : Surroundings σ) : Surroundings (σ × List Answer) where
  ask r x := ((around.ask r x.1).1, ((around.ask r x.1).2, x.2 ++ [(around.ask r x.1).1]))
  cancelled x := around.cancelled x.1
  emit e x := (around.emit e x.1, x.2)

/-- Records that are handed over leave the list of answers alone. -/
theorem emit_traced (around : Surroundings σ) (rs : List EntityRecord) (s : σ)
    (answers : List Answer) :
    rs.foldl (fun x r => around.traced.emit r x) (s, answers)
      = (rs.foldl (fun s r => around.emit r s) s, answers) := by
  induction rs generalizing s with
  | nil => rfl
  | cons r rs ih => exact ih (around.emit r s)

/-- A walk without a page to come ends well. -/
theorem run_finished {around : Surroundings σ} {w : Walk} (hw : w.state.hasNext = false)
    {fuel : Nat} {s s' : σ} {x : Except Failure Unit} (h : w.run around fuel s = (some x, s')) :
    s' = s ∧ x = .ok () := by
  cases fuel with
  | zero => cases h
  | succ fuel =>
      rw [Walk.run, Walk.turn_finished hw] at h
      cases h
      exact ⟨rfl, rfl⟩

/-- **A walk fails beyond its language exactly if it gets an answer with items that cannot be
listed.** -/
theorem run_fault_iff {around : Surroundings σ}
    (ho : ∀ r s, (around.ask r s).1.isOrderly = true) {d : NodeDefinition} {l : String} {n : Nat}
    (hn : 0 < n) (hop : d.document.operations.contains l = true) {fuel k : Nat} {s s' : σ}
    {before answers : List Answer} {x : Except Failure Unit}
    (h : (d.walkAt l n k).run around.traced fuel (s, before) = (some x, (s', answers))) :
    ∃ more, answers = before ++ more
      ∧ (∀ e, x = .error e → e.isScoped = true ∨ e = .fault .kind)
      ∧ (x = .error (.fault .kind) ↔ ∃ a ∈ more, a.isUnlistable d.document.queryField = true) := by
  -- The fuel is spent page by page; only a full page leads on to another one.
  induction fuel generalizing k s before with
  | zero => cases h
  | succ fuel ih =>
      rw [Walk.run] at h
      cases hc : around.cancelled s with
      | true =>
          have hc' : around.traced.cancelled (s, before) = true := hc
          rw [hc', Walk.turn_cancelled rfl] at h
          cases h
          refine ⟨[], (List.append_nil _).symm, fun e he => ?_, ⟨fun he => ?_, ?_⟩⟩
          · cases he
            exact .inl rfl
          · cases he
          · rintro ⟨a, ha, -⟩
            cases ha
      | false =>
          have hc' : around.traced.cancelled (s, before) = false := hc
          rw [hc', Walk.turn_ask rfl (NodeDefinition.request_walkAt hop)] at h
          obtain ⟨⟨a, s₁⟩, ha⟩ : ∃ x, around.ask (d.pageRequest l n k) s = x := ⟨_, rfl⟩
          have horderly : a.isOrderly = true := by
            have := ho (d.pageRequest l n k) s
            rw [ha] at this
            exact this
          have hask : around.traced.ask (d.pageRequest l n k) (s, before) = (a, (s₁, before ++ [a])) := by
            show ((around.ask _ s).1, ((around.ask _ s).2, before ++ [(around.ask _ s).1])) = _
            rw [ha]
          dsimp only at h
          rw [hask] at h
          dsimp only at h
          rw [emit_traced] at h
          cases hr : a.reading d.document.queryField with
          | items vs =>
              have hlist := Answer.isUnlistable_of_items hr
              by_cases hv : n ≤ vs.length
              · rw [NodeDefinition.receive_full hn hr hv] at h
                obtain ⟨more, rfl, hscoped, hiff⟩ := ih h
                refine ⟨a :: more, List.append_assoc .., hscoped, ?_⟩
                rw [List.exists_mem_cons_iff, hlist, hiff, or_iff_right Bool.false_ne_true]
              · obtain ⟨next, hrec, hnext⟩ :=
                  NodeDefinition.receive_short (l := l) (k := k) hn hr (Nat.lt_of_not_le hv)
                rw [hrec] at h
                obtain ⟨heq, rfl⟩ := run_finished hnext h
                cases heq
                refine ⟨[a], rfl, fun e he => ?_, ⟨fun he => ?_, ?_⟩⟩
                · cases he
                · cases he
                · rintro ⟨b, hb, hl⟩
                  cases List.mem_singleton.mp hb
                  rw [hlist] at hl
                  cases hl
          | unfetched p =>
              rw [NodeDefinition.receive_unfetched hr] at h
              cases h
              refine ⟨[a], rfl, fun e he => ?_, ⟨fun he => ?_, ?_⟩⟩
              · cases he
                exact .inl rfl
              · cases he
              · rintro ⟨b, hb, hl⟩
                cases List.mem_singleton.mp hb
                rw [Answer.isUnlistable_of_unfetched hr] at hl
                cases hl
          | misused f =>
              obtain ⟨rfl, hl⟩ := Answer.isUnlistable_of_misused horderly hr
              rw [NodeDefinition.receive_misused hr] at h
              cases h
              refine ⟨[a], rfl, ?_, fun _ => ⟨a, List.mem_singleton_self a, hl⟩, fun _ => rfl⟩
              intro e he
              cases he
              exact .inr rfl

/-! ## The answers that a task has got

A property of all answers goes along with the trace: it is kept when the trace grows by a page, and it holds
of a task if it holds of each of its walks. -/

section Answers

variable {site : Site σ} {d : NodeDefinition} {n : Nat} {l : String} {es : Trace}

/-- Whether the answers of a trace have a property. -/
def Trace.Answered (es : Trace) (P : Answer → Prop) : Prop := ∀ r a, .asked r a ∈ es → P a

/-- What holds of the answers of both parts holds of those of the whole. -/
theorem Trace.Answered.append {P : Answer → Prop} {more : Trace} (h : es.Answered P)
    (hm : more.Answered P) : (es ++ more).Answered P := by
  intro r a ha
  rcases List.mem_append.mp ha with ha | ha
  · exact h r a ha
  · exact hm r a ha

theorem answered_pageEffects {P : Answer → Prop} {k : Nat} {a : Answer} (h : P a) (vs : List Value) :
    (d.pageEffects l n k a vs).Answered P := by
  intro r b hb
  rcases List.mem_cons.mp hb with hb | hb
  · cases hb
    exact h
  · obtain ⟨c, -, hc⟩ := List.mem_map.mp hb
    cases hc

/-- Whether an answer has a page with items. -/
def NodeDefinition.Uses (d : NodeDefinition) (a : Answer) : Prop :=
  a.isUnlistable d.document.queryField = false ∧ a.isUnusable d.document.queryField = false

/-- A walk that is under way got nothing but pages with items. -/
theorem Walking.answered {k : Nat} (h : Walking site d n l k es) : es.Answered d.Uses := by
  induction h with
  | begun =>
      intro r a ha
      cases ha
  | page h hg hr hv ih =>
      exact ih.append (answered_pageEffects
        ⟨Answer.isUnlistable_of_items hr, Answer.isUnusable_of_items hr⟩ _)

/-- A walk goes to its end exactly if a page can be taken from all of its answers. -/
theorem Walked.eq_none_iff {f : Option Failure} (ho : ∀ r s, (site.ask r s).1.isOrderly = true)
    (h : Walked site d n l es f) :
    f = none ↔ es.Answered fun a => a.isUnusable d.document.queryField = false := by
  cases h with
  | short h hg hr hv =>
      refine ⟨fun _ r a ha => ?_, fun _ => rfl⟩
      rcases List.mem_append.mp ha with ha | ha
      · exact (h.answered r a ha).2
      · exact answered_pageEffects (P := fun a => a.isUnusable d.document.queryField = false)
          (Answer.isUnusable_of_items hr) _ r a ha
  | @unfetched k es a p h hg hr =>
      refine ⟨nofun, ?_⟩
      intro hall
      obtain ⟨s, rfl⟩ := hg
      have hu := hall _ _ (List.mem_append_right es (List.mem_singleton_self _))
      cases (Answer.isUnusable_of_unfetched (ho _ s) hr).symm.trans hu

/-- Whether the items of an answer can be listed, if it has any. -/
def NodeDefinition.Lists (d : NodeDefinition) (a : Answer) : Prop :=
  a.isUnlistable d.document.queryField = false

theorem Walking.lists {k : Nat} (h : Walking site d n l k es) : es.Answered d.Lists :=
  fun r a ha => (h.answered r a ha).1

/-- A walk that is over, and not by a fault, got no answer that cannot be listed. -/
theorem Walked.lists {f : Option Failure} (h : Walked site d n l es f) : es.Answered d.Lists := by
  cases h with
  | short h hg hr hv => exact h.lists.append (answered_pageEffects (Answer.isUnlistable_of_items hr) _)
  | unfetched h hg hr =>
      apply h.lists.append
      intro r b hb
      cases List.mem_singleton.mp hb
      exact Answer.isUnlistable_of_unfetched hr

/-! ### Tasks

A task has walked through the languages behind it and may be on the way through another one. -/

/-- The languages that a task has left behind had no such answer. -/
theorem Behind.lists {past : List String} {e : TypeReport} (h : Behind site d n past es e) :
    es.Answered d.Lists := by
  induction h with
  | nothing =>
      intro r a ha
      cases ha
  | language h hw ih => exact ih.append hw.lists

/-- A task that has ended got no answer with items that cannot be listed. -/
theorem Stands.lists {t : Task} (h : Stands site d n es t) (hp : t.phase = .ended) :
    es.Answered d.Lists := by
  cases h with
  | fresh => cases hp
  | asking => cases hp
  | closed h => exact h.lists
  | cancelled hc h hs hw => exact h.lists.append hw.lists
  | crashed => cases hp

/-- The walks behind a task, each with its effects and with the failure at its end, if it has one. -/
theorem Behind.walks {past : List String} {e : TypeReport} (hp : past ⊆ d.languages)
    (h : Behind site d n past es e) :
    ∃ walks : List (Trace × Option Failure),
      List.Forall₂ (fun l w => Walked site d n l w.1 w.2) past walks ∧ es = walks.flatMap (·.1)
        ∧ e = { TypeReport.fresh d.typeName with
          emitted := (es.received d.typeName).length
          errors := walks.filterMap fun w => w.2.map Failure.message } := by
  induction h with
  | nothing => exact ⟨[], .nil, rfl, rfl⟩
  | @language past es e l more f h hw ih =>
      obtain ⟨walks, hall, rfl, he⟩ := ih fun x hx => hp (List.mem_append_left [l] hx)
      have hl : l ∈ d.languages := hp (List.mem_append_right past List.mem_cons_self)
      refine ⟨walks ++ [(more, f)], List.rel_append hall (.cons hw .nil), ?_, ?_⟩
      · rw [List.flatMap_append, List.flatMap_singleton]
      · rw [he, Trace.received_append, List.length_append, ← Trace.emissions_eq (hw.of hl),
          List.filterMap_append]
        cases f with
        | none =>
            rw [List.filterMap_cons_none rfl, List.filterMap_nil, List.append_nil]
            rfl
        | some f => rfl

end Answers

/-! ## Whole runs

What is known of each task is put together to what becomes of the run and of its report. -/

/-- What became of a type that was not cancelled: every language was walked through, to its end exactly
if a page could be taken from each of its answers, and the errors of the type are those of the other
languages. -/
structure WalkedThrough (site : Site σ) (n : Nat) (d : NodeDefinition) (es : Trace)
    (entry : Option TypeReport) (walks : List (Trace × Option Failure)) : Prop where
  walked : List.Forall₂ (fun l w => Walked site d n l w.1 w.2) d.languages walks
  ended_iff : ∀ w ∈ walks,
    w.2 = none ↔ w.1.Answered fun a => a.isUnusable d.document.queryField = false
  effects_eq : es = walks.flatMap (·.1)
  entry_eq : entry = some (TypeReport.closed
    { typeName := d.typeName
      status := .pending
      emitted := (es.received d.typeName).length
      errors := walks.filterMap fun w => w.2.map Failure.message })

open Interleaving in
/-- What became of a run. It ends with a report unless some type got an answer with items that cannot be
listed, and the report tells of every type what became of it. -/
structure Contained (site : Site σ) (p : Plan) (n : Nat) (steps : Interleaving Effect)
    (x : Except Failure Report) (log : Trace) : Prop where
  log_eq : ∃ announced : List NodeDefinition, log = announced.map .declared ++ merged steps
  failed_iff : x = .error (.fault .kind) ↔ ∃ i d r a, p.nodes.values[i]? = some d
    ∧ .asked r a ∈ own i steps ∧ a.isUnlistable d.document.queryField = true
  failed_eq : ∀ e, x = .error e → e = .fault .kind
  told : ∀ report, x = .ok report → ∀ i d, p.nodes.values[i]? = some d →
    (site.Cancels ∧ ∃ e, report.find? d.typeName = some e ∧ e.status = .cancelled)
      ∨ ∃ walks, WalkedThrough site n d (own i steps) (report.find? d.typeName) walks

section Contained

open Interleaving

variable {site : Site σ} {p : Plan} {n : Nat}

/-- A task that has ended went through all its languages, or was cancelled. -/
theorem Stands.walkedThrough {d : NodeDefinition} {es : Trace} {t : Task}
    (ho : ∀ r s, (site.ask r s).1.isOrderly = true) (h : Stands site d n es t)
    (hp : t.phase = .ended) :
    (site.Cancels ∧ t.entry.status = .cancelled)
      ∨ ∃ walks, WalkedThrough site n d es (some t.entry) walks := by
  rcases h.of_ended hp with ⟨e, hb, he⟩ | hc
  · obtain ⟨walks, hall, hes, rfl⟩ := hb.walks (List.Subset.refl _)
    refine .inr ⟨walks, hall, fun w hw => ?_, hes, congrArg some he⟩
    obtain ⟨i, hi⟩ := List.getElem?_of_mem hw
    obtain ⟨hlt, rfl⟩ := List.getElem?_eq_some_iff.mp hi
    exact (List.Forall₂.get hall (hall.length_eq ▸ hlt) hlt).eq_none_iff ho
  · exact .inl hc

/-- A run from a plan: either all is contained, or some type got an answer that cannot be listed. -/
theorem Sourcing.Ends.contained {o : Order} (hp : p.Coherent) (hn : 0 < n)
    (hw : o.walking = .bySize n) (ho : ∀ r s, (site.ask r s).1.isOrderly = true) {s s' : σ}
    (haccepts : (site.declareAll p.nodes.values s).1 = .ok ()) {x : Except Failure Report}
    {log : Trace} (h : Ends site.traced o p (s, []) x (s', log)) :
    ∃ steps, Contained site p n steps x log := by
  obtain ⟨steps, r, hr, ⟨f, rfl, i, t, ht, hf⟩ | ⟨rfl, he⟩⟩ := h.chronicle hp hn hw haccepts
  -- A task crashed: the answer over which it did so is among its effects.
  · obtain ⟨d, hd⟩ : ∃ d, p.nodes.values[i]? = some d := by
      refine ⟨_, List.getElem?_eq_getElem ?_⟩
      rw [← hr.accounts.length_eq]
      exact (List.getElem?_eq_some_iff.mp ht).1
    obtain ⟨u, hu, hst⟩ := hr.accounts.stands hd
    cases ht.symm.trans hu
    obtain ⟨l, k, a, g, -, ⟨s₁, rfl⟩, hread, rfl, hmem⟩ := hst.of_crashed hf
    obtain ⟨rfl, hlist⟩ := Answer.isUnlistable_of_misused (ho _ s₁) hread
    refine ⟨steps, hr.log_eq, ⟨fun _ => ⟨i, d, _, _, hd, hmem, hlist⟩, fun _ => rfl⟩, ?_, nofun⟩
    intro e he
    cases he
    rfl
  -- All tasks ended, so none of them got such an answer.
  · refine ⟨steps, hr.log_eq, ⟨nofun, ?_⟩, nofun, ?_⟩
    · rintro ⟨i, d, r', a, hd, hmem, hlist⟩
      obtain ⟨t, ht, hst⟩ := hr.accounts.stands hd
      cases hlist.symm.trans (hst.lists (he t (List.mem_of_getElem? ht)) r' a hmem)
    · intro report hreport i d hd
      cases hreport
      obtain ⟨t, hst, hmem, hentry⟩ := hr.entry hp hd (site.cancelled s')
      rw [hentry]
      apply (hst.walkedThrough ho (he t hmem)).imp_left
      intro hc
      exact ⟨hc.1, _, rfl, hc.2⟩

end Contained

namespace Sourcing

/-- **Failures stay where they are**, with one exception: a walk fails beyond its language, and a run
ends without a report, exactly if an answer came with items that cannot be listed. -/
theorem failures_contained {σ₀ : Type} {site₀ : Site σ₀} {o₀ : Order} {s₀ : σ₀} {p : Plan}
    (hprepare : (Plan.prepare site₀ o₀ s₀).1 = .ok p) {n : Nat} (hn : 1 ≤ n) :
    (∀ {around : Surroundings σ}, (∀ r s, (around.ask r s).1.isOrderly = true) →
      ∀ d ∈ p.nodes.values, ∀ l ∈ d.languages, ∀ {fuel s x s' answers},
        (Walk.start d.document l ⟨.int n⟩).run around.traced fuel (s, [])
            = (some x, (s', answers)) →
          (∀ e, x = .error e → e.isScoped = true ∨ e = .fault .kind)
            ∧ (x = .error (.fault .kind)
              ↔ ∃ a ∈ answers, a.isUnlistable d.document.queryField = true))
    ∧ ∀ {site : Site σ} {o : Order}, o.paging = none → o.config.pageSize = n →
      1 ≤ o.config.concurrency → (∀ r s, (site.ask r s).1.isOrderly = true) → ∀ {s : σ},
        (site.declareAll p.nodes.values s).1 = .ok () →
          (∀ {x s' log}, Ends site.traced o p (s, []) x (s', log) →
            ∃ steps, Contained site p n steps x log)
          ∧ ((∀ d ∈ p.nodes.values, ∃ pages, site.RunsDry d n pages) → ∀ suspends,
            ∃ moves, ∀ fuel ≥ moves, ∃ x steps,
              (source site ⟨suspends, fuel⟩ o p s).1.result = some x
                ∧ Contained site p n steps x
                  (source site.traced ⟨suspends, fuel⟩ o p (s, [])).2.2) := by
  have hp := Plan.prepare_coherent hprepare
  refine ⟨?_, ?_⟩
  · intro around ho d hd l hl fuel s x s' answers h
    obtain ⟨more, hmore, hx⟩ := run_fault_iff (k := 0) ho hn ((hp.node hd).contains l hl) h
    rw [List.nil_append] at hmore
    exact hmore ▸ hx
  · intro site o hpaging hsize hconcurrency ho s haccepts
    have hw := Order.walking_eq hpaging hsize
    refine ⟨fun h => h.contained hp hn hw ho haccepts, ?_⟩
    intro hdry suspends
    obtain ⟨moves, hmoves⟩ := source_comes_to_end hp hn hw hconcurrency hdry suspends s
    refine ⟨moves, ?_⟩
    intro fuel hfuel
    obtain ⟨x, hx, hends⟩ := hmoves fuel hfuel
    obtain ⟨steps, hsteps⟩ := hends.contained hp hn hw ho haccepts
    exact ⟨x, steps, hx, hsteps⟩

end Sourcing

/-! ## A remote in trouble -/

namespace Sample

/-- Answers without a page for one language of a type, and a number in the place of items for one of
the other type. -/
def troubled (r : Request) : Answer :=
  if r.operationName = some "LIST_Node_EN" then .data .null
  else if r.operationName = some "LIST_Term_DE" then
    .data (.record [("termQuery", .record [("entities", .int 5)])])
  else pageOf []

/-- All answers of this remote are JSON, or errors of a request. -/
theorem isOrderly_troubled (r : Request) : (troubled r).isOrderly = true := by
  unfold troubled
  split
  next => rfl
  next => split <;> rfl

theorem items_troubled {queryField : String} (hq : queryField = "nodeQuery" ∨ queryField = "termQuery")
    {r : Request} {vs : List Value} (h : (troubled r).reading queryField = .items vs) : vs = [] := by
  unfold troubled at h
  rcases hq with rfl | rfl <;> split at h
  next => cases h
  next => split at h <;> cases h; rfl
  next => cases h
  next => split at h <;> cases h; rfl

/-- The remote has an end for every type that it lists at all. -/
theorem runsDry_troubled {d : NodeDefinition} (hd : d ∈ plan.nodes.values) :
    (answering troubled).RunsDry d 2 0 := by
  intro l hl k a vs _ hg hr
  obtain ⟨s, rfl⟩ := hg
  have hfor := (Plan.prepare_coherent prepare_eq).isFor d hd
  have hq := queryField_of_mem hd
  rw [← hfor.queryField_eq] at hq
  rw [items_troubled hq hr]
  decide

/-- A walk that asks this remote. -/
def amongTrouble : Surroundings Unit :=
  { ask := fun r => return troubled r
    cancelled := fun _ => false
    emit := fun _ s => s }

/-- The language with a number for its items fails with a fault. -/
theorem run_amongTrouble {d : NodeDefinition} (hd : d ∈ plan.nodes.values)
    (h : (d.typeName, d.descriptor.queryField, d.descriptor.languages)
      = ("Term", "termQuery", ["EN", "DE"])) :
    (Walk.start d.document "DE" ⟨.int 2⟩).run amongTrouble.traced 1 ((), [])
      = (some (.error (.fault .kind)), ((), [troubled (d.pageRequest "DE" 2 0)])) := by
  have hfor := (Plan.prepare_coherent prepare_eq).isFor d hd
  have hname : d.descriptor.typeName = "Term" := congrArg (·.1) h
  have hfield : d.descriptor.queryField = "termQuery" := congrArg (·.2.1) h
  have hlanguages : d.descriptor.languages = ["EN", "DE"] := congrArg (·.2.2) h
  have hop : d.document.operations.get? "DE" = some "LIST_Term_DE" := by
    rw [hfor.operation_eq "DE" (hlanguages ▸ by decide), hname]
    decide
  have hrequest : (d.pageRequest "DE" 2 0).operationName = some "LIST_Term_DE" := hop
  -- the answer holds a number where the items should be, which is no list
  have hreading : (troubled (d.pageRequest "DE" 2 0)).reading d.document.queryField
      = .misused .kind := by
    rw [troubled, hrequest, if_neg (by decide), if_pos rfl, hfor.queryField_eq, hfield]
    rfl
  have hcontains : d.document.operations.contains "DE" = true := by
    rw [Keyed.contains, hop]
    rfl
  show (d.walkAt "DE" 2 0).run amongTrouble.traced 1 ((), []) = _
  rw [Walk.run, show amongTrouble.traced.cancelled ((), []) = false from rfl,
    Walk.turn_ask rfl (NodeDefinition.request_walkAt hcontains)]
  dsimp only
  rw [show amongTrouble.traced.ask (d.pageRequest "DE" 2 0) ((), [])
      = (troubled (d.pageRequest "DE" 2 0), ((), [troubled (d.pageRequest "DE" 2 0)])) from rfl]
  dsimp only
  rw [NodeDefinition.receive_misused hreading]
  rfl

/-- A walk of this remote fails beyond its language over an answer that cannot be listed; the whole run
against it comes to an end, and it is told what became of it. -/
theorem contained_troubled :
    (∃ d ∈ plan.nodes.values, ∃ answers,
      (Walk.start d.document "DE" ⟨.int 2⟩).run amongTrouble.traced 1 ((), [])
          = (some (.error (.fault .kind)), ((), answers))
        ∧ ∃ a ∈ answers, a.isUnlistable d.document.queryField = true)
    ∧ ∃ moves, ∀ fuel ≥ moves, ∃ x steps,
      (Sourcing.source (answering troubled) ⟨true, fuel⟩ order plan ()).1.result = some x
        ∧ Contained (answering troubled) plan 2 steps x
          (Sourcing.source (answering troubled).traced ⟨true, fuel⟩ order plan ((), [])).2.2 := by
  have hcontained := Sourcing.failures_contained (σ := Unit) prepare_eq (n := 2) (by decide)
  have hrun := (hcontained.2 (o := order) rfl rfl (by decide) (fun r _ => isOrderly_troubled r)
    (declareAll_answering _ _)).2 (fun _ hd => ⟨0, runsDry_troubled hd⟩) true
  refine ⟨?_, hrun⟩
  obtain ⟨d, hd, h⟩ : ∃ d ∈ plan.nodes.values,
      (d.typeName, d.descriptor.queryField, d.descriptor.languages)
        = ("Term", "termQuery", ["EN", "DE"]) := by
    refine List.mem_map.mp (?_ : _ ∈ typesOf plan)
    rw [typesOf_plan]
    decide
  have hlanguages : d.languages = ["EN", "DE"] := congrArg (·.2.2) h
  have hwalk := run_amongTrouble hd h
  refine ⟨d, hd, _, hwalk, ?_⟩
  exact (hcontained.1 (fun r _ => isOrderly_troubled r) d hd "DE" (hlanguages ▸ by decide) hwalk).2.mp rfl

end Sample

end Harvest
