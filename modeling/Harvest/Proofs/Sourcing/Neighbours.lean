import Harvest.Proofs.Sourcing.Starting

/-!
# Neighbours

The types of a run share a report, a receiver, a strategy and a remote, and yet none of them is to notice
the others. What a task does next depends on where it stands and on the answer that it gets, and on nothing
else (`Moved.eq_of_matches`). So the task of a type takes the same moves in any two runs in which its own
requests are answered alike, whatever its neighbours do in between; it only may have come further in one of
them. `MovesTo` counts the moves that a task has taken, and `MovesTo.eq_of_matches` says that their number
settles where it stands and all that it has done.

For the receiver this means that the records of the type in one run are the first ones of those in the other,
at any two moments, and all of them if the type is done (`Sourcing.InStep`). A moment of a run is a number of
moves in any order, `Sourcing.moment`; the run need not come to an end.

There is one thing that neighbours can do to a type: they can keep it from ever beginning, if their listings
never end and they hold all permits. `Sourcing.types_independent` says that this is the only one. A type that
is done in one run is done at some moment of the other as well, and with the same report, or the permits are
held for ever there. `Sample.node_waits` is a pair of runs with this difference.
-/

namespace Harvest

open Interleaving

variable {σ σ₁ σ₂ : Type}

/-! ## Moves that match

Both sites answer the requests of one type, and what they answer reads the same. The moves of its task are
compared by the cases in which it goes on. -/

/-- Whether a type fares alike on two sites: its requests are answered alike and nothing is cancelled. -/
structure Site.Matches (site₁ : Site σ₁) (site₂ : Site σ₂) (d : NodeDefinition) (n : Nat) : Prop where
  agree : site₁.Agree site₂ d n
  left : ¬site₁.Cancels
  right : ¬site₂.Cancels

section Moves

variable {site₁ : Site σ₁} {site₂ : Site σ₂} {d : NodeDefinition} {n : Nat} {l : String} {t u₁ u₂ : Task}
  {es₁ es₂ : Trace}

theorem Site.Matches.symm (hm : site₁.Matches site₂ d n) : site₂.Matches site₁ d n :=
  ⟨hm.agree.symm, hm.right, hm.left⟩

/-! ### Each kind of move

`Followed`, `Begun` and `Moved` list what a task can do. If two tasks stand in the same place, then the same
constructor applies to both, and with the same answer it gives the same. -/

/-- To follow a walk comes to the same on both sites. -/
theorem Followed.eq_of_matches (hm : site₁.Matches site₂ d n) (hl : l ∈ d.languages) {k : Nat}
    (h₁ : Followed site₁ d n l k t es₁ u₁) (h₂ : Followed site₂ d n l k t es₂ u₂) :
    es₁ = es₂ ∧ u₁ = u₂ := by
  cases h₁ with
  | cancelled hc => exact absurd hc hm.left
  | asked hg₁ =>
      cases h₂ with
      | cancelled hc => exact absurd hc hm.right
      | asked hg₂ =>
          obtain rfl := hm.agree l hl _ _ _ hg₁ hg₂
          exact ⟨rfl, rfl⟩

/-- To begin languages comes to the same on both sites. -/
theorem Begun.eq_of_matches (hm : site₁.Matches site₂ d n) {ls : List String} (hls : ls ⊆ d.languages)
    (h₁ : Begun site₁ d n t ls es₁ u₁) (h₂ : Begun site₂ d n t ls es₂ u₂) : es₁ = es₂ ∧ u₁ = u₂ := by
  cases h₁ with
  | closed =>
      cases h₂
      exact ⟨rfl, rfl⟩
  | next hf₁ =>
      cases h₂ with
      | next hf₂ => exact hf₁.eq_of_matches hm (hls List.mem_cons_self) hf₂

theorem Moved.begun {site : Site σ} {es : Trace} {u : Task} (hp : t.phase = .waiting)
    (h : Moved site d n t es u) : Begun site d n t t.languages es u := by
  cases h with
  | started _ hb => exact hb
  | full hp' => cases hp.symm.trans hp'
  | short hp' => cases hp.symm.trans hp'
  | unfetched hp' => cases hp.symm.trans hp'
  | misused hp' => cases hp.symm.trans hp'

/-- What a task does about an answer, by what can be read from it. -/
def Takes (site : Site σ) (d : NodeDefinition) (n : Nat) (l : String) (k : Nat) (t : Task) :
    Reading → Trace → Task → Prop
  | .items vs, es, u =>
    ∃ more, es = (d.records l vs).map (.emitted d) ++ more
      ∧ if n ≤ vs.length then
          Followed site d n l (k + 1) { t with entry := t.entry.withRecords (d.records l vs).length } more u
        else
          Begun site d n { t with entry := t.entry.withRecords (d.records l vs).length } t.languages more u
  | .unfetched p, es, u =>
    Begun site d n { t with entry := t.entry.withError (d.fetchFailure l n k p).message } t.languages es u
  | .misused f, es, u => es = [] ∧ u = { t with phase := .crashed (.fault f) }

/-- What a task does about an answer is settled by its reading. -/
theorem Moved.takes {site : Site σ} {k : Nat} {a : Answer} {es : Trace} {u : Task} (hn : 0 < n)
    (hp : t.phase = .asking (d.walkAt l n k) a) (h : Moved site d n t es u) :
    Takes site d n l k t (a.reading d.document.queryField) es u := by
  cases h with
  | started hw => cases hw.symm.trans hp
  | full hp' hr hv hf =>
      obtain ⟨rfl, rfl, rfl⟩ := asking_inj hn (hp'.symm.trans hp)
      rw [hr]
      exact ⟨_, rfl, (if_pos hv).mpr hf⟩
  | short hp' hr hv hb =>
      obtain ⟨rfl, rfl, rfl⟩ := asking_inj hn (hp'.symm.trans hp)
      rw [hr]
      exact ⟨_, rfl, (if_neg (Nat.not_le.mpr hv)).mpr hb⟩
  | unfetched hp' hr hb =>
      obtain ⟨rfl, rfl, rfl⟩ := asking_inj hn (hp'.symm.trans hp)
      rw [hr]
      exact hb
  | misused hp' hr =>
      obtain ⟨rfl, rfl, rfl⟩ := asking_inj hn (hp'.symm.trans hp)
      rw [hr]
      exact ⟨rfl, rfl⟩

/-- The same reading is taken in the same way. -/
theorem Takes.eq_of_matches (hm : site₁.Matches site₂ d n) (hl : l ∈ d.languages)
    (hls : t.languages ⊆ d.languages) {k : Nat} {x : Reading} (h₁ : Takes site₁ d n l k t x es₁ u₁)
    (h₂ : Takes site₂ d n l k t x es₂ u₂) : es₁ = es₂ ∧ u₁ = u₂ := by
  cases x with
  | items vs =>
      obtain ⟨more₁, rfl, h₁⟩ := h₁
      obtain ⟨more₂, rfl, h₂⟩ := h₂
      by_cases hv : n ≤ vs.length
      · rw [if_pos hv] at h₁ h₂
        obtain ⟨rfl, rfl⟩ := h₁.eq_of_matches hm hl h₂
        exact ⟨rfl, rfl⟩
      · rw [if_neg hv] at h₁ h₂
        obtain ⟨rfl, rfl⟩ := h₁.eq_of_matches hm hls h₂
        exact ⟨rfl, rfl⟩
  | unfetched p => exact Begun.eq_of_matches hm hls h₁ h₂
  | misused f => exact ⟨h₁.1.trans h₂.1.symm, h₁.2.trans h₂.2.symm⟩

/-- **A move is settled by where a task stands and by the answers to its own requests.** -/
theorem Moved.eq_of_matches (hm : site₁.Matches site₂ d n) (hn : 0 < n) (ht : t.Ready d n)
    (h₁ : Moved site₁ d n t es₁ u₁) (h₂ : Moved site₂ d n t es₂ u₂) : es₁ = es₂ ∧ u₁ = u₂ := by
  rcases ht.phase with hp | ⟨l, hl, k, a, hp⟩
  · exact (h₁.begun hp).eq_of_matches hm ht.subset (h₂.begun hp)
  · exact (h₁.takes hn hp).eq_of_matches hm hl ht.subset (h₂.takes hn hp)

end Moves

/-! ## Moves that are counted

A task has no clock but its own moves. Two tasks of a type that have taken as many of them stand at the same
place, and one that has taken more has done at least as much. -/

/-- A task that has not begun has done nothing. -/
theorem Stands.eq_nil_of_waiting {site : Site σ} {d : NodeDefinition} {n : Nat} {es : Trace} {t : Task}
    (h : Stands site d n es t) (hp : t.phase = .waiting) : es = [] := by
  cases h with
  | fresh => rfl
  | asking => cases hp
  | closed => cases hp
  | cancelled => cases hp
  | crashed => cases hp

/-- How far the task of a type has come in so many moves: what it has done, and where it stands. -/
inductive MovesTo (site : Site σ) (d : NodeDefinition) (n : Nat) : Nat → Trace → Task → Prop
  | fresh : MovesTo site d n 0 [] (.fresh d)
  | move {j : Nat} {es new : Trace} {t u : Task} (h : MovesTo site d n j es t) (ht : t.Ready d n)
      (hm : Moved site d n t new u) : MovesTo site d n (j + 1) (es ++ new) u

section MovesTo

variable {site₁ : Site σ₁} {site₂ : Site σ₂} {d : NodeDefinition} {n j₁ j₂ : Nat} {t₁ t₂ : Task}
  {es₁ es₂ : Trace}

/-- **The number of its moves settles where a task stands**, and all that it has done. -/
theorem MovesTo.eq_of_matches (hm : site₁.Matches site₂ d n) (hn : 0 < n) {j : Nat}
    (h₁ : MovesTo site₁ d n j es₁ t₁) (h₂ : MovesTo site₂ d n j es₂ t₂) : es₁ = es₂ ∧ t₁ = t₂ := by
  induction h₁ generalizing es₂ t₂ with
  | fresh =>
      cases h₂
      exact ⟨rfl, rfl⟩
  | move _ ht hmoved₁ ih =>
      cases h₂ with
      | move h₂ _ hmoved₂ =>
          obtain ⟨rfl, rfl⟩ := ih h₂
          obtain ⟨rfl, rfl⟩ := hmoved₁.eq_of_matches hm hn ht hmoved₂
          exact ⟨rfl, rfl⟩

/-! ### Fewer moves and more

A number of moves fixes everything, and so a task that has taken fewer moves is where the other one once was,
on whichever site. -/

/-- A task that has taken more moves could move before the last of them, and what it had done by then is
the first part of what it has done. -/
theorem MovesTo.before {site : Site σ} {j j' : Nat} {es : Trace} {t : Task} (h : MovesTo site d n j es t)
    (hj : j' < j) : ∃ es' t', MovesTo site d n j' es' t' ∧ t'.Ready d n ∧ es' <+: es := by
  induction h with
  | fresh => cases hj
  | @move j es new t u h ht _ ih =>
      rcases Nat.lt_succ_iff_lt_or_eq.mp hj with hj | rfl
      · obtain ⟨es', t', h', ht', hprefix⟩ := ih hj
        exact ⟨es', t', h', ht', hprefix.trans (List.prefix_append _ _)⟩
      · exact ⟨es, t, h, ht, List.prefix_append _ _⟩

/-- What was done in fewer moves is the beginning of what was done in more. -/
theorem MovesTo.prefix_of_le (hm : site₁.Matches site₂ d n) (hn : 0 < n)
    (h₁ : MovesTo site₁ d n j₁ es₁ t₁) (h₂ : MovesTo site₂ d n j₂ es₂ t₂) (hj : j₁ ≤ j₂) :
    es₁ <+: es₂ := by
  rcases hj.lt_or_eq with hj | rfl
  · obtain ⟨es, t, h, -, hprefix⟩ := h₂.before hj
    rw [(h₁.eq_of_matches hm hn h).1]
    exact hprefix
  · rw [(h₁.eq_of_matches hm hn h₂).1]

theorem Task.Ready.not_isDone {t : Task} (h : t.Ready d n) : t.isDone = false := by
  rcases h.phase with hp | ⟨l, -, k, a, hp⟩ <;> rw [isDone, hp]

/-- A task that is done in one run has not taken more moves in the other. -/
theorem MovesTo.le_of_isDone (hm : site₁.Matches site₂ d n) (hn : 0 < n)
    (h₁ : MovesTo site₁ d n j₁ es₁ t₁) (h₂ : MovesTo site₂ d n j₂ es₂ t₂) (hdone : t₁.isDone = true) :
    j₂ ≤ j₁ := by
  by_contra hj
  obtain ⟨es, t, h, ht, -⟩ := h₂.before (Nat.lt_of_not_le hj)
  obtain ⟨-, rfl⟩ := h₁.eq_of_matches hm hn h
  rw [ht.not_isDone] at hdone
  cases hdone

end MovesTo

/-! ## Moves of a run

A run interleaves the moves of its tasks. Each of them counts its own. -/

section Orders

variable {site : Site σ} {n : Nat} {ds : List NodeDefinition} {steps : Interleaving Effect}
  {r : Run (σ × Trace)}

/-- Whether the task of each type has come to stand where it does by moves of its own. -/
def Counts (site : Site σ) (n : Nat) (ds : List NodeDefinition) (steps : Interleaving Effect)
    (r : Run (σ × Trace)) : Prop :=
  ∀ {i d}, ds[i]? = some d → ∃ j t, r.tasks[i]? = some t ∧ MovesTo site d n j (own i steps) t

theorem Counts.start (permits : Nat) (x : σ × Trace) : Counts site n ds [] (.start ds permits x) := by
  intro i d hd
  exact ⟨0, .fresh d, Run.getElem?_start hd permits x, .fresh⟩

/-- **A move of one task is one move more of that task**, and of no other. -/
theorem Counts.act (h : Counts site n ds steps r) (hd : ∀ d ∈ ds, d.Coherent) (hn : 0 < n)
    (hacc : Accounts site n ds steps r) (i : Nat) :
    ∃ more, Accounts site n ds (steps ++ more) (r.act site.traced (.bySize n) i)
      ∧ (r.act site.traced (.bySize n) i).world.2 = r.world.2 ++ merged more
      ∧ Counts site n ds (steps ++ more) (r.act site.traced (.bySize n) i) := by
  by_cases hm : r.Movable i
  · obtain ⟨t, s, ht, hdone, hacc', hlog, htasks⟩ := hacc.act_of_movable hd hn hm
    refine ⟨_, hacc', by rw [merged_block, hlog], fun {k d} hk => ?_⟩
    obtain ⟨j, u, hu, hmoves⟩ := h hk
    rw [htasks, own_append]
    by_cases hik : i = k
    · subst hik
      cases ht.symm.trans hu
      obtain ⟨u, hu', hst⟩ := hacc.stands hk
      cases ht.symm.trans hu'
      refine ⟨j + 1, _, List.getElem?_set_self (List.getElem?_eq_some_iff.mp ht).1, ?_⟩
      rw [own_block_self]
      have hready := hst.ready hdone
      exact hmoves.move hready (move_moved site (hd d (List.mem_of_getElem? hk)) hn hready)
    · refine ⟨j, u, (List.getElem?_set_ne hik).trans hu, ?_⟩
      rw [own_block_of_ne hik, List.append_nil]
      exact hmoves
  · rw [Run.act_of_not_movable site.traced (.bySize n) hm]
    refine ⟨[], ?_, by rw [merged_nil, List.append_nil], ?_⟩
    · rwa [List.append_nil]
    · rw [List.append_nil]
      exact h

/-- After any number of moves of the run, each task has taken some of them. -/
theorem Counts.acts (h : Counts site n ds steps r) (hd : ∀ d ∈ ds, d.Coherent) (hn : 0 < n)
    (hacc : Accounts site n ds steps r) (order : List Nat) :
    ∃ more, Accounts site n ds (steps ++ more) (r.acts site.traced (.bySize n) order)
      ∧ (r.acts site.traced (.bySize n) order).world.2 = r.world.2 ++ merged more
      ∧ Counts site n ds (steps ++ more) (r.acts site.traced (.bySize n) order) := by
  induction order generalizing r steps with
  | nil =>
      refine ⟨[], by rwa [List.append_nil], by rw [merged_nil, List.append_nil]; rfl, ?_⟩
      rw [List.append_nil]
      exact h
  | cons i order ih =>
      obtain ⟨m₁, hacc₁, hw₁, h₁⟩ := h.act hd hn hacc i
      obtain ⟨m₂, hacc₂, hw₂, h₂⟩ := ih h₁ hacc₁
      refine ⟨m₁ ++ m₂, by rwa [← List.append_assoc], ?_, ?_⟩
      · rw [Run.acts_cons, hw₂, hw₁, merged_append, List.append_assoc]
      · rw [← List.append_assoc]
        exact h₂

end Orders

/-! ## Moments of a run

What can be seen of a type before the run is over. -/

/-- Whether a run is done with a type. -/
def Run.IsDoneWith (r : Run σ) (typeName : String) : Prop :=
  ∀ t ∈ r.tasks, t.definition.typeName = typeName → t.phase = .ended

/-- The records of a type that have been handed over so far. -/
def Run.received (r : Run (σ × Trace)) (typeName : String) : List EntityRecord :=
  Trace.received typeName r.world.2

namespace Sourcing

/-- A run after so many moves in some order, with all that has been done on its site. The types have been
announced before. -/
def moment (site : Site σ) (o : Order) (p : Plan) (s : σ) (order : List Nat) : Run (σ × Trace) :=
  (tasksOf o p (site.traced.declareAll p.nodes.values (s, [])).2).acts site.traced o.walking order

section Moment

variable {site : Site σ} {o : Order} {p : Plan} {n : Nat} {s : σ} {order : List Nat}

/-! ### Tasks at a moment

A moment is a run in its course. Its tasks stand where moves of their own have brought them, and what can be
seen of the run is seen of these tasks. -/

/-- Tasks come to be the same at a moment whether what they do is written down or not. -/
theorem tasks_moment (site : Site σ) (o : Order) (p : Plan) (s : σ) (order : List Nat) :
    (moment site o p s order).tasks
      = ((tasksOf o p (site.declareAll p.nodes.values s).2).acts site o.walking order).tasks := by
  obtain ⟨announced, -, -, h⟩ := site.declareAll_traced p.nodes.values s []
  rw [moment, h]
  exact congrArg Run.tasks (Run.untraced_acts site o.walking (tasksOf o p (_, _)) order)

/-- **Every moment comes from moves of the tasks.** -/
theorem chronicle_moment (hp : p.Coherent) (hn : 0 < n) (hr : Regular site o p n s) (order : List Nat) :
    ∃ steps, Chronicle site n p steps (moment site o p s order) (moment site o p s order).world.2
      ∧ Counts site n p.nodes.values steps (moment site o p s order) := by
  obtain ⟨announced, -, -, h⟩ := site.declareAll_traced p.nodes.values s []
  have hstart : Counts site n p.nodes.values []
      (tasksOf o p (site.traced.declareAll p.nodes.values (s, [])).2) := Counts.start _ _
  obtain ⟨steps, hacc, hlog, hcounts⟩ := hstart.acts (fun d hd => hp.node hd) hn (.start _ _) order
  rw [List.nil_append] at hacc hcounts
  rw [← Order.walking_eq hr.paging hr.size] at hacc hlog hcounts
  refine ⟨steps, ⟨hacc, announced, ?_⟩, hcounts⟩
  refine hlog.trans (congrArg (· ++ merged steps) ?_)
  rw [h]
  exact List.nil_append _

/-- What can be told at a moment of a type with a document comes from the moves of its task. -/
structure Tells (site : Site σ) (p : Plan) (n : Nat) (d : NodeDefinition) (c : Descriptor)
    (r : Run (σ × Trace)) (j : Nat) (es : Trace) (t : Task) : Prop where
  moves : MovesTo site d n j es t
  stands : Stands site d n es t
  isDone_iff : r.IsDoneWith c.typeName ↔ t.isDone = true
  received : r.received c.typeName = es.received c.typeName
  entry : p.reportOn r.tasks c = t.entry

/-- At every moment, a type with a document stands where the moves of its task have brought it. -/
theorem tells_moment (hp : p.Coherent) (hn : 0 < n) (hr : Regular site o p n s) {i : Nat}
    {d : NodeDefinition} (hd : p.nodes.values[i]? = some d) {c : Descriptor} (hname : d.typeName = c.typeName)
    (order : List Nat) :
    ∃ j es t, (moment site o p s order).tasks[i]? = some t
      ∧ Tells site p n d c (moment site o p s order) j es t := by
  obtain ⟨steps, hch, hcounts⟩ := chronicle_moment hp hn hr order
  obtain ⟨j, t, ht, hmoves⟩ := hcounts hd
  obtain ⟨u, hu, hst⟩ := hch.accounts.stands hd
  cases ht.symm.trans hu
  have hmem := List.mem_of_getElem? ht
  have htask : t.definition.typeName = c.typeName := by rw [hst.definition_eq, hname]
  have hnames := hch.typeNames_nodup hp
  refine ⟨j, _, t, ht, hmoves, hst, ⟨fun hdone => ?_, fun hdone u hu hsame => ?_⟩, ?_, ?_⟩
  · rw [Task.isDone, hdone t hmem htask]
  · obtain rfl : u = t := List.inj_on_of_nodup_map hnames hu hmem (hsame.trans htask.symm)
    rcases Task.ended_or_crashed hdone with hp | ⟨f, hp⟩
    · exact hp
    · exact absurd hp (hst.not_crashed_of_regular (hr.answers d (List.mem_of_getElem? hd)) f)
  · rw [← hname]
    exact hch.received hp hd
  · exact Plan.reportOn_task hnames hmem htask

/-- A type without a document has nothing to wait for, and nothing of it is ever received. -/
theorem silent_moment (hp : p.Coherent) (hn : 0 < n) (hr : Regular site o p n s) {c : Descriptor}
    (hnone : ∀ d ∈ p.nodes.values, d.typeName ≠ c.typeName) (order : List Nat) :
    (moment site o p s order).IsDoneWith c.typeName
      ∧ (moment site o p s order).received c.typeName = []
      ∧ p.reportOn (moment site o p s order).tasks c = p.reportOn [] c := by
  obtain ⟨steps, hch, -⟩ := chronicle_moment hp hn hr order
  have hno : ∀ t ∈ (moment site o p s order).tasks, t.definition.typeName ≠ c.typeName := fun t ht =>
    hnone _ (hch.definitions_eq ▸ List.mem_map_of_mem ht)
  exact ⟨fun t ht hsame => absurd hsame (hno t ht), hch.received_of_no_node hnone,
    Plan.reportOn_of_no_task hno⟩

end Moment

/-! ## Two runs

The comparison of two moments, then of two runs, and at last what an end of one says about the other. -/

/-- Whether two moments of two runs of a plan agree on a type: the records of one are the first ones of the
other's, and all of them if the type is done; if it is done in both, its reports are the same, too. -/
structure InStep (p : Plan) (c : Descriptor) (r₁ : Run (σ₁ × Trace)) (r₂ : Run (σ₂ × Trace)) : Prop where
  comparable : r₁.received c.typeName <+: r₂.received c.typeName
    ∨ r₂.received c.typeName <+: r₁.received c.typeName
  left : r₁.IsDoneWith c.typeName → r₂.received c.typeName <+: r₁.received c.typeName
  right : r₂.IsDoneWith c.typeName → r₁.received c.typeName <+: r₂.received c.typeName
  alike : r₁.IsDoneWith c.typeName → r₂.IsDoneWith c.typeName →
    r₁.received c.typeName = r₂.received c.typeName ∧ p.reportOn r₁.tasks c = p.reportOn r₂.tasks c

section Two

variable {p : Plan} {n : Nat} {site₁ : Site σ₁} {o₁ : Order} {s₁ : σ₁} {site₂ : Site σ₂} {o₂ : Order}
  {s₂ : σ₂} {c : Descriptor}

/-- Moves that are counted decide what can be seen, so that two moments are in step. -/
theorem Tells.inStep (hn : 0 < n) {d : NodeDefinition} {r₁ : Run (σ₁ × Trace)} {r₂ : Run (σ₂ × Trace)}
    {j₁ j₂ : Nat} {es₁ es₂ : Trace} {t₁ t₂ : Task} (hm : site₁.Matches site₂ d n)
    (h₁ : Tells site₁ p n d c r₁ j₁ es₁ t₁) (h₂ : Tells site₂ p n d c r₂ j₂ es₂ t₂) :
    InStep p c r₁ r₂ := by
  have hfirst (hj : j₁ ≤ j₂) : r₁.received c.typeName <+: r₂.received c.typeName := by
    rw [h₁.received, h₂.received]
    exact (h₁.moves.prefix_of_le hm hn h₂.moves hj).filterMap _
  have hsecond (hj : j₂ ≤ j₁) : r₂.received c.typeName <+: r₁.received c.typeName := by
    rw [h₁.received, h₂.received]
    exact (h₂.moves.prefix_of_le hm.symm hn h₁.moves hj).filterMap _
  have hleft (hdone : r₁.IsDoneWith c.typeName) : j₂ ≤ j₁ :=
    h₁.moves.le_of_isDone hm hn h₂.moves (h₁.isDone_iff.mp hdone)
  have hright (hdone : r₂.IsDoneWith c.typeName) : j₁ ≤ j₂ :=
    h₂.moves.le_of_isDone hm.symm hn h₁.moves (h₂.isDone_iff.mp hdone)
  refine ⟨(le_total j₁ j₂).imp hfirst hsecond, fun hdone => hsecond (hleft hdone),
    fun hdone => hfirst (hright hdone), fun hdone₁ hdone₂ => ?_⟩
  obtain rfl := Nat.le_antisymm (hright hdone₂) (hleft hdone₁)
  obtain ⟨rfl, rfl⟩ := h₁.moves.eq_of_matches hm hn h₂.moves
  exact ⟨h₁.received.trans h₂.received.symm, h₁.entry.trans h₂.entry.symm⟩

/-- **Two runs are in step at all of their moments.** -/
theorem inStep_moment (hp : p.Coherent) (hn : 0 < n) (hr₁ : Regular site₁ o₁ p n s₁)
    (hr₂ : Regular site₂ o₂ p n s₂)
    (hm : ∀ d ∈ p.nodes.values, d.typeName = c.typeName → site₁.Matches site₂ d n)
    (order₁ order₂ : List Nat) :
    InStep p c (moment site₁ o₁ p s₁ order₁) (moment site₂ o₂ p s₂ order₂) := by
  by_cases hd : ∃ d ∈ p.nodes.values, d.typeName = c.typeName
  · obtain ⟨d, hd, hname⟩ := hd
    obtain ⟨i, hi⟩ := List.getElem?_of_mem hd
    obtain ⟨j₁, es₁, t₁, -, h₁⟩ := tells_moment hp hn hr₁ hi hname order₁
    obtain ⟨j₂, es₂, t₂, -, h₂⟩ := tells_moment hp hn hr₂ hi hname order₂
    exact h₁.inStep hn (hm d hd hname) h₂
  · have hnone : ∀ d ∈ p.nodes.values, d.typeName ≠ c.typeName := fun d hd' he => hd ⟨d, hd', he⟩
    obtain ⟨-, hrec₁, hrep₁⟩ := silent_moment hp hn hr₁ hnone order₁
    obtain ⟨-, hrec₂, hrep₂⟩ := silent_moment hp hn hr₂ hnone order₂
    refine ⟨.inl ?_, fun _ => ?_, fun _ => ?_, fun _ _ => ⟨hrec₁.trans hrec₂.symm, hrep₁.trans hrep₂.symm⟩⟩
    · rw [hrec₁, hrec₂]
    · rw [hrec₁, hrec₂]
    · rw [hrec₁, hrec₂]

/-! ### Coming to be done

If a type is done in one run, its listings have come to their ends, and the other site gives it the same
pages. Only waiting can keep it from being done there. -/

/-- A type that is done on one site has no endless listing on the other. -/
theorem not_endless_of_isDone {d : NodeDefinition} {es : Trace} {t : Task} (hm : site₁.Matches site₂ d n)
    (h : Stands site₁ d n es t) (hp : t.phase = .ended) : ¬site₂.Endless d n := by
  rintro ⟨l, hl, hfull⟩
  obtain ⟨k, a, hg, hlast⟩ := h.exists_last hp hm.left hl
  obtain ⟨b, vs, hb, hr, hv⟩ := hfull k
  obtain rfl := hm.agree l hl k a b hg hb
  exact Nat.not_lt.mpr hv (hlast vs hr)

/-- **A type that is done in one run is done at some moment of the other**, unless all permits are held for
ever there. -/
theorem done_or_held (hp : p.Coherent) (hn : 0 < n) (hr₁ : Regular site₁ o₁ p n s₁)
    (hr₂ : Regular site₂ o₂ p n s₂)
    (hm : ∀ d ∈ p.nodes.values, d.typeName = c.typeName → site₁.Matches site₂ d n) {order : List Nat}
    (hdone : (moment site₁ o₁ p s₁ order).IsDoneWith c.typeName) {schedule : Nat → Nat}
    (hfair : Run.Fair p.nodes.values.length schedule) :
    (∃ k, (moment site₂ o₂ p s₂ (Run.firstMoves schedule k)).IsDoneWith c.typeName)
      ∨ (tasksOf o₂ p (site₂.declareAll p.nodes.values s₂).2).HeldForEver site₂ n
        o₂.config.concurrency.toNat schedule := by
  by_cases hd : ∃ d ∈ p.nodes.values, d.typeName = c.typeName
  · obtain ⟨d, hd, hname⟩ := hd
    obtain ⟨i, hi⟩ := List.getElem?_of_mem hd
    obtain ⟨j₁, es₁, t₁, ht₁, h₁⟩ := tells_moment hp hn hr₁ hi hname order
    have hended : t₁.phase = .ended := by
      refine hdone t₁ (List.mem_of_getElem? ht₁) ?_
      rw [h₁.stands.definition_eq, hname]
    refine (hp.ends_or_held hn site₂ _ _ hfair hi
      (not_endless_of_isDone (hm d hd hname) h₁.stands hended)).imp_left ?_
    rintro ⟨k, t, ht, htdone⟩
    obtain ⟨j₂, es₂, t₂, ht₂, h₂⟩ := tells_moment hp hn hr₂ hi hname (Run.firstMoves schedule k)
    refine ⟨k, h₂.isDone_iff.mpr ?_⟩
    rw [tasks_moment, Order.walking_eq hr₂.paging hr₂.size] at ht₂
    cases ht.symm.trans ht₂
    exact htdone
  · exact .inl ⟨0, (silent_moment hp hn hr₂ (fun d hd' he => hd ⟨d, hd', he⟩) _).1⟩

end Two

/-- **Types do not influence each other.** If two remotes answer the requests of one type alike, then any two
moments of two runs of a plan against them are in step on that type. If it is done in the first run, it is
done in the second one, too, where each type comes up again and again, unless types with listings that never
end hold all permits there. Runs that come to an end tell the same of it. -/
theorem types_independent {σ₀ : Type} {site₀ : Site σ₀} {o₀ : Order} {s₀ : σ₀} {p : Plan}
    (hprepare : (Plan.prepare site₀ o₀ s₀).1 = .ok p) {n : Nat} (hn : 1 ≤ n)
    {site₁ : Site σ₁} {o₁ : Order} {s₁ : σ₁} (hr₁ : Regular site₁ o₁ p n s₁)
    {site₂ : Site σ₂} {o₂ : Order} {s₂ : σ₂} (hr₂ : Regular site₂ o₂ p n s₂)
    {c : Descriptor} (hc : c ∈ p.descriptors) {f : Request → Answer}
    (hf₁ : ∀ d ∈ p.nodes.values, d.typeName = c.typeName →
      ∀ r, r.IsOf d → ∀ s, (site₁.ask r s).1 = f r)
    (hf₂ : ∀ d ∈ p.nodes.values, d.typeName = c.typeName →
      ∀ r, r.IsOf d → ∀ s, (site₂.ask r s).1 = f r) :
    (∀ order₁ order₂, InStep p c (moment site₁ o₁ p s₁ order₁) (moment site₂ o₂ p s₂ order₂))
    ∧ (∀ order, (moment site₁ o₁ p s₁ order).IsDoneWith c.typeName →
      ∀ {schedule}, Run.Fair p.nodes.values.length schedule →
        (∃ k, (moment site₂ o₂ p s₂ (Run.firstMoves schedule k)).IsDoneWith c.typeName)
          ∨ (tasksOf o₂ p (site₂.declareAll p.nodes.values s₂).2).HeldForEver site₂ n
            o₂.config.concurrency.toNat schedule)
    ∧ (∀ {x₁ s₁' log₁ x₂ s₂' log₂}, Ends site₁.traced o₁ p (s₁, []) x₁ (s₁', log₁) →
        Ends site₂.traced o₂ p (s₂, []) x₂ (s₂', log₂) → AlikeOn c.typeName x₁ log₁ x₂ log₂)
    ∧ ∀ {pace₁ pace₂ x₁ x₂}, (source site₁ pace₁ o₁ p s₁).1.result = some x₁ →
      (source site₂ pace₂ o₂ p s₂).1.result = some x₂ →
        AlikeOn c.typeName x₁ (source site₁.traced pace₁ o₁ p (s₁, [])).2.2
          x₂ (source site₂.traced pace₂ o₂ p (s₂, [])).2.2 := by
  have hp := Plan.prepare_coherent hprepare
  -- Which requests are sent is not assumed to agree: it follows from the answers before them.
  have hagree : ∀ d ∈ p.nodes.values, d.typeName = c.typeName → site₁.Agree site₂ d n :=
    fun d hd hname => .of_answers (hf₁ d hd hname) (hf₂ d hd hname) n
  have hmatches : ∀ d ∈ p.nodes.values, d.typeName = c.typeName → site₁.Matches site₂ d n :=
    fun d hd hname => ⟨hagree d hd hname, hr₁.not_cancels, hr₂.not_cancels⟩
  refine ⟨inStep_moment hp hn hr₁ hr₂ hmatches,
    fun order hdone {schedule} hfair => done_or_held hp hn hr₁ hr₂ hmatches hdone hfair,
    fun h₁ h₂ => h₁.alikeOn hp hn hr₁ hr₂ hc hagree h₂, fun {pace₁ pace₂ x₁ x₂} h₁ h₂ => ?_⟩
  rw [← (source_traced site₁ pace₁ o₁ p s₁ []).1] at h₁
  rw [← (source_traced site₂ pace₂ o₂ p s₂ []).1] at h₂
  exact (source_ends hr₁.concurrency h₁).alikeOn hp hn hr₁ hr₂ hc hagree
    (source_ends hr₂.concurrency h₂)

end Sourcing

/-! ## Two remotes that differ in one type -/

namespace Sample

open Sourcing

/-- A source with a single permit and another remote is in step on the type that both remotes answer for;
both runs end, and what they end with is alike. -/
theorem alikeOn_node :
    ∃ c ∈ plan.descriptors, c.typeName = "Node"
      ∧ (∀ order₁ order₂, InStep plan c (moment (answering nodesOnly) order plan () order₁)
        (moment (answering both) single plan () order₂))
      ∧ ∃ moves, ∀ fuel ≥ moves, ∃ x₁ x₂,
        (source (answering nodesOnly) ⟨true, fuel⟩ order plan ()).1.result = some x₁
          ∧ (source (answering both) ⟨false, fuel⟩ single plan ()).1.result = some x₂
          ∧ AlikeOn "Node"
            x₁ (source (answering nodesOnly).traced ⟨true, fuel⟩ order plan ((), [])).2.2
            x₂ (source (answering both).traced ⟨false, fuel⟩ single plan ((), [])).2.2 := by
  have hp := Plan.prepare_coherent prepare_eq
  obtain ⟨d, term, hnodes, hname, -⟩ := nodes_plan
  have hd : d ∈ plan.nodes.values := hnodes ▸ List.mem_cons_self
  have hregular₁ := regular_answering (f := nodesOnly) (o := order)
    (fun r => (nodesOnly_cases r).imp_left fun h => ⟨_, h⟩) rfl rfl (by decide)
  have hregular₂ := regular_answering (f := both) (o := single) (fun _ => .inl ⟨_, rfl⟩) rfl rfl (by decide)
  obtain ⟨hstep, -, -, halike⟩ := types_independent prepare_eq (by decide) hregular₁ hregular₂
    (hp.descriptor_mem d hd) (f := fun _ => onePage)
    (fun e he hsame r hr _ => if_pos ((isOfNode_eq he hr).trans (decide_eq_true (hsame.trans hname))))
    (fun e _ _ r _ _ => rfl)
  obtain ⟨m₁, h₁⟩ := source_comes_to_end hp (by decide) (Order.walking_eq rfl rfl)
    hregular₁.concurrency (runsDry_answering nodesOnly_cases) true ()
  obtain ⟨m₂, h₂⟩ := source_comes_to_end hp (by decide) (Order.walking_eq rfl rfl)
    hregular₂.concurrency (runsDry_answering fun _ => .inl rfl) false ()
  refine ⟨d.descriptor, hp.descriptor_mem d hd, hname, hstep, max m₁ m₂, fun fuel hfuel => ?_⟩
  obtain ⟨x₁, hx₁, -⟩ := h₁ fuel ((Nat.le_max_left ..).trans hfuel)
  obtain ⟨x₂, hx₂, -⟩ := h₂ fuel ((Nat.le_max_right ..).trans hfuel)
  exact ⟨x₁, x₂, hx₁, hx₂, hname ▸ halike hx₁ hx₂⟩

/-- With two permits, three moves bring the first type to its end, with a record in each language. -/
theorem after_three_moves :
    (moment (answering (endlessFor false)) order plan () [0, 0, 0]).tasks[0]?.map Task.isDone = some true
      ∧ ((moment (answering (endlessFor false)) order plan () [0, 0, 0]).received "Node").length = 2 := by
  decide +kernel

/-- **The one thing that a neighbour can do.** The same remote has one page for a type and endless listings
for its neighbour. With two permits the type is soon done. With a single one, which the neighbour takes first,
it never begins, so that there is never a record of it. -/
theorem node_waits :
    (moment (answering (endlessFor false)) order plan () [0, 0, 0]).IsDoneWith "Node"
      ∧ ((moment (answering (endlessFor false)) order plan () [0, 0, 0]).received "Node").length = 2
      ∧ Run.Fair plan.nodes.values.length (inTurns 1)
      ∧ ∀ k, ¬(moment (answering (endlessFor false)) single plan ()
            (Run.firstMoves (inTurns 1) k)).IsDoneWith "Node"
          ∧ (moment (answering (endlessFor false)) single plan ()
            (Run.firstMoves (inTurns 1) k)).received "Node" = [] := by
  have hp := Plan.prepare_coherent prepare_eq
  have hregular₁ := regular_answering (o := order) (endlessFor_cases false) rfl rfl (by decide)
  have hregular₂ := regular_answering (o := single) (endlessFor_cases false) rfl rfl (by decide)
  obtain ⟨node, term, hnodes, hnode, hterm, -⟩ := nodes_plan
  have hfirst : plan.nodes.values[0]? = some node := by rw [hnodes]; rfl
  have hsecond : plan.nodes.values[inTurns 1 0]? = some term := by rw [hnodes]; rfl
  have hfills : (answering (endlessFor false)).Fills term 2 :=
    fills_endlessFor (List.mem_of_getElem? hsecond) (by rw [hterm]; decide)
  have hname : node.descriptor.typeName = "Node" := hnode
  obtain ⟨hdone, hrecords⟩ := after_three_moves
  obtain ⟨_, _, t, ht, htells⟩ := tells_moment (c := node.descriptor) hp (by decide) hregular₁ hfirst rfl
    [0, 0, 0]
  rw [ht, Option.map_some, Option.some_inj] at hdone
  refine ⟨hname ▸ htells.isDone_iff.mpr hdone, hrecords, fair_inTurns 1, fun k => ?_⟩
  obtain ⟨_, es, u, hu, htells⟩ := tells_moment (c := node.descriptor) hp (by decide) hregular₂ hfirst rfl
    (Run.firstMoves (inTurns 1) k)
  -- the permit stays with Term, so Node is where it was at the start
  have hfresh := hp.waits_behind (by decide) hregular₂.not_cancels () hsecond hfills (by decide) hfirst k
  rw [tasks_moment] at hu
  cases hfresh.symm.trans hu
  refine ⟨fun hdone => ?_, ?_⟩
  · cases htells.isDone_iff.mp (hname.symm ▸ hdone)
  · rw [← hname, htells.received, htells.stands.eq_nil_of_waiting rfl]
    rfl

end Sample

end Harvest
