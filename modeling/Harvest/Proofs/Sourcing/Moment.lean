import Harvest.Proofs.Sourcing.Ending

/-!
# The moment of cancellation

A moment of a run is the number of effects before it. `Site.cancelledAfter` sets the sign at a given
moment, whatever comes up there: before the first task begins, in the middle of a request, of an
announcement or of handing over a record, or between two moves. Nothing looks at the sign but a task that
is about to send a request, so there is none after that moment, and every run comes to its end.

To speak of any moment at all, effects are counted: the state of the site gets a number beside it, and the
sign is set as soon as the number is reached (`Site.cancelledAfter`). What has to be shown is then a
property of the state that all effects keep, and `Site.Keeps` is the list of conditions for that, one for
each kind of effect. `Leaves` says in which states a move can leave the world, which is all that is needed
to go from effects to moves, and `Sourcing.Ends.keeps` goes from moves to whole runs.

That a cancelled run ends needs no fairness of the remote: before the moment there are only so many effects,
and after it a task that comes up is done.
-/

namespace Harvest

variable {σ : Type}

/-! ## What a move leaves behind

A move hands over records first and sends a request last. In between nothing is done. -/

/-- The ways in which a move leaves the world behind: some records were handed over, and then the task is
done or has sent a request. -/
inductive Leaves (site : Site σ) (d : NodeDefinition) (s : σ) : Task → σ → Prop
  | done {rs : List EntityRecord} {u : Task} (h : u.isDone = true) :
      Leaves site d s u (site.emitAll d rs s)
  | asked {rs : List EntityRecord} {u : Task} {r : Request} (hu : u.isDone = false)
      (hc : site.cancelled (site.emitAll d rs s) = false) :
      Leaves site d s u (site.ask r (site.emitAll d rs s)).2

namespace Task

variable (site : Site σ) (paging : PagingStrategy) (d : NodeDefinition) (t : Task) (s : σ)

/-- Whether a walk is left behind: with nothing done since some records were handed over and other
languages to come, or at the end of the move. -/
def Rests (rs : List EntityRecord) (u : Task) (s' : σ) : Prop :=
  u.phase = .between ∧ s' = site.emitAll d rs s ∨ u.phase ≠ .between ∧ Leaves site d s u s'

/-- To conclude a walk has no effect. -/
theorem conclude_rests (r : Except Failure Unit) (rs : List EntityRecord) :
    Rests site d s rs (t.conclude r) (site.emitAll d rs s) := by
  cases r with
  | ok _ => exact .inl ⟨rfl, rfl⟩
  | error e => cases e <;> first | exact .inl ⟨rfl, rfl⟩ | exact .inr ⟨nofun, .done rfl⟩

/-- To follow a walk has no effect, unless it asks. -/
theorem follow_rests (w : Walk) (rs : List EntityRecord) :
    Rests site d s rs (follow site t w (site.emitAll d rs s)).1
      (follow site t w (site.emitAll d rs s)).2 := by
  unfold follow
  split
  next => exact conclude_rests site d t s _ rs
  next => exact conclude_rests site d t s _ rs
  next r hr =>
    refine .inr ⟨nofun, .asked rfl (Bool.eq_false_iff.mpr fun hc => ?_)⟩
    rw [hc] at hr
    exact absurd hr (Walk.turn_true_ne_ask w r)

theorem beginWalk_rests (l : String) (rs : List EntityRecord) :
    Rests site d s rs (beginWalk site paging t l (site.emitAll d rs s)).1
      (beginWalk site paging t l (site.emitAll d rs s)).2 := by
  unfold beginWalk
  split
  next => exact follow_rests site d t s _ rs
  next => exact conclude_rests site d t s _ rs

/-- Languages begin with a request, or end one after the other without any effect. -/
theorem beginLanguages_leaves (ls : List String) (rs : List EntityRecord) :
    Leaves site d s (beginLanguages site paging t ls (site.emitAll d rs s)).1
      (beginLanguages site paging t ls (site.emitAll d rs s)).2 := by
  induction ls generalizing t with
  | nil => exact .done rfl
  | cons l ls ih =>
      rcases beginWalk_rests site paging d { t with languages := ls } s l rs with
        ⟨hb, hs⟩ | ⟨hb, hleaves⟩
      · rw [beginLanguages_between site paging t _ hb, hs]
        exact ih _
      · rw [beginLanguages_underway site paging t _ hb]
        exact hleaves

/-- Other languages begin in the world that the records left behind. -/
theorem goOn_leaves {x : Task × σ} {rs : List EntityRecord} (h : Rests site d s rs x.1 x.2) :
    Leaves site d s (goOn site paging x).1 (goOn site paging x).2 := by
  obtain ⟨u, s'⟩ := x
  rcases h with ⟨hb, rfl⟩ | ⟨hb, hleaves⟩
  · rw [goOn_between hb]
    exact beginLanguages_leaves site paging d u s u.languages rs
  · rw [goOn_of_ne hb]
    exact hleaves

/-- An answer brings records, and then perhaps a request. -/
theorem resume_leaves (w : Walk) (a : Answer) :
    Leaves site t.definition s (t.resume site paging w a s).1 (t.resume site paging w a s).2 := by
  obtain ⟨⟨rs, after⟩, hr⟩ : ∃ x, w.receive a = x := ⟨_, rfl⟩
  cases after with
  | ok next =>
      rw [resume_ok site paging hr]
      exact goOn_leaves site paging _ _ (follow_rests site t.definition _ s next rs)
  | error e =>
      rw [resume_error site paging hr]
      exact goOn_leaves site paging _ _ (conclude_rests site t.definition _ s (.error e) rs)

/-- **A move hands over records**, and then the task is done or has sent a request. -/
theorem move_leaves (hd : t.isDone = false) (hb : t.phase ≠ .between) :
    Leaves site t.definition s (t.move site paging s).1 (t.move site paging s).2 := by
  rcases waiting_or_asking hd hb with hp | ⟨w, a, hp⟩
  · rw [move, hp]
    exact beginLanguages_leaves site paging _ t s t.languages []
  · rw [move, hp]
    exact resume_leaves site paging t s w a

end Task

/-! ## What all effects keep

The general form of an invariant of the world. -/

/-- Whether the effects of a run keep a property of the world. No request is sent once it is
cancelled. -/
structure Site.Keeps (site : Site σ) (P : σ → Prop) : Prop where
  ask : ∀ r s, site.cancelled s = false → P s → P (site.ask r s).2
  declare : ∀ d s, P s → P (site.declare d s).2
  emit : ∀ d r s, P s → P (site.emit d r s)

section Keeps

variable {site : Site σ} {P : σ → Prop} {s s' : σ}

/-- Handing over records keeps what handing over one of them does. -/
theorem Site.Keeps.emitAll (hk : site.Keeps P) (d : NodeDefinition) (rs : List EntityRecord)
    (hs : P s) : P (site.emitAll d rs s) := by
  induction rs generalizing s with
  | nil => exact hs
  | cons r rs ih => exact ih (hk.emit d r s hs)

theorem Site.Keeps.declareAll (hk : site.Keeps P) (ds : List NodeDefinition) (hs : P s) :
    P (site.declareAll ds s).2 := by
  induction ds generalizing s with
  | nil => exact hs
  | cons d ds ih =>
      have hd := hk.declare d s hs
      rw [Site.declareAll]
      generalize site.declare d s = x at hd
      obtain ⟨x, s'⟩ := x
      cases x with
      | error f => exact hd
      | ok _ => exact ih hd

/-- A move keeps what its effects keep. -/
theorem Leaves.keeps {d : NodeDefinition} {u : Task} (h : Leaves site d s u s') (hk : site.Keeps P)
    (hs : P s) : P s' := by
  cases h with
  | done _ => exact hk.emitAll d _ hs
  | asked _ hc => exact hk.ask _ _ hc (hk.emitAll d _ hs)

/-- A move of one task of a run keeps it. -/
theorem Run.act_keeps (hk : site.Keeps P) (paging : PagingStrategy) {r : Run σ} (hs : r.Settled)
    (hr : P r.world) (i : Nat) : P (r.act site paging i).world := by
  by_cases hm : r.Movable i
  · obtain ⟨t, free, ht, hd, -, he⟩ := Run.act_of_movable site paging hm
    rw [he]
    exact (Task.move_leaves site paging t r.world hd (hs t (List.mem_of_getElem? ht))).keeps hk hr
  · rw [act_of_not_movable site paging hm]
    exact hr

/-- Any number of moves keep it. -/
theorem Run.acts_keeps (hk : site.Keeps P) (paging : PagingStrategy) {r : Run σ} (hs : r.Settled)
    (hr : P r.world) (order : List Nat) : P (r.acts site paging order).world := by
  induction order generalizing r with
  | nil => exact hr
  | cons i order ih => exact ih (hs.act site paging) (r.act_keeps hk paging hs hr i)

/-- **What all effects keep holds at the end of a run.** -/
theorem Sourcing.Ends.keeps {o : Order} {p : Plan} {x : Except Failure Report} (hk : site.Keeps P)
    (hs : P s) (h : Ends site o p s x s') : P s' := by
  have hd := hk.declareAll p.nodes.values hs
  cases h with
  | refused h =>
      rw [h] at hd
      exact hd
  | crashed h hr _ =>
      rw [h] at hd
      rw [hr]
      exact Run.acts_keeps hk _ (Run.start_settled _ _ _) hd _
  | ended h hr _ =>
      rw [h] at hd
      rw [hr]
      exact Run.acts_keeps hk _ (Run.start_settled _ _ _) hd _

end Keeps

/-! ## A sign that is set at some moment

The property that is kept here: there is no request among the effects after the moment. -/

namespace Site

/-- The site on which the sign is set after so many effects. -/
def cancelledAfter (site : Site σ) (m : Nat) : Site (σ × Nat) where
  ask r := fun x => ((site.ask r x.1).1, ((site.ask r x.1).2, x.2 + 1))
  cancelled x := decide (m ≤ x.2)
  declare d x := ((site.declare d x.1).1, ((site.declare d x.1).2, x.2 + 1))
  emit d r x := (site.emit d r x.1, x.2 + 1)
  cache x := site.cache x.1
  keep c x := (site.keep c x.1, x.2)

variable {site : Site σ} {m : Nat}

/-! ### Counting effects

The world of this site has a count beside it. A request looks at the sign before it is sent, so none is sent
once the count has come to the moment. -/

theorem cancelled_cancelledAfter {x : σ × Nat} :
    (site.cancelledAfter m).cancelled x = false ↔ x.2 < m := by
  show decide (m ≤ x.2) = false ↔ _
  rw [decide_eq_false_iff_not, Nat.not_le]

/-- Each record that is handed over is counted. -/
theorem emitAll_cancelledAfter (d : NodeDefinition) (rs : List EntityRecord) (x : σ × Nat) :
    ((site.cancelledAfter m).emitAll d rs x).2 = x.2 + rs.length := by
  induction rs generalizing x with
  | nil => rfl
  | cons r rs ih =>
      rw [emitAll_cons, ih, List.length_cons]
      show x.2 + 1 + rs.length = _
      omega

theorem declareAll_cancelledAfter (ds : List NodeDefinition) (x : σ × Nat) :
    ((site.cancelledAfter m).declareAll ds x).1 = (site.declareAll ds x.1).1 := by
  induction ds generalizing x with
  | nil => rfl
  | cons d ds ih =>
      obtain ⟨⟨y, s⟩, hy⟩ : ∃ y, site.declare d x.1 = y := ⟨_, rfl⟩
      have hy' : (site.cancelledAfter m).declare d x = (y, (s, x.2 + 1)) := by
        show ((site.declare d x.1).1, ((site.declare d x.1).2, x.2 + 1)) = _
        rw [hy]
      rw [declareAll, declareAll, hy, hy']
      cases y with
      | error f => rfl
      | ok _ => exact ih (s, x.2 + 1)

/-- Effects are counted, and there is no request among those after the moment. -/
def Silenced (m : Nat) (x : (σ × Nat) × Trace) : Prop :=
  x.1.2 = x.2.length ∧ Trace.requests (x.2.drop m) = []

/-- An effect that is no request may come at any time. -/
theorem silenced_of_not_request {s : σ} {k : Nat} {log : Trace} {e : Effect}
    (he : e.request? = none) (h : Silenced m ((s, k), log)) (s' : σ) :
    Silenced m ((s', k + 1), log ++ [e]) := by
  obtain ⟨hk, hr⟩ := h
  refine ⟨?_, ?_⟩
  · show k + 1 = (log ++ [e]).length
    rw [List.length_append, ← show k = log.length from hk]
    rfl
  · show Trace.requests ((log ++ [e]).drop m) = []
    rw [List.drop_append, Trace.requests_append, hr, List.nil_append]
    refine List.filterMap_eq_nil_iff.mpr fun x hx => ?_
    rw [List.mem_singleton.mp (List.mem_of_mem_drop hx)]
    exact he

/-- **No request is sent after the moment.** -/
theorem keeps_cancelledAfter (site : Site σ) (m : Nat) :
    (site.cancelledAfter m).traced.Keeps (Silenced m) where
  ask := by
    rintro r ⟨⟨s, k⟩, log⟩ hc ⟨hk, -⟩
    have hc' : (site.cancelledAfter m).cancelled (s, k) = false := hc
    have hlt : k < m := cancelled_cancelledAfter.mp hc'
    have hlen : (log ++ [Effect.asked r (site.ask r s).1]).length = k + 1 := by
      rw [List.length_append, ← show k = log.length from hk]
      rfl
    refine ⟨hlen.symm, ?_⟩
    -- The request itself is the last effect, and the moment is not before its end.
    show Trace.requests (List.drop m (log ++ [Effect.asked r (site.ask r s).1])) = []
    rw [List.drop_of_length_le (by omega)]
    rfl
  declare := fun d x h => silenced_of_not_request rfl h _
  emit := fun d r x h => silenced_of_not_request rfl h _

end Site

/-! ## Every cancelled run ends

The measure is the number of effects up to the moment together with the tasks that are not done. -/

section Rank

variable {site : Site σ} {m : Nat}

/-- A move that does not bring a task to its end was made before the moment, and has effects. -/
theorem Leaves.counts {d : NodeDefinition} {u : Task} {x y : σ × Nat}
    (h : Leaves (site.cancelledAfter m) d x u y) :
    u.isDone = true ∧ x.2 ≤ y.2 ∨ u.isDone = false ∧ x.2 < y.2 ∧ x.2 < m := by
  cases h with
  | @done rs _ hu =>
      refine .inl ⟨hu, ?_⟩
      rw [Site.emitAll_cancelledAfter]
      exact Nat.le_add_right _ _
  | @asked rs _ r hu hc =>
      have hlen : ((site.cancelledAfter m).emitAll d rs x).2 = x.2 + rs.length :=
        Site.emitAll_cancelledAfter d rs x
      rw [Site.cancelled_cancelledAfter, hlen] at hc
      refine .inr ⟨hu, ?_, by omega⟩
      show x.2 < ((site.cancelledAfter m).emitAll d rs x).2 + 1
      omega

/-- Whether the effects up to the moment and the tasks that are not done come to so many at most. -/
def Run.Remaining (m : Nat) (r : Run (σ × Nat)) (k : Nat) : Prop :=
  r.Settled ∧ (m - r.world.2) + r.tasks.countP (fun t => !t.isDone) ≤ k

/-- A move either brings the moment closer or a task to its end. -/
theorem Run.Remaining.act (paging : PagingStrategy) {r : Run (σ × Nat)} {k i : Nat}
    (h : r.Remaining m k) (hm : r.Movable i) :
    ∃ k' < k, (r.act (site.cancelledAfter m) paging i).Remaining m k' := by
  obtain ⟨hs, hk⟩ := h
  have hs' := hs.act (site.cancelledAfter m) paging (i := i)
  obtain ⟨t, free, ht, hd, -, he⟩ := Run.act_of_movable (site.cancelledAfter m) paging hm
  obtain ⟨hi, hti⟩ := List.getElem?_eq_some_iff.mp ht
  have hpos : 0 < r.tasks.countP fun t => !t.isDone :=
    List.countP_pos_iff.mpr ⟨t, List.mem_of_getElem? ht, by rw [hd]; rfl⟩
  have hcounts := (Task.move_leaves (site.cancelledAfter m) paging t r.world hd
    (hs t (List.mem_of_getElem? ht))).counts
  have hcount : (r.act (site.cancelledAfter m) paging i).tasks.countP (fun t => !t.isDone)
      = r.tasks.countP (fun t => !t.isDone) - 1
        + if (t.move (site.cancelledAfter m) paging r.world).1.isDone then 0 else 1 := by
    rw [he, settle, List.countP_set hi, hti, hd]
    cases (t.move (site.cancelledAfter m) paging r.world).1.isDone <;> rfl
  have hworld : (r.act (site.cancelledAfter m) paging i).world
      = (t.move (site.cancelledAfter m) paging r.world).2 := by
    rw [he]
    rfl
  refine ⟨(m - (r.act (site.cancelledAfter m) paging i).world.2)
    + (r.act (site.cancelledAfter m) paging i).tasks.countP (fun t => !t.isDone), ?_, hs',
    Nat.le_refl _⟩
  rw [hcount, hworld]
  -- a move ends a task or reports something, so one part of the sum goes down and the other stays
  rcases hcounts with ⟨hu, hle⟩ | ⟨hu, hlt, hbefore⟩
  · rw [hu, if_pos rfl]
    omega
  · rw [hu, if_neg Bool.false_ne_true]
    omega

/-- **The program comes to its end whenever it is cancelled.** -/
theorem Sourcing.source_returns_cancelled (site : Site σ) (m : Nat) (o : Order) (p : Plan)
    (suspends : Bool) (x : σ × Nat) :
    ∃ steps, ∀ fuel ≥ steps, ∃ y,
      (source (site.cancelledAfter m) ⟨suspends, fuel⟩ o p x).1.result = some y := by
  refine source_returns_of_rank (m := m + p.nodes.values.length)
    (fun h hm => Run.Remaining.act o.walking h hm) (fun y => ⟨Run.start_settled _ _ y, ?_⟩) suspends x
  have hlen : (tasksOf o p y).tasks.length = p.nodes.values.length := List.length_map ..
  have hcount := (tasksOf o p y).tasks.countP_le_length (p := fun t => !t.isDone)
  omega

end Rank

end Harvest
