import Harvest.Proofs.Sourcing.Scheduler

/-!
# Endings

`Sourcing.Ends` says how a plan can be carried out, whatever the order in which tasks move. The program
itself is one of these ways, `Sourcing.source_ends`, and it comes to an end if its tasks do,
`Sourcing.source_returns`. So what holds of every ending holds of the program.

The program works tasks off in one order, which its agenda fixes. For what is shown about runs that order
does not matter, so `Ends` allows any. There are three endings: a type is refused before the tasks begin,
all tasks come to their ends, or one of them crashes, which ends the run wherever the others stand.
-/

namespace Harvest

variable {σ : Type}

/-! ## Tracing does not change a run

The list of effects is carried along and never looked at. -/

namespace Run

/-- The run without the list of effects. -/
def untraced (r : Run (σ × Trace)) : Run σ := { tasks := r.tasks, free := r.free, world := r.world.1 }

theorem untraced_act (site : Site σ) (paging : PagingStrategy) (r : Run (σ × Trace)) (i : Nat) :
    (r.act site.traced paging i).untraced = r.untraced.act site paging i := by
  -- Whether a task can move does not depend on the list of effects.
  by_cases hm : r.Movable i
  · obtain ⟨t, ht, ⟨hp, hf⟩ | ha⟩ := hm
    · obtain ⟨free, hfree⟩ := Nat.exists_eq_succ_of_ne_zero (Nat.ne_of_gt hf)
      rw [act_of_waiting site.traced paging ht hp hfree,
        act_of_waiting site paging (r := r.untraced) ht hp hfree, Task.move_traced]
      rfl
    · rw [act_of_isAsking site.traced paging ht ha,
        act_of_isAsking site paging (r := r.untraced) ht ha, Task.move_traced]
      rfl
  · have hm' : ¬ r.untraced.Movable i := hm
    rw [act_of_not_movable site.traced paging hm, act_of_not_movable site paging hm']

theorem untraced_acts (site : Site σ) (paging : PagingStrategy) (r : Run (σ × Trace))
    (order : List Nat) :
    (r.acts site.traced paging order).untraced = r.untraced.acts site paging order := by
  induction order generalizing r with
  | nil => rfl
  | cons i order ih => rw [acts_cons, acts_cons, ih, untraced_act]

end Run

theorem Agenda.run_untraced (site : Site σ) (paging : PagingStrategy) (suspends : Bool) (fuel : Nat)
    (a : Agenda) (r : Run (σ × Trace)) :
    Agenda.run site paging suspends fuel a r.untraced
      = ((Agenda.run site.traced paging suspends fuel a r).1,
        (Agenda.run site.traced paging suspends fuel a r).2.1,
        (Agenda.run site.traced paging suspends fuel a r).2.2.untraced) := by
  induction fuel generalizing a r with
  | zero => rfl
  | succ fuel ih =>
      rw [run, run]
      split
      next => rfl
      next => rfl
      next => exact ih _ _
      next i rest hq =>
        dsimp only
        rw [← Run.untraced_act]
        dsimp only [Run.untraced]
        cases (r.act site.traced paging i).tasks[i]? with
        | none => exact ih _ _
        | some t => exact ih _ _

/-- Types are announced one after the other, up to the first that is refused. -/
theorem Site.declareAll_traced (site : Site σ) (ds : List NodeDefinition) (s : σ) (log : Trace) :
    ∃ announced : List NodeDefinition, announced <+: ds
      ∧ ((site.declareAll ds s).1 = .ok () → announced = ds)
      ∧ site.traced.declareAll ds (s, log)
        = ((site.declareAll ds s).1, ((site.declareAll ds s).2, log ++ announced.map .declared)) := by
  induction ds generalizing s log with
  | nil =>
      refine ⟨[], List.prefix_rfl, fun _ => rfl, ?_⟩
      rw [List.map_nil, List.append_nil]
      rfl
  | cons d ds ih =>
      obtain ⟨⟨x, s'⟩, hx⟩ : ∃ x, site.declare d s = x := ⟨_, rfl⟩
      have hx' : site.traced.declare d (s, log) = (x, (s', log ++ [.declared d])) := by
        show ((site.declare d s).1, ((site.declare d s).2, log ++ [.declared d])) = _
        rw [hx]
      rw [declareAll, declareAll, hx, hx']
      cases x with
      | error f => exact ⟨[d], ⟨ds, rfl⟩, nofun, rfl⟩
      | ok _ =>
          obtain ⟨announced, hprefix, hall, h⟩ := ih s' (log ++ [.declared d])
          refine ⟨d :: announced, ?_, fun hok => ?_, h.trans ?_⟩
          · exact List.cons_prefix_cons.mpr ⟨rfl, hprefix⟩
          · rw [hall hok]
          · rw [List.append_assoc]
            rfl

namespace Sourcing

section Source

variable {π : Type} (site : Site σ) (pace : Pace) (o : Order π) (p : Plan) {s s' : σ}

/-- The tasks of a plan before any of them moves. -/
def tasksOf (s : σ) : Run σ := Run.start p.nodes.values o.config.concurrency.toNat s

variable [Paging π]

/-- The tasks of a plan, worked off in the order of an agenda. -/
def workedOff (s : σ) : Option (Except Failure Unit) × Agenda × Run σ :=
  Agenda.run site o.walking pace.suspends pace.fuel (Agenda.start p.nodes.values.length)
    (tasksOf o p s)

/-! ### The program

A run first announces its types, and either stops at one that is refused or works off the tasks of all. -/

theorem source_refused {f : Fault} (h : site.declareAll p.nodes.values s = (.error f, s')) :
    source site pace o p s = ({ result := some (.error (.fault f)), peak := 0 }, s') := by
  rw [source, h]

theorem source_announced (h : site.declareAll p.nodes.values s = (.ok (), s')) :
    source site pace o p s
      = ({ result := (workedOff site pace o p s').1.map (·.map fun _ =>
              p.report (workedOff site pace o p s').2.2.tasks
                (site.cancelled (workedOff site pace o p s').2.2.world))
           peak := (workedOff site pace o p s').2.1.peak },
          (workedOff site pace o p s').2.2.world) := by
  rw [source, h]
  rfl

/-- **Tracing a run changes neither its end nor the world.** -/
theorem source_traced (s : σ) (log : Trace) :
    (source site.traced pace o p (s, log)).1 = (source site pace o p s).1
      ∧ (source site.traced pace o p (s, log)).2.1 = (source site pace o p s).2 := by
  obtain ⟨announced, -, -, h⟩ := site.declareAll_traced p.nodes.values s log
  obtain ⟨⟨x, s'⟩, hx⟩ : ∃ x, site.declareAll p.nodes.values s = x := ⟨_, rfl⟩
  rw [hx] at h
  cases x with
  | error f =>
      rw [source_refused site pace o p hx, source_refused site.traced pace o p h]
      exact ⟨rfl, rfl⟩
  | ok _ =>
      have hr : workedOff site pace o p s' = _ := Agenda.run_untraced site o.walking pace.suspends
        pace.fuel (Agenda.start p.nodes.values.length)
        (tasksOf o p (s', log ++ announced.map Effect.declared))
      rw [source_announced site pace o p hx, source_announced site.traced pace o p h, hr]
      exact ⟨rfl, rfl⟩

end Source

/-! ## The ways to carry out a plan

From the agenda to `Ends`, by the specification of the agenda. -/

section Ends

variable {π : Type} [Paging π] (site : Site σ) (o : Order π) (p : Plan)

/-- The ways in which a plan can be carried out: a type is refused, or tasks move in some order until
one of them crashed or all of them ended. -/
inductive Ends (s : σ) : Except Failure Report → σ → Prop
  | refused {f : Fault} {s' : σ} (h : site.declareAll p.nodes.values s = (.error f, s')) :
      Ends s (.error (.fault f)) s'
  | crashed {s₁ : σ} {order : List Nat} {r : Run σ} {e : Failure}
      (h : site.declareAll p.nodes.values s = (.ok (), s₁))
      (hr : r = (tasksOf o p s₁).acts site o.walking order) (hc : r.Crashed e) :
      Ends s (.error e) r.world
  | ended {s₁ : σ} {order : List Nat} {r : Run σ}
      (h : site.declareAll p.nodes.values s = (.ok (), s₁))
      (hr : r = (tasksOf o p s₁).acts site o.walking order) (he : ∀ t ∈ r.tasks, t.phase = .ended) :
      Ends s (.ok (p.report r.tasks (site.cancelled r.world))) r.world

variable {site o p} {s : σ} {pace : Pace}

/-- **The program carries out a plan in one of these ways.** -/
theorem source_ends (hp : 1 ≤ o.config.concurrency) {x : Except Failure Report}
    (h : (source site pace o p s).1.result = some x) :
    Ends site o p s x (source site pace o p s).2 := by
  obtain ⟨⟨y, s₁⟩, hd⟩ : ∃ x, site.declareAll p.nodes.values s = x := ⟨_, rfl⟩
  cases y with
  | error f =>
      rw [source_refused site pace o p hd] at h ⊢
      cases h
      exact .refused hd
  | ok _ =>
      rw [source_announced site pace o p hd] at h ⊢
      obtain ⟨⟨ended, a', r'⟩, hrun⟩ : ∃ x, workedOff site pace o p s₁ = x := ⟨_, rfl⟩
      rw [hrun] at h ⊢
      have hpos : 0 < o.config.concurrency.toNat := by omega
      cases ended with
      | none => cases h
      | some z =>
          obtain ⟨order, he, hends⟩ := Agenda.run_spec site o.walking pace.suspends
            (Agenda.fits_start p.nodes.values _ s₁) hpos hrun
          cases z with
          | error e =>
              cases h
              exact .crashed hd he hends
          | ok _ =>
              cases h
              exact .ended hd he hends

/-- **The program comes to an end if its moves use something up.** -/
theorem source_returns_of_rank {Rank : Run σ → Nat → Prop}
    (hrank : ∀ {r m i}, Rank r m → r.Movable i → ∃ k < m, Rank (r.act site o.walking i) k) {m : Nat}
    (hl : ∀ s, Rank (tasksOf o p s) m) (suspends : Bool) (s : σ) :
    ∃ steps, ∀ fuel ≥ steps, ∃ x, (source site ⟨suspends, fuel⟩ o p s).1.result = some x := by
  refine ⟨(Agenda.start p.nodes.values.length).weight + 3 * m + 1, ?_⟩
  intro fuel hf
  obtain ⟨⟨y, s₁⟩, hd⟩ : ∃ x, site.declareAll p.nodes.values s = x := ⟨_, rfl⟩
  cases y with
  | error f =>
      rw [source_refused site _ o p hd]
      exact ⟨_, rfl⟩
  | ok _ =>
      have hends : (workedOff site ⟨suspends, fuel⟩ o p s₁).1.isSome = true :=
        Agenda.run_ends_of_rank site o.walking suspends hrank
          (Agenda.fits_start p.nodes.values o.config.concurrency.toNat s₁) (hl s₁) hf
      obtain ⟨x, hx⟩ := Option.isSome_iff_exists.mp hends
      rw [source_announced site _ o p hd, hx]
      exact ⟨_, rfl⟩

/-- **The program comes to an end if the tasks do.** -/
theorem source_returns {m : Nat} (hl : Lasting site o.walking (p.nodes.values.map .fresh) m)
    (suspends : Bool) (s : σ) :
    ∃ steps, ∀ fuel ≥ steps, ∃ x, (source site ⟨suspends, fuel⟩ o p s).1.result = some x :=
  source_returns_of_rank (fun h hm => Lasting.act h hm) (fun _ => hl) suspends s

end Ends

end Sourcing

end Harvest
