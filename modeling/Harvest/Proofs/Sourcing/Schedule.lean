import Harvest.Proofs.Sourcing.Course
import Harvest.Proofs.Sourcing.Interleaving
import Mathlib

/-!
# Schedules

In whatever order the tasks of a run move, each of them stands well with what it has done itself, and
the list of all effects is an interleaving of theirs. Permits are neither lost nor made, so that some
task can move as long as not all are done; and if every task ends within so many moves, a schedule in
which every task comes up again and again brings all of them to an end.

A schedule is a sequence of numbers: which task is to come up next. A task that cannot move when it comes up
is passed over, so that any sequence is a schedule, and results hold for all of them unless they ask for
fairness.

There are two arguments in this module. One is by counting: the permits that are free and the tasks that ask
add up to the same number after every move, and `Run.Lasting` gives the tasks a number of moves that gets
smaller with each. The other is an account: `Run.Accounts` pairs a run with the list of its effects, each
under the number of its task, and says that every task stands well with its own part of the list. One move
keeps it, and so do any number of them.
-/

namespace Harvest

variable {σ : Type}

namespace Run

/-! ## Moving one task

By the phase of the task that comes up: it waits for a permit, it waits for an answer, or it is done. -/

/-- Whether a task of a run can move. -/
def Movable (r : Run σ) (i : Nat) : Prop :=
  ∃ t, r.tasks[i]? = some t ∧ (t.phase = .waiting ∧ 0 < r.free ∨ t.isAsking = true)

/-- Whether no task rests between two languages. -/
def Settled (r : Run σ) : Prop := ∀ t ∈ r.tasks, t.phase ≠ .between

section Act

variable (site : Site σ) (paging : PagingStrategy) {r : Run σ} {i : Nat} {t : Task}

theorem act_of_none (h : r.tasks[i]? = none) : r.act site paging i = r := by
  rw [act, h]

/-- A task that waits takes a free permit and moves. -/
theorem act_of_waiting {free : Nat} (h : r.tasks[i]? = some t) (hp : t.phase = .waiting)
    (hf : r.free = free + 1) :
    r.act site paging i = r.settle i free (t.move site paging r.world) := by
  rw [act, h]
  dsimp only
  rw [hp]
  dsimp only
  rw [hf, Task.move, hp]

/-- A task that waits stays where it is while no permit is free. -/
theorem act_of_blocked (h : r.tasks[i]? = some t) (hp : t.phase = .waiting) (hf : r.free = 0) :
    r.act site paging i = r := by
  rw [act, h]
  dsimp only
  rw [hp]
  dsimp only
  rw [hf]

/-- A task that asks moves with the permit that it has. -/
theorem act_of_isAsking (h : r.tasks[i]? = some t) (hp : t.isAsking = true) :
    r.act site paging i = r.settle i r.free (t.move site paging r.world) := by
  unfold Task.isAsking at hp
  split at hp
  next w a ha =>
    rw [act, h]
    dsimp only
    rw [ha]
    dsimp only
    rw [Task.move, ha]
  next => cases hp

theorem act_of_not_movable (h : ¬ r.Movable i) : r.act site paging i = r := by
  cases ht : r.tasks[i]? with
  | none => exact act_of_none site paging ht
  | some t =>
      have hw : t.phase = .waiting → r.free = 0 := by
        intro hp
        by_contra hf
        exact h ⟨t, ht, .inl ⟨hp, Nat.pos_of_ne_zero hf⟩⟩
      have ha : t.isAsking ≠ true := fun ha => h ⟨t, ht, .inr ha⟩
      rw [act, ht]
      dsimp only
      split
      next hp => rw [hw hp]
      next w a hp =>
        refine absurd ?_ ha
        rw [Task.isAsking, hp]
      next => rfl

/-- What becomes of a run in which a task can move. -/
theorem act_of_movable (h : r.Movable i) :
    ∃ t free, r.tasks[i]? = some t ∧ t.isDone = false
      ∧ r.free = free + (if t.isAsking then 0 else 1)
      ∧ r.act site paging i = r.settle i free (t.move site paging r.world) := by
  obtain ⟨t, ht, ⟨hp, hf⟩ | ha⟩ := h
  · obtain ⟨free, hfree⟩ := Nat.exists_eq_succ_of_ne_zero (Nat.ne_of_gt hf)
    refine ⟨t, free, ht, ?_, ?_, act_of_waiting site paging ht hp hfree⟩
    · rw [Task.isDone, hp]
    · rw [Task.isAsking, hp, hfree]
      rfl
  · refine ⟨t, r.free, ht, ?_, ?_, act_of_isAsking site paging ht ha⟩
    · unfold Task.isAsking at ha
      unfold Task.isDone
      split at ha
      next hp => rw [hp]
      next => cases ha
    · rw [if_pos ha]
      rfl

end Act

/-! ## Permits

The number of permits is that of the free ones and of the tasks that ask, at every moment. -/

section Permits

variable (site : Site σ) (paging : PagingStrategy) {r : Run σ} {i : Nat}

/-- At the beginning no task rests between two languages. -/
theorem start_settled (ds : List NodeDefinition) (permits : Nat) (s : σ) :
    (start ds permits s).Settled := by
  intro t ht
  obtain ⟨d, -, rfl⟩ := List.mem_map.mp ht
  exact Phase.noConfusion

theorem getElem?_start {ds : List NodeDefinition} {i : Nat} {d : NodeDefinition} (hd : ds[i]? = some d)
    (permits : Nat) (s : σ) : (start ds permits s).tasks[i]? = some (.fresh d) := by
  show (ds.map Task.fresh)[i]? = _
  rw [List.getElem?_map, hd]
  rfl

/-- At the beginning no task asks. -/
theorem asking_start (ds : List NodeDefinition) (permits : Nat) (s : σ) :
    (start ds permits s).asking = 0 := by
  rw [asking, List.length_eq_zero_iff, List.filter_eq_nil_iff]
  intro t ht
  obtain ⟨d, -, rfl⟩ := List.mem_map.mp ht
  exact Bool.false_ne_true

/-- After a move no task rests between two languages. -/
theorem Settled.act (h : r.Settled) : (r.act site paging i).Settled := by
  by_cases hm : r.Movable i
  · obtain ⟨t, free, ht, hd, -, he⟩ := act_of_movable site paging hm
    rw [he]
    intro u hu
    rcases List.mem_or_eq_of_mem_set hu with hu | rfl
    · exact h u hu
    · exact (Task.move_isUnderway site paging t r.world hd (h t (List.mem_of_getElem? ht))).ne_between
  · rw [act_of_not_movable site paging hm]
    exact h

/-- A task has a permit exactly while it asks. -/
theorem permits_act (h : r.Settled) :
    (r.act site paging i).free + (r.act site paging i).asking = r.free + r.asking := by
  by_cases hm : r.Movable i
  · obtain ⟨t, free, ht, hd, hf, he⟩ := act_of_movable site paging hm
    have hu : Task.isAsking _ = _ :=
      Task.move_isUnderway site paging t r.world hd (h t (List.mem_of_getElem? ht))
    obtain ⟨hi, hti⟩ := List.getElem?_eq_some_iff.mp ht
    have hpos : t.isAsking = true → 0 < r.tasks.countP Task.isAsking := fun ha =>
      List.countP_pos_iff.mpr ⟨t, List.mem_of_getElem? ht, ha⟩
    rw [he, asking, asking, ← List.countP_eq_length_filter, ← List.countP_eq_length_filter, settle,
      List.countP_set hi, hti, hf, hu]
    cases (t.move site paging r.world).1.isDone <;> cases ha : t.isAsking <;> grind
  · rw [act_of_not_movable site paging hm]

/-- **As long as a task is not done, some task can move.** -/
theorem exists_movable (h : r.Settled) (hp : 0 < r.free + r.asking)
    (hu : ∃ t ∈ r.tasks, t.isDone = false) : ∃ i, r.Movable i := by
  -- Whoever asks can move; if nobody asks, there is a permit left for one that waits.
  by_cases ha : 0 < r.asking
  · obtain ⟨t, ht⟩ := List.exists_mem_of_length_pos ha
    obtain ⟨hm, hk⟩ := List.mem_filter.mp ht
    obtain ⟨i, hi⟩ := List.getElem?_of_mem hm
    exact ⟨i, t, hi, .inr hk⟩
  · obtain ⟨t, ht, hd⟩ := hu
    obtain ⟨i, hi⟩ := List.getElem?_of_mem ht
    rcases Task.waiting_or_asking hd (h t ht) with hw | ⟨w, a, hw⟩
    · exact ⟨i, t, hi, .inl ⟨hw, by omega⟩⟩
    · refine absurd (List.length_pos_of_mem (List.mem_filter.mpr ⟨ht, ?_⟩)) ha
      rw [Task.isAsking, hw]

end Permits

end Run

/-! ## How long a run takes

Not every run ends. It does if each task ends within a number of moves of its own, in whatever world it
finds itself. -/

/-- Whether a task ends within so many moves, whatever the world is like at each of them. -/
def Task.EndsWithin (site : Site σ) (paging : PagingStrategy) : Nat → Task → Prop
  | 0, t => t.isDone = true
  | m + 1, t => t.isDone = true ∨ ∀ s, EndsWithin site paging m (t.move site paging s).1

/-- Tasks end within so many moves altogether. -/
inductive Lasting (site : Site σ) (paging : PagingStrategy) : List Task → Nat → Prop
  | nil : Lasting site paging [] 0
  | cons {t : Task} {ts : List Task} {m k : Nat} (h : t.EndsWithin site paging m)
      (hs : Lasting site paging ts k) : Lasting site paging (t :: ts) (m + k)

section Lasting

variable {site : Site σ} {paging : PagingStrategy}

/-- A move is one move less to come. -/
theorem Lasting.move {ts : List Task} {m : Nat} (h : Lasting site paging ts m) {i : Nat} {t : Task}
    (ht : ts[i]? = some t) (hd : t.isDone = false) (s : σ) :
    ∃ k < m, Lasting site paging (ts.set i (t.move site paging s).1) k := by
  induction h generalizing i with
  | nil => cases ht
  | @cons u us m k hu hus ih =>
      cases i with
      | zero =>
          cases ht
          cases m with
          | zero =>
              have hu' : t.isDone = true := hu
              rw [hd] at hu'
              cases hu'
          | succ m =>
              rcases hu with hu | hu
              · rw [hd] at hu
                cases hu
              · exact ⟨m + k, by omega, .cons (hu s) hus⟩
      | succ i =>
          obtain ⟨k', hk, h⟩ := ih ht
          exact ⟨m + k', by omega, .cons hu h⟩

/-- A move of the run is a move of one of its tasks. -/
theorem Lasting.act {r : Run σ} {m i : Nat} (h : Lasting site paging r.tasks m) (hm : r.Movable i) :
    ∃ k < m, Lasting site paging (r.act site paging i).tasks k := by
  obtain ⟨t, free, ht, hd, -, he⟩ := Run.act_of_movable site paging hm
  rw [he]
  exact h.move ht hd r.world

end Lasting

namespace Run

variable (site : Site σ) (paging : PagingStrategy)

theorem acts_append (r : Run σ) (order more : List Nat) :
    r.acts site paging (order ++ more) = (r.acts site paging order).acts site paging more :=
  List.foldl_append

/-- The order of the first moves of a schedule. -/
def firstMoves (schedule : Nat → Nat) (k : Nat) : List Nat := (List.range k).map schedule

/-! ### Fair schedules

In a fair schedule every task comes up again and again. Then some task that can move comes up, and each of
its moves is one less of those that are left. -/

/-- A schedule in which each of so many tasks comes up again and again. -/
def Fair (tasks : Nat) (schedule : Nat → Nat) : Prop :=
  ∀ i < tasks, ∀ k, ∃ j, k ≤ j ∧ schedule j = i

/-- A fair schedule is fair from any move on. -/
theorem Fair.drop {tasks : Nat} {schedule : Nat → Nat} (h : Fair tasks schedule) (m : Nat) :
    Fair tasks fun j => schedule (m + j) := by
  intro i hi k
  obtain ⟨j, hj, he⟩ := h i hi (m + k)
  refine ⟨j - m, by omega, ?_⟩
  show schedule (m + (j - m)) = i
  rw [Nat.add_sub_cancel' (by omega), he]

theorem firstMoves_add (schedule : Nat → Nat) (m k : Nat) :
    firstMoves schedule (m + k)
      = firstMoves schedule m ++ firstMoves (fun j => schedule (m + j)) k := by
  rw [firstMoves, List.range_add, List.map_append, List.map_map]
  rfl

/-- Nothing happens as long as no task that can move comes up. -/
theorem acts_of_not_movable {r : Run σ} {order : List Nat} (h : ∀ i ∈ order, ¬ r.Movable i) :
    r.acts site paging order = r := by
  induction order with
  | nil => rfl
  | cons i order ih =>
      rw [acts_cons, act_of_not_movable site paging (h i List.mem_cons_self)]
      exact ih fun j hj => h j (List.mem_cons_of_mem i hj)

/-- **Fair schedules bring all tasks to an end.** -/
theorem ends_of_fair {r : Run σ} {m : Nat} {schedule : Nat → Nat}
    (hl : Lasting site paging r.tasks m) (hs : r.Settled) (hp : 0 < r.free + r.asking)
    (hf : Fair r.tasks.length schedule) :
    ∃ k, ∀ t ∈ (r.acts site paging (firstMoves schedule k)).tasks, t.isDone = true := by
  induction m using Nat.strongRecOn generalizing r schedule with
  | _ m ih =>
      by_cases hu : ∃ t ∈ r.tasks, t.isDone = false
      · -- Take the first task that comes up and can move: until then nothing happens.
        obtain ⟨i, hi⟩ := exists_movable hs hp hu
        have hcomes : ∃ j, r.Movable (schedule j) := by
          obtain ⟨t, ht, -⟩ := id hi
          obtain ⟨j, -, hj⟩ := hf i (List.getElem?_eq_some_iff.mp ht).1 0
          exact ⟨j, hj ▸ hi⟩
        classical
        have hj := Nat.find_spec hcomes
        have hbefore : r.acts site paging (firstMoves schedule (Nat.find hcomes)) = r := by
          apply acts_of_not_movable site paging
          intro i hi
          obtain ⟨j, hj, rfl⟩ := List.mem_map.mp hi
          exact Nat.find_min hcomes (List.mem_range.mp hj)
        obtain ⟨m', hm', hl'⟩ := hl.act hj
        have hs' := hs.act site paging (i := schedule (Nat.find hcomes))
        have hp' := permits_act site paging (i := schedule (Nat.find hcomes)) hs
        obtain ⟨k, hk⟩ := ih m' hm' hl' hs' (hp' ▸ hp)
          ((length_tasks_act site paging r _).symm ▸ hf.drop (Nat.find hcomes + 1))
        refine ⟨Nat.find hcomes + 1 + k, ?_⟩
        have hfirst : r.acts site paging (firstMoves schedule (Nat.find hcomes + 1))
            = r.act site paging (schedule (Nat.find hcomes)) := by
          rw [firstMoves_add, acts_append, hbefore]
          rfl
        rw [firstMoves_add, acts_append, hfirst]
        exact hk
      · refine ⟨0, ?_⟩
        intro t ht
        by_contra hd
        exact hu ⟨t, ht, Bool.eq_false_iff.mpr hd⟩

end Run

/-! ## What the tasks of a run have done

The effects of different tasks are interleaved, but within one task they keep their order. -/

open Interleaving in
/-- The effects of a run account for its tasks: each of them stands well with its own ones. -/
structure Accounts (site : Site σ) (n : Nat) (ds : List NodeDefinition)
    (steps : Interleaving Effect) (r : Run (σ × Trace)) : Prop where
  length_eq : r.tasks.length = ds.length
  stands : ∀ {i d}, ds[i]? = some d → ∃ t, r.tasks[i]? = some t ∧ Stands site d n (own i steps) t
  bounded : ∀ x ∈ steps, x.1 < ds.length

namespace Accounts

open Interleaving

variable {site : Site σ} {n : Nat} {ds : List NodeDefinition} {steps : Interleaving Effect}
  {r : Run (σ × Trace)}

/-- At the beginning nothing has been done. -/
theorem start (permits : Nat) (x : σ × Trace) : Accounts site n ds [] (.start ds permits x) where
  length_eq := List.length_map ..
  stands := by
    intro i d hd
    exact ⟨.fresh d, Run.getElem?_start hd permits x, .fresh⟩
  bounded := List.forall_mem_nil _

/-- What a task does when it moves is accounted for, at the end and under its number. -/
theorem act_of_movable (hd : ∀ d ∈ ds, d.Coherent) (hn : 0 < n) (h : Accounts site n ds steps r) {i : Nat}
    (hm : r.Movable i) :
    ∃ t s, r.tasks[i]? = some t ∧ t.isDone = false
      ∧ Accounts site n ds (steps ++ block i (t.effects site (.bySize n) s))
        (r.act site.traced (.bySize n) i)
      ∧ (r.act site.traced (.bySize n) i).world.2 = r.world.2 ++ t.effects site (.bySize n) s
      ∧ (r.act site.traced (.bySize n) i).tasks = r.tasks.set i (t.move site (.bySize n) s).1 := by
  obtain ⟨t, free, ht, hdone, -, he⟩ := Run.act_of_movable site.traced (.bySize n) hm
  obtain ⟨⟨s, log⟩, hw⟩ : ∃ x, r.world = x := ⟨_, rfl⟩
  have hi : i < ds.length := h.length_eq ▸ (List.getElem?_eq_some_iff.mp ht).1
  refine ⟨t, s, ht, hdone, ?_⟩
  rw [he, hw, Task.move_traced]
  refine ⟨⟨?_, ?_, ?_⟩, rfl, rfl⟩
  · exact (List.length_set ..).trans h.length_eq
  · intro j d hj
    obtain ⟨u, hu, hst⟩ := h.stands hj
    -- the block of effects belongs to the task that moved, the others stand as before
    by_cases hji : i = j
    · subst hji
      cases ht.symm.trans hu
      refine ⟨_, List.getElem?_set_self (h.length_eq ▸ hi), ?_⟩
      rw [own_append, own_block_self]
      exact hst.move (hd d (List.mem_of_getElem? hj)) hn s
    · refine ⟨u, (List.getElem?_set_ne hji).trans hu, ?_⟩
      rw [own_append, own_block_of_ne hji, List.append_nil]
      exact hst
  · intro x hx
    rcases List.mem_append.mp hx with hx | hx
    · exact h.bounded x hx
    · obtain ⟨y, -, rfl⟩ := List.mem_map.mp hx
      exact hi

/-- **What a move of one task does is accounted for.** -/
theorem act (hd : ∀ d ∈ ds, d.Coherent) (hn : 0 < n) (h : Accounts site n ds steps r) (i : Nat) :
    ∃ more, Accounts site n ds (steps ++ more) (r.act site.traced (.bySize n) i)
      ∧ (r.act site.traced (.bySize n) i).world.2 = r.world.2 ++ merged more := by
  by_cases hm : r.Movable i
  · obtain ⟨t, s, -, -, hacc, hlog, -⟩ := h.act_of_movable hd hn hm
    exact ⟨_, hacc, by rw [merged_block, hlog]⟩
  · rw [Run.act_of_not_movable site.traced (.bySize n) hm]
    refine ⟨[], ?_, ?_⟩
    · rw [List.append_nil]
      exact h
    · rw [merged_nil, List.append_nil]

/-- Any number of moves is accounted for. -/
theorem acts (hd : ∀ d ∈ ds, d.Coherent) (hn : 0 < n) (h : Accounts site n ds steps r)
    (order : List Nat) :
    ∃ more, Accounts site n ds (steps ++ more) (r.acts site.traced (.bySize n) order)
      ∧ (r.acts site.traced (.bySize n) order).world.2 = r.world.2 ++ merged more := by
  induction order generalizing r steps with
  | nil => exact ⟨[], by rwa [List.append_nil], by rw [merged_nil, List.append_nil]; rfl⟩
  | cons i order ih =>
      obtain ⟨m₁, h₁, hw₁⟩ := h.act hd hn i
      obtain ⟨m₂, h₂, hw₂⟩ := ih h₁
      refine ⟨m₁ ++ m₂, ?_, ?_⟩
      · rw [← List.append_assoc]
        exact h₂
      · rw [Run.acts_cons, hw₂, hw₁, merged_append, List.append_assoc]

/-- A task of the run has a number, and stands well with the effects under it. -/
theorem task_of_mem (h : Accounts site n ds steps r) {t : Task} (ht : t ∈ r.tasks) :
    ∃ (i : Nat) (d : NodeDefinition), ds[i]? = some d ∧ Stands site d n (own i steps) t := by
  obtain ⟨i, hi⟩ := List.getElem?_of_mem ht
  have hlt := (List.getElem?_eq_some_iff.mp hi).1
  rw [h.length_eq] at hlt
  obtain ⟨u, hu, hst⟩ := h.stands (List.getElem?_eq_getElem hlt)
  cases hi.symm.trans hu
  exact ⟨i, _, List.getElem?_eq_getElem hlt, hst⟩

/-- **In whatever order tasks move**, each of them stands well with what it has done itself. -/
theorem of_order (site : Site σ) (hd : ∀ d ∈ ds, d.Coherent) (hn : 0 < n) (permits : Nat) (x : σ × Trace)
    (order : List Nat) :
    ∃ steps, Accounts site n ds steps ((Run.start ds permits x).acts site.traced (.bySize n) order)
      ∧ ((Run.start ds permits x).acts site.traced (.bySize n) order).world.2 = x.2 ++ merged steps :=
  (start permits x).acts hd hn order

end Accounts

end Harvest
