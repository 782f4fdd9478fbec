import Harvest.Proofs.Sourcing.Permits
import Harvest.Proofs.Sourcing.Reporting

/-!
# Every type gets its turn

A type needs a permit to begin, and gives it back when it is done. A type with a listing that never ends is
never done, so that it keeps its permit for ever, and as many of them as there are permits keep all others
from ever beginning (`Run.HeldFrom.waits`). Nothing else does: `begins_or_held` says so of every schedule
in which each task comes up again and again, and `ends_or_held` that a type whose listings end is done at
some time, unless the permits are held for ever.

The reason is that tasks only ever get closer to their ends (`Run.ahead_act_le`), so that from some move on
none of them begins and none gets done any more (`Run.stabilizes`). A task that waits for a permit comes up
after that, so there is no permit left for it. Those that have the permits then wait for their answers for
ever, although they come up as well, and so have no bound on their moves (`Run.not_endsWithin`); but a task
of a type whose listings all end has one, wherever it stands (`Stands.endsWithin_of_not_endless`).

`permits_never_lost` draws together what holds of a run. That a type may wait for ever is no mere gap in the
proof: `Sample.never_begins` is a run with a single permit in which the second type never begins.
-/

namespace Harvest

open Interleaving

variable {σ : Type}

/-! ## Listings without end

A type is endless if in one of its languages every page can be full, and it is not if each language stops at
some page, whatever the pages are that come before. -/

/-- Whether a type has a listing that never ends: all of its pages can be full. -/
def Site.Endless (site : Site σ) (d : NodeDefinition) (n : Nat) : Prop :=
  ∃ l ∈ d.languages, ∀ k, ∃ a vs, site.Gives (d.pageRequest l n k) a
    ∧ a.reading d.document.queryField = .items vs ∧ n ≤ vs.length

section Endless

variable {site : Site σ} {d : NodeDefinition} {n : Nat} {es : Trace} {t : Task}

/-- Some bound holds of all members of a list, if every member has one. -/
theorem exists_bound {α : Type} {P : α → Nat → Prop} {xs : List α} (h : ∀ x ∈ xs, ∃ k, P x k) :
    ∃ bound, ∀ x ∈ xs, ∃ k ≤ bound, P x k := by
  induction xs with
  | nil => exact ⟨0, nofun⟩
  | cons x xs ih =>
      obtain ⟨bound, hbound⟩ := ih fun y hy => h y (List.mem_cons_of_mem x hy)
      obtain ⟨k, hk⟩ := h x List.mem_cons_self
      refine ⟨max k bound, List.forall_mem_cons.mpr ⟨⟨k, le_max_left k bound, hk⟩, fun y hy => ?_⟩⟩
      obtain ⟨j, hj, hy⟩ := hbound y hy
      exact ⟨j, hj.trans (le_max_right k bound), hy⟩

/-- Listings that are not without end stop. -/
theorem stops_of_not_endless (h : ¬site.Endless d n) : ∃ pages, site.Stops d n pages := by
  refine exists_bound fun l hl => ?_
  by_contra hnone
  refine h ⟨l, hl, fun k => ?_⟩
  by_contra hk
  refine hnone ⟨k, fun a vs hg hr => ?_⟩
  by_contra hfull
  exact hk ⟨a, vs, hg, hr, Nat.le_of_not_lt hfull⟩

/-- **A task of a type without endless listings ends** within so many moves, wherever it stands. -/
theorem Stands.endsWithin_of_not_endless (hd : d.Coherent) (hn : 0 < n) (h : Stands site d n es t)
    (hends : ¬site.Endless d n) : ∃ m, t.EndsWithin site (.bySize n) m := by
  obtain ⟨pages, hstops⟩ := stops_of_not_endless hends
  refine ⟨t.languages.length * (pages + 1) + pages + 1, h.endsWithin hd hn hstops ⟨fun _ => ?_, fun _ => ?_⟩⟩
  · omega
  · omega

end Endless

/-! ## Pages that are all full

The stronger case, where every page is full in every language. A walk of such a type goes on for ever, so
that its task never comes to its second language. -/

/-- Whether all pages of a type are full, in each of its languages. -/
structure Site.Fills (site : Site σ) (d : NodeDefinition) (n : Nat) : Prop where
  nonempty : d.languages ≠ []
  full : ∀ l ∈ d.languages, ∀ k a, site.Gives (d.pageRequest l n k) a →
    ∃ vs, a.reading d.document.queryField = .items vs ∧ n ≤ vs.length

section Fills

variable {site : Site σ} {d : NodeDefinition} {n : Nat} {es : Trace} {t : Task}

/-- A type whose pages are all full has a listing without end. -/
theorem Site.Fills.endless (h : site.Fills d n) (s : σ) : site.Endless d n := by
  obtain ⟨l, hl⟩ := List.exists_mem_of_ne_nil _ h.nonempty
  refine ⟨l, hl, fun k => ?_⟩
  have hg : site.Gives (d.pageRequest l n k) (site.ask (d.pageRequest l n k) s).1 := ⟨s, rfl⟩
  obtain ⟨vs, hr, hv⟩ := h.full l hl k _ hg
  exact ⟨_, vs, hg, hr, hv⟩

/-- A language that is behind a task was walked through. -/
theorem Behind.exists_walked {past : List String} {e : TypeReport} (h : Behind site d n past es e)
    {l : String} (hl : l ∈ past) : ∃ more f, Walked site d n l more f := by
  induction h with
  | nothing => cases hl
  | language _ hw ih =>
      rcases List.mem_append.mp hl with hl | hl
      · exact ih hl
      · rw [List.mem_singleton.mp hl]
        exact ⟨_, _, hw⟩

/-- In each of its languages, a task at its end has come to a page that is not full. -/
theorem Stands.exists_last (h : Stands site d n es t) (hp : t.phase = .ended) (hnever : ¬site.Cancels)
    {l : String} (hl : l ∈ d.languages) : ∃ k a, site.Gives (d.pageRequest l n k) a
      ∧ ∀ vs, a.reading d.document.queryField = .items vs → vs.length < n := by
  obtain ⟨e, hb, -⟩ := (h.of_ended hp).resolve_right fun hc => hnever hc.1
  obtain ⟨more, f, hw⟩ := hb.exists_walked hl
  obtain ⟨k, before, a, -, hg, hlast, -⟩ := hw.last
  exact ⟨k, a, hg, hlast⟩

/-- **A task whose pages are all full is never done**, unless the run is cancelled. -/
theorem Stands.not_isDone_of_fills (h : Stands site d n es t) (hfills : site.Fills d n)
    (hnever : ¬site.Cancels) : t.isDone = false := by
  refine Bool.eq_false_iff.mpr fun hdone => ?_
  rcases Task.ended_or_crashed hdone with hp | ⟨f, hp⟩
  · obtain ⟨l, hl⟩ := List.exists_mem_of_ne_nil _ hfills.nonempty
    obtain ⟨k, a, hg, hlast⟩ := h.exists_last hp hnever hl
    obtain ⟨vs, hr, hv⟩ := hfills.full l hl k a hg
    exact Nat.not_lt.mpr hv (hlast vs hr)
  · obtain ⟨l, k, a, g, hl, hg, hr, -⟩ := h.of_crashed hp
    obtain ⟨vs, hitems, -⟩ := hfills.full l hl k a hg
    cases hr.symm.trans hitems

end Fills

/-! ## How far tasks are from their ends

A task has two steps ahead of it at first, to begin and to be done, one when it has begun, and none when it
is done. It never goes back a step, so that in a run of finitely many tasks the number of steps that are
ever made is bounded. -/

/-- How many steps a task has ahead of it: to begin, and to be done. -/
def Task.ahead (t : Task) : Nat :=
  match t.phase with
  | .waiting => 2
  | .asking .. => 1
  | _ => 0

namespace Task

variable {t : Task}

/-! ### The steps and the phase

The number of steps tells whether a task waits, asks or is done, and no move makes it larger. Over a whole
schedule it is therefore constant from some move on. -/

theorem isAsking_iff : t.isAsking = true ↔ t.ahead = 1 := by
  unfold isAsking ahead
  cases t.phase <;> simp

theorem isDone_iff (h : t.phase ≠ .between) : t.isDone = true ↔ t.ahead = 0 := by
  unfold isDone ahead
  cases hp : t.phase <;> simp_all

theorem phase_of_ahead (h : t.ahead = 2) : t.phase = .waiting := by
  unfold ahead at h
  cases hp : t.phase <;> rw [hp] at h <;> first | rfl | cases h

theorem hasBegun_iff : t.hasBegun = true ↔ t.ahead ≠ 2 := by
  unfold hasBegun ahead
  cases t.phase <;> simp

theorem ahead_le (t : Task) : t.ahead ≤ 2 := by
  unfold ahead
  cases t.phase <;> simp

theorem IsUnderway.ahead_le (h : t.IsUnderway) : t.ahead ≤ 1 := by
  unfold IsUnderway isAsking isDone at h
  unfold ahead
  cases hp : t.phase <;> simp_all

/-- A task that waits for an answer has a move to come. -/
theorem EndsWithin.of_isAsking {site : Site σ} {paging : PagingStrategy} {m : Nat}
    (h : t.EndsWithin site paging m) (ha : t.isAsking = true) :
    ∃ k < m, ∀ s, (t.move site paging s).1.EndsWithin site paging k := by
  have hdone : ¬t.isDone = true := by
    unfold isAsking at ha
    unfold isDone
    cases hp : t.phase <;> simp_all
  cases m with
  | zero => exact absurd h hdone
  | succ m => exact ⟨m, Nat.lt_succ_self m, h.resolve_left hdone⟩

end Task

namespace Run

/-- How many steps a task of a run has ahead of it. -/
def ahead (r : Run σ) (i : Nat) : Nat := (r.tasks[i]?.map Task.ahead).getD 0

/-- The tasks that hold a permit. -/
def holders (r : Run σ) : List Nat := (List.range r.tasks.length).filter fun i => r.ahead i = 1

theorem ahead_eq {r : Run σ} {i : Nat} {t : Task} (h : r.tasks[i]? = some t) : r.ahead i = t.ahead := by
  rw [ahead, h]
  rfl

theorem ahead_of_le {r : Run σ} {i : Nat} (h : r.tasks.length ≤ i) : r.ahead i = 0 := by
  rw [ahead, List.getElem?_eq_none h]
  rfl

/-- Who has a step ahead is one of the tasks of the run. -/
theorem exists_of_ahead {r : Run σ} {i m : Nat} (h : r.ahead i = m + 1) :
    ∃ t, r.tasks[i]? = some t ∧ t.ahead = m + 1 := by
  cases ht : r.tasks[i]? with
  | none =>
      rw [ahead, ht] at h
      cases h
  | some t => exact ⟨t, rfl, (ahead_eq ht).symm.trans h⟩

theorem ahead_le (r : Run σ) (i : Nat) : r.ahead i ≤ 2 := by
  cases h : r.tasks[i]? with
  | none =>
      rw [ahead, h]
      exact Nat.zero_le 2
  | some t => exact (ahead_eq h).trans_le t.ahead_le

/-- Permits are held by those who wait for an answer, one by each. -/
theorem length_holders (r : Run σ) : r.holders.length = r.asking := by
  have hmap : r.tasks.map Task.isAsking
      = (List.range r.tasks.length).map fun i => decide (r.ahead i = 1) := by
    refine List.ext_getElem (by rw [List.length_map, List.length_map, List.length_range]) ?_
    intro i h₁ _
    rw [List.length_map] at h₁
    rw [List.getElem_map, List.getElem_map, List.getElem_range, ahead_eq (List.getElem?_eq_getElem h₁),
      Bool.eq_iff_iff, decide_eq_true_iff]
    exact Task.isAsking_iff
  have hcount := congrArg (List.countP id) hmap
  rw [List.countP_map, List.countP_map] at hcount
  rw [holders, asking, ← List.countP_eq_length_filter, ← List.countP_eq_length_filter]
  exact hcount.symm

variable (site : Site σ) (paging : PagingStrategy)

/-- A move takes tasks closer to their ends only. -/
theorem ahead_act_le {r : Run σ} (hs : r.Settled) (i j : Nat) :
    (r.act site paging i).ahead j ≤ r.ahead j := by
  by_cases hm : r.Movable i
  · obtain ⟨t, u, h⟩ := steps_act site paging hs hm
    by_cases hj : j = i
    · subst hj
      have ht : ¬t.ahead = 0 := by
        rw [← Task.isDone_iff (hs t (List.mem_of_getElem? h.before)), h.undone]
        exact Bool.false_ne_true
      have hu := h.isUnderway.ahead_le
      rw [ahead_eq h.before, ahead_eq h.after]
      omega
    · rw [ahead, ahead, h.others hj]
  · rw [act_of_not_movable site paging hm]

/-! ## States of a run one after the other

A schedule names the task that comes up, move by move, and need not end. What does not change from one state
to the next is here in terms of the number of moves. -/

/-- The state of a run after so many moves of a schedule. -/
def after (r : Run σ) (schedule : Nat → Nat) (k : Nat) : Run σ :=
  r.acts site paging (firstMoves schedule k)

section After

variable {site paging} {r : Run σ} {schedule : Nat → Nat}

theorem after_succ (k : Nat) :
    r.after site paging schedule (k + 1) = (r.after site paging schedule k).act site paging (schedule k) := by
  rw [after, firstMoves_add, acts_append]
  rfl

theorem Settled.after (hs : r.Settled) (k : Nat) : (r.after site paging schedule k).Settled :=
  hs.acts site paging _

variable (site paging schedule)

theorem length_after (k : Nat) : (r.after site paging schedule k).tasks.length = r.tasks.length := by
  induction k with
  | zero => rfl
  | succ k ih => rw [after_succ, length_tasks_act, ih]

theorem permits_after (hs : r.Settled) (k : Nat) :
    (r.after site paging schedule k).free + (r.after site paging schedule k).asking = r.free + r.asking :=
  permits_acts site paging hs _

/-- The steps ahead of a task get fewer only. -/
theorem antitone_ahead (hs : r.Settled) (j : Nat) :
    Antitone fun k => (r.after site paging schedule k).ahead j :=
  antitone_nat_of_succ_le fun k => by
    rw [after_succ]
    exact ahead_act_le site paging (hs.after k) _ _

/-- A task that has begun waits for an answer as long as it is not done. -/
theorem ahead_eq_one (hs : r.Settled) {j k₀ k : Nat} {t : Task} (hk : k₀ ≤ k)
    (hbegun : (r.after site paging schedule k₀).ahead j ≠ 2)
    (ht : (r.after site paging schedule k).tasks[j]? = some t) (hopen : t.isDone = false) :
    (r.after site paging schedule k).ahead j = 1 := by
  have hfirst := ahead_le (r.after site paging schedule k₀) j
  have hnext := antitone_ahead site paging schedule hs j hk
  have hlast : ¬(r.after site paging schedule k).ahead j = 0 := by
    rw [ahead_eq ht, ← Task.isDone_iff (hs.after k t (List.mem_of_getElem? ht)), hopen]
    exact Bool.false_ne_true
  dsimp only at hnext
  omega

/-! ### Where nothing changes any more

Each task has a last change. From the last of all on, who waits goes on waiting and who asks goes on asking,
so a task that waits and yet comes up again and again must find that there is no permit. -/

/-- From some move on, no task begins any more and none gets done. -/
theorem stabilizes (hs : r.Settled) :
    ∃ k₀, ∀ k ≥ k₀, ∀ j,
      (r.after site paging schedule k).ahead j = (r.after site paging schedule k₀).ahead j := by
  have hmin (j : Nat) : ∃ k, ∀ m, (r.after site paging schedule k).ahead j
      ≤ (r.after site paging schedule m).ahead j :=
    ⟨_, fun m => Function.argmin_le (fun k => (r.after site paging schedule k).ahead j) m⟩
  obtain ⟨k₀, hk₀⟩ := exists_bound fun j (_ : j ∈ List.range r.tasks.length) => hmin j
  refine ⟨k₀, fun k hk j => ?_⟩
  by_cases hj : j < r.tasks.length
  · obtain ⟨least, hle, hleast⟩ := hk₀ j (List.mem_range.mpr hj)
    have hfirst := antitone_ahead site paging schedule hs j hle
    have hsecond := antitone_ahead site paging schedule hs j hk
    exact le_antisymm hsecond (hfirst.trans (hleast k))
  · rw [ahead_of_le (by rw [length_after]; omega), ahead_of_le (by rw [length_after]; omega)]

variable {site paging schedule}

/-- A task that waits although it comes up again and again finds all permits taken, from some move on by
the same tasks for ever. -/
theorem held_of_waiting (hs : r.Settled) (hfair : Fair r.tasks.length schedule) {i : Nat}
    (hi : i < r.tasks.length) (hwaits : ∀ k, (r.after site paging schedule k).ahead i = 2) :
    ∃ (k₀ : Nat) (held : List Nat), held.Nodup ∧ held.length = r.free + r.asking
      ∧ ∀ k ≥ k₀, ∀ j ∈ held, (r.after site paging schedule k).ahead j = 1 := by
  obtain ⟨k₀, hk₀⟩ := stabilizes site paging schedule hs
  have hheld {k : Nat} (hk : k₀ ≤ k) :
      (r.after site paging schedule k).holders = (r.after site paging schedule k₀).holders := by
    rw [holders, holders, length_after, length_after]
    exact List.filter_congr fun j _ => by rw [hk₀ k hk j]
  refine ⟨k₀, (r.after site paging schedule k₀).holders, List.nodup_range.filter _, ?_, ?_⟩
  · -- When the task comes up, no permit is left: it would begin.
    obtain ⟨k, hk, rfl⟩ := hfair i hi k₀
    have hfree : (r.after site paging schedule k).free = 0 := by
      by_contra hfree
      obtain ⟨t, ht, hahead⟩ := exists_of_ahead (hwaits k)
      have hmoves : (r.after site paging schedule k).Movable (schedule k) :=
        ⟨t, ht, .inl ⟨Task.phase_of_ahead hahead, Nat.pos_of_ne_zero hfree⟩⟩
      obtain ⟨_, u, hsteps⟩ := steps_act site paging (hs.after k) hmoves
      have hnext := hwaits (k + 1)
      rw [after_succ, ahead_eq hsteps.after] at hnext
      have hle := hsteps.isUnderway.ahead_le
      omega
    rw [← hheld hk, length_holders, ← permits_after site paging schedule hs k, hfree, Nat.zero_add]
  · intro k hk j hj
    rw [← hheld hk] at hj
    exact of_decide_eq_true (List.mem_filter.mp hj).2

/-- Tasks other than the one that comes up stay as they are. -/
theorem getElem?_tasks_act {i j : Nat} (h : i ≠ j) : (r.act site paging i).tasks[j]? = r.tasks[j]? := by
  by_cases hm : r.Movable i
  · obtain ⟨t, free, -, -, -, he⟩ := act_of_movable site paging hm
    rw [he]
    exact List.getElem?_set_ne h
  · rw [act_of_not_movable site paging hm]

/-- The bound on the moves of a task that waits for an answer is smaller after a move of its own, and the
same after all others. -/
theorem endsWithin_succ {k j m : Nat} {t : Task} (hask : (r.after site paging schedule k).ahead j = 1)
    (ht : (r.after site paging schedule k).tasks[j]? = some t) (hends : t.EndsWithin site paging m) :
    ∃ u m', (r.after site paging schedule (k + 1)).tasks[j]? = some u ∧ u.EndsWithin site paging m'
      ∧ m' ≤ m ∧ (schedule k = j → m' < m) := by
  by_cases hcomes : schedule k = j
  · have hask : t.isAsking = true := Task.isAsking_iff.mpr ((ahead_eq ht).symm.trans hask)
    obtain ⟨m', hm', hends⟩ := hends.of_isAsking hask
    refine ⟨_, m', ?_, hends (r.after site paging schedule k).world, hm'.le, fun _ => hm'⟩
    rw [after_succ, hcomes, act_of_isAsking site paging ht hask]
    exact List.getElem?_set_self (List.getElem?_eq_some_iff.mp ht).1
  · refine ⟨t, m, ?_, hends, le_rfl, fun h => absurd h hcomes⟩
    rw [after_succ, getElem?_tasks_act hcomes, ht]

/-- A task that waits for an answer for ever has no bound on its moves, if it comes up again and again. -/
theorem not_endsWithin (hfair : Fair r.tasks.length schedule) {k₀ j m : Nat} {t : Task}
    (hasks : ∀ k ≥ k₀, (r.after site paging schedule k).ahead j = 1)
    (ht : (r.after site paging schedule k₀).tasks[j]? = some t) : ¬t.EndsWithin site paging m := by
  -- By induction on the bound, and within it on how long it takes the task to come up.
  induction m using Nat.strongRecOn generalizing k₀ t with
  | _ m ih =>
      have hj : j < r.tasks.length := by
        rw [← length_after site paging schedule k₀]
        exact (List.getElem?_eq_some_iff.mp ht).1
      obtain ⟨k, hk, hcomes⟩ := hfair j hj k₀
      obtain ⟨gap, rfl⟩ := Nat.exists_eq_add_of_le hk
      clear hk
      induction gap generalizing k₀ t with
      | zero =>
          intro hends
          obtain ⟨u, m', hu, hends', -, hlt⟩ := endsWithin_succ (hasks k₀ le_rfl) ht hends
          exact ih m' (hlt hcomes) (fun k hk => hasks k (Nat.le_of_succ_le hk)) hu hends'
      | succ gap ihgap =>
          intro hends
          obtain ⟨u, m', hu, hends', hle, -⟩ := endsWithin_succ (hasks k₀ le_rfl) ht hends
          have hasks' : ∀ k ≥ k₀ + 1, (r.after site paging schedule k).ahead j = 1 := fun k hk =>
            hasks k (Nat.le_of_succ_le hk)
          rcases hle.lt_or_eq with hlt | rfl
          · exact ih m' hlt hasks' hu hends'
          · refine ihgap hasks' hu ?_ hends'
            rw [← hcomes, Nat.add_assoc, Nat.add_comm 1]

end After

end Run

/-! ## Permits that are held for ever

The two ways in which a run can look from some move on: either every task that waits has had its turn, or
the permits are all with tasks of endless types, who keep them. -/

/-- Whether all permits are held for ever from some move on, by types with a listing that never ends. -/
def Run.HeldFrom (site : Site σ) (n permits : Nat) (r : Run σ) (schedule : Nat → Nat) (k₀ : Nat) : Prop :=
  ∃ held : List Nat, held.Nodup ∧ held.length = permits ∧ ∀ k ≥ k₀, ∀ j ∈ held,
    ∃ t, (r.after site (.bySize n) schedule k).tasks[j]? = some t ∧ t.isAsking = true
      ∧ site.Endless t.definition n

def Run.HeldForEver (site : Site σ) (n permits : Nat) (r : Run σ) (schedule : Nat → Nat) : Prop :=
  ∃ k₀, r.HeldFrom site n permits schedule k₀

/-- While all permits are held, none is free. -/
theorem Run.free_of_held {site : Site σ} {paging : PagingStrategy} {r : Run σ} {schedule : Nat → Nat}
    (hs : r.Settled) {k : Nat} {held : List Nat} (hnodup : held.Nodup)
    (hcount : held.length = r.free + r.asking)
    (hheld : ∀ j ∈ held, (r.after site paging schedule k).ahead j = 1) :
    (r.after site paging schedule k).free = 0 := by
  have hsubset : held ⊆ (r.after site paging schedule k).holders := by
    intro j hj
    refine List.mem_filter.mpr ⟨List.mem_range.mpr ?_, decide_eq_true (hheld j hj)⟩
    by_contra hlt
    have hnone := ahead_of_le (Nat.le_of_not_lt hlt)
    rw [hheld j hj] at hnone
    cases hnone
  have hle := (hnodup.subperm hsubset).length_le
  have hpermits := permits_after site paging schedule hs k
  rw [length_holders] at hle
  omega

/-- **As long as types without end hold all permits, nobody else begins**: who has not begun stays as it
is. -/
theorem Run.HeldFrom.waits {site : Site σ} {n permits : Nat} {r : Run σ} {schedule : Nat → Nat}
    {k₀ k k' i : Nat} {t : Task} (h : r.HeldFrom site n permits schedule k₀) (hs : r.Settled)
    (hpermits : r.free + r.asking = permits) (hk : k₀ ≤ k)
    (ht : (r.after site (.bySize n) schedule k).tasks[i]? = some t) (hwaits : t.hasBegun = false)
    (hk' : k ≤ k') : (r.after site (.bySize n) schedule k').tasks[i]? = some t := by
  obtain ⟨held, hnodup, hcount, hheld⟩ := h
  have hwaiting : t.phase = .waiting := by
    refine Task.phase_of_ahead (not_not.mp fun hahead => ?_)
    rw [Task.hasBegun_iff.mpr hahead] at hwaits
    cases hwaits
  induction hk' with
  | refl => exact ht
  | @step k' hk' ih =>
      have hfree : (r.after site (.bySize n) schedule k').free = 0 := by
        refine free_of_held hs hnodup (hcount.trans hpermits.symm) fun j hj => ?_
        obtain ⟨u, hu, hasks, -⟩ := hheld k' (hk.trans hk') j hj
        exact (ahead_eq hu).trans (Task.isAsking_iff.mp hasks)
      rw [after_succ]
      by_cases hcomes : schedule k' = i
      · rw [hcomes, act_of_blocked site _ ih hwaiting hfree]
        exact ih
      · rw [getElem?_tasks_act hcomes]
        exact ih

namespace Plan.Coherent

variable {p : Plan} {n : Nat}

/-- Who waits for an answer for ever has a listing that never ends. -/
theorem endless_of_asks (hp : p.Coherent) (hn : 0 < n) (site : Site σ) (permits : Nat) (s : σ)
    {schedule : Nat → Nat} (hfair : Run.Fair p.nodes.values.length schedule) {k₀ j : Nat}
    (hasks : ∀ k ≥ k₀,
      ((Run.start p.nodes.values permits s).after site (.bySize n) schedule k).ahead j = 1)
    {t : Task}
    (ht : ((Run.start p.nodes.values permits s).after site (.bySize n) schedule k₀).tasks[j]? = some t) :
    site.Endless t.definition n := by
  obtain ⟨d, hd, es, hst⟩ :=
    hp.stands_of_order site permits s (Run.firstMoves schedule k₀) hn t (List.mem_of_getElem? ht)
  rw [hst.definition_eq]
  by_contra hends
  obtain ⟨m, hm⟩ := hst.endsWithin_of_not_endless (hp.node hd) hn hends
  have hfair : Run.Fair (Run.start p.nodes.values permits s).tasks.length schedule :=
    (List.length_map ..).symm ▸ hfair
  exact Run.not_endsWithin hfair hasks ht hm

/-! ### Turns

The two results are alternatives: a type comes to begin, or to be done, unless all permits are held by types
that get one full page after the other. `held_of_fills` says that the second can happen. -/

/-- **Every type begins when its turn comes, unless types without end hold all permits for ever.** -/
theorem begins_or_held (hp : p.Coherent) (hn : 0 < n) (site : Site σ) (permits : Nat) (s : σ)
    {schedule : Nat → Nat} (hfair : Run.Fair p.nodes.values.length schedule) {i : Nat}
    (hi : i < p.nodes.values.length) :
    (∃ k t, ((Run.start p.nodes.values permits s).after site (.bySize n) schedule k).tasks[i]? = some t
        ∧ t.hasBegun = true)
      ∨ (Run.start p.nodes.values permits s).HeldForEver site n permits schedule := by
  have hlength : (Run.start p.nodes.values permits s).tasks.length = p.nodes.values.length :=
    List.length_map ..
  have hsettled := Run.start_settled p.nodes.values permits s
  by_cases hbegins : ∃ k,
      ((Run.start p.nodes.values permits s).after site (.bySize n) schedule k).ahead i ≠ 2
  · obtain ⟨k, hk⟩ := hbegins
    have hlt : i < ((Run.start p.nodes.values permits s).after site (.bySize n) schedule k).tasks.length := by
      rw [Run.length_after, hlength]
      exact hi
    have ht := List.getElem?_eq_getElem hlt
    exact .inl ⟨k, _, ht, Task.hasBegun_iff.mpr fun h => hk ((Run.ahead_eq ht).trans h)⟩
  · have hwaits : ∀ k,
        ((Run.start p.nodes.values permits s).after site (.bySize n) schedule k).ahead i = 2 := fun k => by
      by_contra hk
      exact hbegins ⟨k, hk⟩
    obtain ⟨k₀, held, hnodup, hcount, hheld⟩ :=
      Run.held_of_waiting hsettled (hlength.symm ▸ hfair) (hlength.symm ▸ hi) hwaits
    rw [Run.asking_start, Nat.add_zero] at hcount
    refine .inr ⟨k₀, held, hnodup, hcount, fun k hk j hj => ?_⟩
    obtain ⟨t, ht, hahead⟩ := Run.exists_of_ahead (hheld k hk j hj)
    exact ⟨t, ht, Task.isAsking_iff.mpr hahead, hp.endless_of_asks hn site permits s hfair
      (fun m hm => hheld m (hk.trans hm) j hj) ht⟩

/-- **Every type whose listings end is done at some time, unless types without end hold all permits for
ever.** Once it has begun, it waits for answers until it is done, and it cannot wait for ever. -/
theorem ends_or_held (hp : p.Coherent) (hn : 0 < n) (site : Site σ) (permits : Nat) (s : σ)
    {schedule : Nat → Nat} (hfair : Run.Fair p.nodes.values.length schedule) {i : Nat} {d : NodeDefinition}
    (hd : p.nodes.values[i]? = some d) (hends : ¬site.Endless d n) :
    (∃ k t, ((Run.start p.nodes.values permits s).after site (.bySize n) schedule k).tasks[i]? = some t
        ∧ t.isDone = true)
      ∨ (Run.start p.nodes.values permits s).HeldForEver site n permits schedule := by
  have hsettled := Run.start_settled p.nodes.values permits s
  refine (hp.begins_or_held hn site permits s hfair (List.getElem?_eq_some_iff.mp hd).1).imp_left ?_
  rintro ⟨k₀, t₀, ht₀, hbegun⟩
  by_contra hnone
  have hasks : ∀ k ≥ k₀,
      ((Run.start p.nodes.values permits s).after site (.bySize n) schedule k).ahead i = 1 := by
    intro k hk
    obtain ⟨t, es, ht, -⟩ := hp.stands_at site permits s (Run.firstMoves schedule k) hn hd
    have hfirst : ((Run.start p.nodes.values permits s).after site (.bySize n) schedule k₀).ahead i ≠ 2 := by
      rw [Run.ahead_eq ht₀]
      exact Task.hasBegun_iff.mp hbegun
    have hopen : t.isDone = false := Bool.eq_false_iff.mpr fun hdone => hnone ⟨k, t, ht, hdone⟩
    exact Run.ahead_eq_one site (.bySize n) schedule hsettled hk hfirst ht hopen
  obtain ⟨t, es, ht, hst⟩ := hp.stands_at site permits s (Run.firstMoves schedule k₀) hn hd
  exact hends (hst.definition_eq ▸ hp.endless_of_asks hn site permits s hfair hasks ht)

/-- **Types whose pages are all full hold their permits for ever**, once they have begun. -/
theorem held_of_fills (hp : p.Coherent) (hn : 0 < n) {site : Site σ} (hnever : ¬site.Cancels)
    (permits : Nat) (s : σ) (schedule : Nat → Nat) {k₀ : Nat} {held : List Nat} (hnodup : held.Nodup)
    (hcount : held.length = permits)
    (hheld : ∀ j ∈ held, ∃ d, p.nodes.values[j]? = some d ∧ site.Fills d n
      ∧ ((Run.start p.nodes.values permits s).after site (.bySize n) schedule k₀).ahead j ≠ 2) :
    (Run.start p.nodes.values permits s).HeldFrom site n permits schedule k₀ := by
  have hsettled := Run.start_settled p.nodes.values permits s
  refine ⟨held, hnodup, hcount, fun k hk j hj => ?_⟩
  obtain ⟨d, hd, hfills, hbegun⟩ := hheld j hj
  obtain ⟨t, es, ht, hst⟩ := hp.stands_at site permits s (Run.firstMoves schedule k) hn hd
  have hasks := Run.ahead_eq_one site (.bySize n) schedule hsettled hk hbegun ht
    (hst.not_isDone_of_fills hfills hnever)
  exact ⟨t, ht, Task.isAsking_iff.mpr ((Run.ahead_eq ht).symm.trans hasks),
    hst.definition_eq ▸ hfills.endless s⟩

/-- **With a single permit, nobody begins after a type whose pages are all full.** -/
theorem waits_behind (hp : p.Coherent) (hn : 0 < n) {site : Site σ} (hnever : ¬site.Cancels) (s : σ)
    {schedule : Nat → Nat} {d c : NodeDefinition} (hd : p.nodes.values[schedule 0]? = some d)
    (hfills : site.Fills d n) {i : Nat} (hi : schedule 0 ≠ i) (hc : p.nodes.values[i]? = some c) (k : Nat) :
    ((Run.start p.nodes.values 1 s).after site (.bySize n) schedule k).tasks[i]? = some (.fresh c) := by
  have hsettled := Run.start_settled p.nodes.values 1 s
  have hfirst : ((Run.start p.nodes.values 1 s).after site (.bySize n) schedule 0).tasks[i]?
      = some (.fresh c) := Run.getElem?_start hc 1 s
  have hsecond : ((Run.start p.nodes.values 1 s).after site (.bySize n) schedule 1).tasks[i]?
      = some (.fresh c) := by
    rw [Run.after_succ, Run.getElem?_tasks_act hi]
    exact hfirst
  have hbegun : ((Run.start p.nodes.values 1 s).after site (.bySize n) schedule 1).ahead (schedule 0)
      ≠ 2 := by
    have hmoves : (Run.start p.nodes.values 1 s).Movable (schedule 0) :=
      ⟨.fresh d, Run.getElem?_start hd 1 s, .inl ⟨rfl, Nat.one_pos⟩⟩
    obtain ⟨_, u, hsteps⟩ := Run.steps_act site (.bySize n) hsettled hmoves
    have hahead : ((Run.start p.nodes.values 1 s).after site (.bySize n) schedule 1).ahead (schedule 0)
        = u.ahead := Run.ahead_eq hsteps.after
    have hle := hsteps.isUnderway.ahead_le
    omega
  have hheld := hp.held_of_fills hn hnever 1 s schedule (List.nodup_singleton (schedule 0)) rfl
    (List.forall_mem_singleton.mpr ⟨d, hd, hfills, hbegun⟩)
  rcases Nat.eq_zero_or_pos k with rfl | hk
  · exact hfirst
  · exact hheld.waits hsettled (by rw [Run.asking_start]; rfl) le_rfl hsecond rfl hk

end Plan.Coherent

/-! ## Whole runs -/

namespace Sourcing

/-- Whether a run ended with a report in which no type is pending. -/
def Reported (x : Except Failure Report) : Prop :=
  ∃ report, x = .ok report ∧ ∀ e ∈ report.types, e.status ≠ .pending

section Reported

variable {site : Site σ} {o : Order} {p : Plan} {n : Nat} {s : σ} {x : Except Failure Report}

/-- No type is left pending at any end of a plan whose answers are regular. -/
theorem Ends.reported (hp : p.Coherent) (hparts : p.Partitioned) (hn : 0 < n) (hw : o.walking = .bySize n)
    (haccepts : (site.declareAll p.nodes.values s).1 = .ok ())
    (hanswers : ∀ d ∈ p.nodes.values, site.IsRegularOn d) {y : σ × Trace}
    (h : Ends site.traced o p (s, []) x y) : Reported x := by
  obtain ⟨report, rfl⟩ := h.reports hp hn hw haccepts hanswers
  obtain ⟨steps, r, hch, -, rfl, he⟩ := h.account hp hn hw
  refine ⟨_, rfl, fun e hmem => ?_⟩
  obtain ⟨c, hc, rfl⟩ := List.mem_map.mp hmem
  exact (hch.status_reportOn hp hparts he hanswers hc).1

/-- A run whose answers are regular, and which ends, leaves no type pending. -/
theorem source_reported (hp : p.Coherent) (hparts : p.Partitioned) (hn : 0 < n)
    (hw : o.walking = .bySize n) (hconcurrency : 1 ≤ o.config.concurrency)
    (haccepts : (site.declareAll p.nodes.values s).1 = .ok ())
    (hanswers : ∀ d ∈ p.nodes.values, site.IsRegularOn d) {pace : Pace}
    (h : (source site pace o p s).1.result = some x) : Reported x := by
  rw [← (source_traced site pace o p s []).1] at h
  exact (source_ends hconcurrency h).reported hp hparts hn hw haccepts hanswers

/-- A run does not end as long as there are types whose pages are all full. -/
theorem source_never_ends (hp : p.Coherent) (hn : 0 < n) (hr : Regular site o p n s) {d : NodeDefinition}
    (hd : d ∈ p.nodes.values) (hfills : site.Fills d n) (pace : Pace) :
    (source site pace o p s).1.result = none := by
  cases hresult : (source site pace o p s).1.result with
  | none => rfl
  | some x =>
      rw [← (source_traced site pace o p s []).1] at hresult
      obtain ⟨steps, r, hch, hends⟩ := (source_ends hr.concurrency hresult).chronicle hp hn
        (Order.walking_eq hr.paging hr.size) hr.accepts
      obtain ⟨i, hi⟩ := List.getElem?_of_mem hd
      obtain ⟨t, ht, hst⟩ := hch.accounts.stands hi
      have hopen := hst.not_isDone_of_fills hfills hr.not_cancels
      rcases hends with ⟨f, -, j, u, hu, hcrashed⟩ | ⟨-, hended⟩
      · obtain ⟨k, e, he, hstands⟩ := hch.accounts.task_of_mem (List.mem_of_getElem? hu)
        exact absurd hcrashed
          (hstands.not_crashed_of_regular (hr.answers e (List.mem_of_getElem? he)) f)
      · rw [Task.isDone, hended t (List.mem_of_getElem? ht)] at hopen
        cases hopen

/-- The program never has more types under way than there are permits. -/
theorem peak_source_le (site : Site σ) (pace : Pace) (o : Order) (p : Plan) (s : σ) :
    (source site pace o p s).1.peak ≤ o.config.concurrency.toNat := by
  obtain ⟨⟨y, s₁⟩, hd⟩ : ∃ x, site.declareAll p.nodes.values s = x := ⟨_, rfl⟩
  cases y with
  | error f =>
      rw [source_refused site pace o p hd]
      exact Nat.zero_le _
  | ok _ =>
      rw [source_announced site pace o p hd]
      refine Agenda.peak_run_le site o.walking pace.suspends pace.fuel
        (Run.start_settled p.nodes.values _ s₁) ?_ (Nat.zero_le _)
      rw [tasksOf, Run.asking_start]
      rfl

end Reported

/-- **No permit is lost, and every type gets its turn**, in whatever order the types of a run move, whenever
it is cancelled and whatever regular answers it gets. In every state of the run the permits are those that
are free and those of the types under way, every type has at most one request that is not answered, and
its requests come in order (`Run.Orderly`). No ending leaves a type pending. If each type comes up again
and again, each of them begins, unless as many types as there are permits have listings that never end. -/
theorem permits_never_lost {σ₀ : Type} {site₀ : Site σ₀} {o₀ : Order} {s₀ : σ₀} {p : Plan}
    (hprepare : (Plan.prepare site₀ o₀ s₀).1 = .ok p) {site : Site σ} {o : Order} {n : Nat}
    (hpaging : o.paging = none) (hsize : o.config.pageSize = n) (hn : 1 ≤ n)
    (hconcurrency : 1 ≤ o.config.concurrency) {s s' : σ}
    (haccepts : site.declareAll p.nodes.values s = (.ok (), s'))
    (hanswers : ∀ d ∈ p.nodes.values, site.IsRegularOn d) :
    (∀ order, ∃ steps,
      ((tasksOf o p (s', p.nodes.values.map .declared)).acts site.traced o.walking order).world.2
          = p.nodes.values.map .declared ++ merged steps
        ∧ ((tasksOf o p (s', p.nodes.values.map .declared)).acts site.traced o.walking order).Orderly
            o.config.concurrency.toNat n p.nodes.values steps fun i =>
          (tasksOf o p (s', p.nodes.values.map .declared)).answered site.traced o.walking i order)
    ∧ (∀ {x y}, Ends site.traced o p (s, []) x y → Reported x)
    ∧ (∀ {pace x}, (source site pace o p s).1.result = some x → Reported x)
    ∧ (∀ pace, (source site pace o p s).1.peak ≤ o.config.concurrency.toNat)
    ∧ (∀ {schedule}, Run.Fair p.nodes.values.length schedule → ∀ i < p.nodes.values.length,
      (∃ k t, ((tasksOf o p s').after site o.walking schedule k).tasks[i]? = some t ∧ t.hasBegun = true)
        ∨ (tasksOf o p s').HeldForEver site n o.config.concurrency.toNat schedule)
    ∧ ((∀ d ∈ p.nodes.values, ∃ pages, site.RunsDry d n pages) → ∀ suspends,
      ∃ moves, ∀ fuel ≥ moves, ∃ x, (source site ⟨suspends, fuel⟩ o p s).1.result = some x) := by
  have hp := Plan.prepare_coherent hprepare
  have hparts := Plan.prepare_partitioned hprepare
  have hw := Order.walking_eq hpaging hsize
  have haccepts' : (site.declareAll p.nodes.values s).1 = .ok () := congrArg Prod.fst haccepts
  -- ended runs are settled by `Reported`, the others by the permits that are held for ever
  refine ⟨fun order => ?_, fun h => h.reported hp hparts hn hw haccepts' hanswers,
    fun h => source_reported hp hparts hn hw hconcurrency haccepts' hanswers h,
    fun pace => peak_source_le site pace o p s, fun {schedule} hfair i hi => ?_, fun hdry suspends => ?_⟩
  · have hpermits : 0 < o.config.concurrency.toNat := by omega
    obtain ⟨steps, -, hlog, horderly⟩ := orderly_of_order site (fun d hd => hp.node hd) hn hpermits
      (s', p.nodes.values.map .declared) order
    rw [hw]
    exact ⟨steps, hlog, horderly⟩
  · rw [hw]
    exact hp.begins_or_held hn site o.config.concurrency.toNat s' hfair hi
  · obtain ⟨moves, hmoves⟩ := source_comes_to_end hp hn hw hconcurrency hdry suspends s
    exact ⟨moves, fun fuel hfuel => ⟨_, (hmoves fuel hfuel).choose_spec.1⟩⟩

end Sourcing

/-! ## Two types and one permit -/

namespace Sample

/-- A source in which one type moves at a time. -/
def single : Order := { order with config := { order.config with concurrency := 1 } }

/-- With a single permit, both types of the plan begin, one after the other, and none is left pending. -/
theorem none_pending :
    ∃ moves, ∀ fuel ≥ moves, ∃ x, (Sourcing.source (answering both) ⟨true, fuel⟩ single plan ()).1.result
        = some x ∧ Sourcing.Reported x
      ∧ (Sourcing.source (answering both) ⟨true, fuel⟩ single plan ()).1.peak ≤ 1 := by
  have hregular := regular_answering (f := both) (o := single) (fun _ => .inl ⟨_, rfl⟩) rfl rfl (by decide)
  have haccepts : (answering both).declareAll plan.nodes.values () = (.ok (), ()) :=
    Prod.ext hregular.accepts rfl
  obtain ⟨-, -, hreported, hpeak, -, hends⟩ := Sourcing.permits_never_lost prepare_eq hregular.paging
    hregular.size (by decide) hregular.concurrency haccepts hregular.answers
  obtain ⟨moves, hmoves⟩ := hends (runsDry_answering fun _ => .inl rfl) true
  refine ⟨moves, fun fuel hfuel => ?_⟩
  obtain ⟨x, hx⟩ := hmoves fuel hfuel
  exact ⟨x, hx, hreported hx, hpeak _⟩

/-- The pages of the type with endless listings are full. -/
theorem fills_endlessFor {nodes : Bool} {d : NodeDefinition} (hd : d ∈ plan.nodes.values)
    (hname : decide (d.typeName = "Node") = nodes) : (answering (endlessFor nodes)).Fills d 2 where
  nonempty := by
    obtain ⟨node, term, hnodes, -, -, hnode, hterm⟩ := nodes_plan
    rcases List.mem_pair.mp (hnodes ▸ hd) with rfl | rfl
    · rw [hnode]
      exact List.cons_ne_nil _ _
    · rw [hterm]
      exact List.cons_ne_nil _ _
  full := by
    rintro l hl k a ⟨s, rfl⟩
    have hq := queryField_of_mem hd
    rw [← ((Plan.prepare_coherent prepare_eq).isFor d hd).queryField_eq] at hq
    have hown : isOfNode (d.pageRequest l 2 k) = nodes :=
      (isOfNode_eq hd (isOf_pageRequest hl 2 k)).trans hname
    show ∃ vs, (endlessFor nodes (d.pageRequest l 2 k)).reading _ = _ ∧ _
    rw [endlessFor, if_pos hown]
    rcases hq with h | h
    · rw [h]
      exact ⟨_, rfl, le_rfl⟩
    · rw [h]
      exact ⟨_, rfl, le_rfl⟩

/-- Two types that come up in turns. -/
def inTurns (first : Nat) : Nat → Nat := fun k => (first + k) % 2

theorem fair_inTurns (first : Nat) : Run.Fair plan.nodes.values.length (inTurns first) := by
  obtain ⟨node, term, hnodes, -⟩ := nodes_plan
  rw [hnodes]
  intro i hi k
  have hi : i < 2 := hi
  refine ⟨k + (first + k + i) % 2, Nat.le_add_right _ _, ?_⟩
  show (first + (k + (first + k + i) % 2)) % 2 = i
  omega

/-- **A type may wait for ever.** With a single permit and a listing that never ends, the second type never
begins, although it comes up at every other move; and the run does not come to an end. -/
theorem never_begins :
    Sourcing.Regular (answering (endlessFor true)) single plan 2 ()
      ∧ Run.Fair plan.nodes.values.length (inTurns 0)
      ∧ (∀ k, ∃ t, ((Sourcing.tasksOf single plan ()).after (answering (endlessFor true)) single.walking
          (inTurns 0) k).tasks[1]? = some t ∧ t.definition.typeName = "Term" ∧ t.hasBegun = false)
      ∧ ∀ pace, (Sourcing.source (answering (endlessFor true)) pace single plan ()).1.result = none := by
  have hp := Plan.prepare_coherent prepare_eq
  have hregular := regular_answering (o := single) (endlessFor_cases true) rfl rfl (by decide)
  obtain ⟨node, term, hnodes, hnode, hterm, -⟩ := nodes_plan
  have hmem : node ∈ plan.nodes.values := hnodes ▸ List.mem_cons_self
  have hfills : (answering (endlessFor true)).Fills node 2 :=
    fills_endlessFor hmem (decide_eq_true hnode)
  have hfirst : plan.nodes.values[inTurns 0 0]? = some node := by rw [hnodes]; rfl
  have hsecond : plan.nodes.values[1]? = some term := by rw [hnodes]; rfl
  refine ⟨hregular, fair_inTurns 0, fun k => ⟨.fresh term, ?_, hterm, rfl⟩,
    Sourcing.source_never_ends hp (by decide) hregular hmem hfills⟩
  exact hp.waits_behind (by decide) hregular.not_cancels () hfirst hfills (by decide) hsecond k

end Sample

end Harvest
