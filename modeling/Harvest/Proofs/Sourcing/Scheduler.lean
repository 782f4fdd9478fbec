import Harvest.Proofs.Sourcing.Schedule

/-!
# The scheduler

An agenda is sound for a run if every task that is not done either comes up in the queue or waits for a
permit, and none of them waits while a permit is left over. Working off keeps agendas sound. Therefore
a run that comes to its end has moved tasks in some order until all of them ended or one of them
crashed, and it does come to its end if its tasks do.

The agenda is a queue of items: tasks that come up, and failures that come to notice once the tasks before
them had their turn. Beside it there is a queue of tasks that wait for a permit, first come first served.
The invariant `Agenda.Fits` relates all three to the run. Its main parts are that each task that is not done
is in exactly one of the queues, and that nobody waits while a permit is free.

That working off comes to an end needs a measure: items that move no task are counted by `weight`, which
gets smaller with each of them, and a move pays for the items that it adds.

There are two results. `Agenda.run_spec` says that whatever the scheduler does is an order of moves, so that
what holds of all orders holds of it. `Agenda.run_ends_of_rank` says that it comes to an end if there is a
rank that every move lowers; `Sourcing.Progress` has such ranks.
-/

namespace Harvest

variable {σ : Type}

/-! ## Runs and their tasks by number

What a move does to the tasks of a run, in terms of their numbers. `Steps` is the summary that is used from
here on. -/

/-- Whether a task has not begun. -/
def Task.isWaiting (t : Task) : Bool :=
  match t.phase with
  | .waiting => true
  | _ => false

namespace Run

/-- Whether a task of a run has not begun. -/
def waits (r : Run σ) (i : Nat) : Bool := (r.tasks[i]?).any Task.isWaiting

/-- Whether there is a task with a number that is not done. -/
def Undone (r : Run σ) (i : Nat) : Prop := ∃ t, r.tasks[i]? = some t ∧ t.isDone = false

/-- Whether a task of a run has crashed. -/
def Crashed (r : Run σ) (e : Failure) : Prop :=
  ∃ (i : Nat) (t : Task), r.tasks[i]? = some t ∧ t.phase = .crashed e

/-- What becomes of the tasks of a run when one of them moves. -/
structure Steps (r r' : Run σ) (i : Nat) (t u : Task) : Prop where
  before : r.tasks[i]? = some t
  after : r'.tasks[i]? = some u
  others : ∀ {j}, j ≠ i → r'.tasks[j]? = r.tasks[j]?
  undone : t.isDone = false
  isUnderway : u.IsUnderway
  free : r.free + (if u.isDone then 1 else 0) = r'.free + (if r.waits i then 1 else 0)

theorem steps_act (site : Site σ) (paging : PagingStrategy) {r : Run σ} {i : Nat} (hs : r.Settled)
    (h : r.Movable i) : ∃ t u, r.Steps (r.act site paging i) i t u := by
  obtain ⟨t, free, ht, hd, hf, he⟩ := act_of_movable site paging h
  have hb : t.phase ≠ .between := hs t (List.mem_of_getElem? ht)
  have hi := (List.getElem?_eq_some_iff.mp ht).1
  have hw : r.waits i = !t.isAsking := by
    rw [waits, ht, Option.any_some, Task.isWaiting, Task.isAsking]
    rw [Task.isDone] at hd
    cases hp : t.phase <;> rw [hp] at hd <;> simp_all
  rw [he]
  refine ⟨t, (t.move site paging r.world).1, ht, List.getElem?_set_self hi,
    fun hj => List.getElem?_set_ne hj.symm, hd, Task.move_isUnderway site paging t r.world hd hb, ?_⟩
  rw [hw, hf, settle]
  cases t.isAsking <;> cases (t.move site paging r.world).1.isDone <;> simp

namespace Steps

variable {r r' : Run σ} {i : Nat} {t u : Task}

theorem waits_eq (h : r.Steps r' i t u) (j : Nat) :
    r'.waits j = if j = i then false else r.waits j := by
  by_cases hj : j = i
  · subst hj
    rw [if_pos rfl, waits, h.after, Option.any_some, Task.isWaiting]
    have hu := h.isUnderway
    rw [Task.IsUnderway, Task.isAsking, Task.isDone] at hu
    cases hp : u.phase with
    | waiting =>
        rw [hp] at hu
        cases hu
    | _ => rfl
  · rw [if_neg hj, waits, waits, h.others hj]

theorem undone_iff (h : r.Steps r' i t u) (j : Nat) :
    r'.Undone j ↔ if j = i then u.isDone = false else r.Undone j := by
  by_cases hj : j = i
  · subst hj
    rw [if_pos rfl]
    constructor
    · rintro ⟨v, hv, hd⟩
      cases h.after.symm.trans hv
      exact hd
    · exact fun hd => ⟨u, h.after, hd⟩
  · rw [if_neg hj, Undone, Undone, h.others hj]

theorem crashed_iff (h : r.Steps r' i t u) (e : Failure) :
    r'.Crashed e ↔ r.Crashed e ∨ u.phase = .crashed e := by
  constructor
  · rintro ⟨j, v, hv, he⟩
    by_cases hj : j = i
    · subst hj
      cases h.after.symm.trans hv
      exact .inr he
    · exact .inl ⟨j, v, (h.others hj).symm.trans hv, he⟩
  · rintro (⟨j, v, hv, he⟩ | he)
    · refine ⟨j, v, (h.others ?_).trans hv, he⟩
      rintro rfl
      cases h.before.symm.trans hv
      have hd := h.undone
      rw [Task.isDone, he] at hd
      cases hd
    · exact ⟨i, u, h.after, he⟩

end Steps

end Run

/-! ## Sound agendas

The invariant, and each change to an agenda that keeps it. Every proof is about one queue at a time; the
other one is as it was. -/

/-- Tasks that come up, tasks that wait for a permit and failures that come to notice fit a run. -/
structure Sound (r : Run σ) (permits : Nat) (upcoming queued : List Nat) (failures : List Failure) :
    Prop where
  settled : r.Settled
  permits_eq : r.free + r.asking = permits
  nodup : (upcoming ++ queued).Nodup
  mem_iff : ∀ j, j ∈ upcoming ++ queued ↔ r.Undone j
  waiting : ∀ j ∈ queued, r.waits j = true
  /-- Whoever waits for a permit has a claim to none of those left over. -/
  eager : queued ≠ [] → r.free ≤ upcoming.countP r.waits
  crashed_iff : ∀ e, e ∈ failures ↔ r.Crashed e

namespace Sound

variable {r r' : Run σ} {permits i : Nat} {upcoming queued : List Nat} {failures : List Failure}
  {t u : Task}

/-! ### Changes to an agenda

At the beginning every task comes up once. A task that comes up then finds no permit (`blocked`), asks and
comes up again (`asked`), or is done (`done`). -/

theorem start (ds : List NodeDefinition) (permits : Nat) (s : σ) :
    Sound (Run.start ds permits s) permits (List.range ds.length) [] [] where
  settled := Run.start_settled ds permits s
  permits_eq := by
    rw [Run.asking_start]
    rfl
  nodup := by
    rw [List.append_nil]
    exact List.nodup_range
  mem_iff j := by
    rw [List.append_nil, List.mem_range]
    constructor
    · intro hj
      exact ⟨.fresh ds[j], Run.getElem?_start (List.getElem?_eq_getElem hj) permits s, rfl⟩
    · rintro ⟨t, ht, -⟩
      have hj := (List.getElem?_eq_some_iff.mp ht).1
      exact lt_of_lt_of_eq hj (List.length_map ..)
  waiting := List.forall_mem_nil _
  eager h := absurd rfl h
  crashed_iff e := by
    constructor
    · intro h
      cases h
    · rintro ⟨j, t, ht, he⟩
      obtain ⟨d, -, rfl⟩ := List.mem_map.mp (List.mem_of_getElem? ht)
      cases he

/-- The order in which tasks come up does not matter. -/
theorem perm (h : Sound r permits upcoming queued failures) {upcoming' : List Nat}
    (hp : upcoming.Perm upcoming') : Sound r permits upcoming' queued failures where
  settled := h.settled
  permits_eq := h.permits_eq
  nodup := (hp.append_right queued).nodup h.nodup
  mem_iff j := ((hp.append_right queued).mem_iff).symm.trans (h.mem_iff j)
  waiting := h.waiting
  eager hq := hp.countP_eq r.waits ▸ h.eager hq
  crashed_iff := h.crashed_iff

/-- A task that finds no permit waits for one. -/
theorem blocked (h : Sound r permits (i :: upcoming) queued failures) (hw : r.waits i = true)
    (hf : r.free = 0) : Sound r permits upcoming (queued ++ [i]) failures where
  settled := h.settled
  permits_eq := h.permits_eq
  nodup := by
    rw [← List.append_assoc]
    exact (List.perm_append_singleton i _).symm.nodup h.nodup
  mem_iff j := by
    rw [← List.append_assoc, (List.perm_append_singleton i _).mem_iff]
    exact h.mem_iff j
  waiting := List.forall_mem_append.mpr ⟨h.waiting, List.forall_mem_singleton.mpr hw⟩
  eager _ := hf ▸ Nat.zero_le _
  crashed_iff := h.crashed_iff

/-- What waits besides the task that moves. -/
theorem countP_waits (hst : r.Steps r' i t u) (hi : i ∉ upcoming) :
    upcoming.countP r'.waits = upcoming.countP r.waits := by
  apply List.countP_congr
  intro j hj
  rw [hst.waits_eq, if_neg fun he : j = i => hi (he ▸ hj)]

/-- A task that asks stays among those that come up. -/
theorem asked (h : Sound r permits (i :: upcoming) queued failures) (hst : r.Steps r' i t u)
    (hs : r'.Settled) (hp : r'.free + r'.asking = permits) (hu : u.isDone = false)
    (hc : ∀ e, u.phase ≠ .crashed e) : Sound r' permits (i :: upcoming) queued failures where
  settled := hs
  permits_eq := hp
  nodup := h.nodup
  mem_iff j := by
    rw [h.mem_iff, hst.undone_iff]
    split
    next hj =>
      subst hj
      exact ⟨fun _ => hu, fun _ => ⟨t, hst.before, hst.undone⟩⟩
    next => rfl
  waiting j hj := by
    have hne : j ≠ i := by
      rintro rfl
      exact (List.nodup_cons.mp h.nodup).1 (List.mem_append_right upcoming hj)
    rw [hst.waits_eq, if_neg hne]
    exact h.waiting j hj
  -- the task keeps its permit, so as many are free as before
  eager hq := by
    have hi : i ∉ upcoming := fun hi =>
      (List.nodup_cons.mp h.nodup).1 (List.mem_append_left queued hi)
    have hf := hst.free
    have he := h.eager hq
    rw [hu] at hf
    rw [List.countP_cons] at he ⊢
    rw [countP_waits hst hi, hst.waits_eq, if_pos rfl]
    simp only [Bool.false_eq_true, if_false] at hf ⊢
    omega
  crashed_iff e := by
    rw [h.crashed_iff, hst.crashed_iff]
    exact ⟨.inl, fun h => h.resolve_right (hc e)⟩

/-- A task that is done gives its permit to the first of those that wait for one. -/
theorem done (h : Sound r permits (i :: upcoming) queued failures) (hst : r.Steps r' i t u)
    (hs : r'.Settled) (hp : r'.free + r'.asking = permits) (hu : u.isDone = true)
    {failures' : List Failure} (hc : ∀ e, e ∈ failures' ↔ e ∈ failures ∨ u.phase = .crashed e) :
    Sound r' permits (upcoming ++ queued.take 1) (queued.drop 1) failures' where
  settled := hs
  permits_eq := hp
  nodup := by
    rw [List.append_assoc, List.take_append_drop]
    exact (List.nodup_cons.mp h.nodup).2
  mem_iff j := by
    rw [List.append_assoc, List.take_append_drop, hst.undone_iff]
    split
    next hj =>
      subst hj
      rw [hu]
      exact ⟨fun hj => absurd hj (List.nodup_cons.mp h.nodup).1, fun hf => by cases hf⟩
    next hj =>
      rw [← h.mem_iff, List.cons_append, List.mem_cons]
      exact ⟨.inr, fun h => h.resolve_left hj⟩
  waiting j hj := by
    have hmem := List.mem_of_mem_drop hj
    have hne : j ≠ i := by
      rintro rfl
      exact (List.nodup_cons.mp h.nodup).1 (List.mem_append_right upcoming hmem)
    rw [hst.waits_eq, if_neg hne]
    exact h.waiting j hmem
  -- the permit goes to the first of the queued tasks, if there is one
  eager hq := by
    cases queued with
    | nil => exact absurd rfl hq
    | cons k rest =>
        have hi := (List.nodup_cons.mp h.nodup).1
        have hup : i ∉ upcoming := fun hi' => hi (List.mem_append_left _ hi')
        have hk : k ≠ i := by
          rintro rfl
          exact hi (List.mem_append_right upcoming List.mem_cons_self)
        have hwait : r'.waits k = true := by
          rw [hst.waits_eq, if_neg hk]
          exact h.waiting k List.mem_cons_self
        have hf := hst.free
        have he := h.eager (List.cons_ne_nil k rest)
        rw [hu, if_pos rfl] at hf
        rw [List.countP_cons] at he
        rw [List.countP_append, countP_waits hst hup]
        show r'.free ≤ _ + List.countP r'.waits [k]
        rw [List.countP_cons, hwait, List.countP_nil, if_pos rfl]
        omega
  crashed_iff e := by
    rw [hc, h.crashed_iff, hst.crashed_iff]

/-! ### What a sound agenda tells

If no task comes up, nobody can wait either: a waiting task needs all permits to be taken, and who holds a
permit comes up. -/

/-- A task that comes up and waits finds a permit, or there is none. -/
theorem movable_or_blocked (h : Sound r permits (i :: upcoming) queued failures) :
    r.Movable i ∨ (r.waits i = true ∧ r.free = 0) := by
  obtain ⟨t, ht, hd⟩ := (h.mem_iff i).mp List.mem_cons_self
  rcases Task.waiting_or_asking hd (h.settled t (List.mem_of_getElem? ht)) with hp | ⟨w, a, hp⟩
  · rcases Nat.eq_zero_or_pos r.free with hf | hf
    · refine .inr ⟨?_, hf⟩
      rw [Run.waits, ht, Option.any_some, Task.isWaiting, hp]
    · exact .inl ⟨t, ht, .inl ⟨hp, hf⟩⟩
  · refine .inl ⟨t, ht, .inr ?_⟩
    rw [Task.isAsking, hp]

/-- **When nothing comes up any more, all tasks are done**: nobody waits for a permit in vain. -/
theorem all_done (h : Sound r permits [] queued failures) (hp : 0 < permits) :
    ∀ t ∈ r.tasks, t.isDone = true := by
  -- Were there one that waits, then by `eager` no permit is left over; but nobody asks either.
  have hq : queued = [] := by
    by_contra hq
    have hfree : r.free = 0 := Nat.le_zero.mp (h.eager hq)
    have hask : 0 < r.asking := by
      have := h.permits_eq
      omega
    obtain ⟨t, ht⟩ := List.exists_mem_of_length_pos hask
    obtain ⟨hm, ha⟩ := List.mem_filter.mp ht
    obtain ⟨j, hj⟩ := List.getElem?_of_mem hm
    cases hph : t.phase with
    | asking w a =>
        have hd : t.isDone = false := by
          rw [Task.isDone, hph]
        have hw := h.waiting j ((h.mem_iff j).mpr ⟨t, hj, hd⟩)
        rw [Run.waits, hj, Option.any_some, Task.isWaiting, hph] at hw
        cases hw
    | _ =>
        rw [Task.isAsking, hph] at ha
        cases ha
  intro t ht
  obtain ⟨j, hj⟩ := List.getElem?_of_mem ht
  by_contra hd
  have hmem := (h.mem_iff j).mpr ⟨t, hj, Bool.eq_false_iff.mpr hd⟩
  rw [hq] at hmem
  cases hmem

end Sound

/-! ## Working off an agenda

One item after the other, from the front of the queue. `fits_after` is the step. -/

namespace Item

/-- The task that comes up. -/
def task? : Item → Option Nat
  | task i => some i
  | _ => none

/-- The failure that comes to notice. -/
def failure? : Item → Option Failure
  | task _ => none
  | crash e => some e
  | stop e => some e

/-- The steps that an item takes if no task moves. -/
def weight : Item → Nat
  | task _ => 1
  | crash _ => 2
  | stop _ => 1

end Item

namespace Agenda

variable {a : Agenda} {r : Run σ} {permits i : Nat}

/-- The tasks that come up. -/
def upcoming (a : Agenda) : List Nat := a.queue.filterMap Item.task?

/-- The failures that come to notice. -/
def failures (a : Agenda) : List Failure := a.queue.filterMap Item.failure?

/-- The steps that a queue takes if no task moves. -/
def weight (a : Agenda) : Nat := (a.queue.map Item.weight).sum

/-- Whether an agenda is sound for a run. -/
def Fits (a : Agenda) (r : Run σ) (permits : Nat) : Prop :=
  Sound r permits a.upcoming a.queued a.failures

theorem upcoming_wake (a : Agenda) : a.wake.upcoming = a.upcoming ++ a.queued.take 1 := by
  unfold wake
  split
  next h => rw [h, List.take_nil, List.append_nil]
  next i rest h =>
    rw [h, upcoming, List.filterMap_append]
    rfl

theorem queued_wake (a : Agenda) : a.wake.queued = a.queued.drop 1 := by
  unfold wake
  split
  next h => rw [h, List.drop_nil]
  next i rest h =>
    rw [h]
    rfl

theorem failures_wake (a : Agenda) : a.wake.failures = a.failures := by
  unfold wake
  split
  next => rfl
  next =>
    rw [failures, List.filterMap_append]
    exact List.append_nil _

theorem weight_wake (a : Agenda) : a.wake.weight ≤ a.weight + 1 := by
  unfold wake
  split
  next => exact Nat.le_succ _
  next =>
    rw [weight, List.map_append, List.sum_append]
    exact Nat.le_refl _

/-! ### The step

Whatever the front of the queue was, the agenda fits again after it, or it lost some of its weight. -/

/-- The agenda of a task that asks, whether it is answered at once or not. -/
theorem after_asking (a : Agenda) (suspends : Bool) (i : Nat) (w : Walk) (answer : Answer) :
    (i :: a.upcoming).Perm (a.after suspends i (.asking w answer)).upcoming
      ∧ (a.after suspends i (.asking w answer)).failures = a.failures
      ∧ (a.after suspends i (.asking w answer)).weight = a.weight + 1 := by
  cases suspends with
  | false =>
      refine ⟨List.Perm.refl _, rfl, ?_⟩
      show ((Item.task i :: a.queue).map Item.weight).sum = _
      rw [List.map_cons, List.sum_cons, Nat.add_comm]
      rfl
  | true =>
      refine ⟨?_, ?_, ?_⟩
      · show (i :: a.upcoming).Perm ((a.queue ++ [Item.task i]).filterMap Item.task?)
        rw [List.filterMap_append]
        exact (List.perm_append_singleton i _).symm
      · show (a.queue ++ [Item.task i]).filterMap Item.failure? = _
        rw [List.filterMap_append]
        exact List.append_nil _
      · show ((a.queue ++ [Item.task i]).map Item.weight).sum = _
        rw [List.map_append, List.sum_append]
        rfl

/-- **Whatever a task did that came up, the agenda is sound after it.** Unless the task moved, less is
left on the agenda. -/
theorem fits_after (site : Site σ) (paging : PagingStrategy) (suspends : Bool)
    (h : Sound r permits (i :: a.upcoming) a.queued a.failures) :
    ∃ t, (r.act site paging i).tasks[i]? = some t
      ∧ (a.after suspends i t.phase).Fits (r.act site paging i) permits
      ∧ (r.act site paging i = r ∧ (a.after suspends i t.phase).weight ≤ a.weight
        ∨ r.Movable i ∧ (a.after suspends i t.phase).weight ≤ a.weight + 3) := by
  rcases h.movable_or_blocked with hm | ⟨hw, hf⟩
  -- The task moves. What the agenda becomes depends on where it stands then.
  · obtain ⟨t, u, hst⟩ := Run.steps_act site paging h.settled hm
    have hs := h.settled.act site paging (i := i)
    have hp := (Run.permits_act site paging (i := i) h.settled).trans h.permits_eq
    refine ⟨u, hst.after, ?_⟩
    cases hu : u.phase with
    | asking w answer =>
        obtain ⟨hup, hfail, hweight⟩ := after_asking a suspends i w answer
        have hd : u.isDone = false := by
          rw [Task.isDone, hu]
        have hc : ∀ e, u.phase ≠ .crashed e := by
          rw [hu]
          exact fun _ => Phase.noConfusion
        refine ⟨?_, .inr ⟨hm, by omega⟩⟩
        rw [Fits, hfail]
        exact (h.asked hst hs hp hd hc).perm hup
    | ended =>
        have hd : u.isDone = true := by
          rw [Task.isDone, hu]
        have hc (e : Failure) : e ∈ a.failures ↔ e ∈ a.failures ∨ u.phase = .crashed e := by
          rw [hu]
          exact ⟨.inl, fun h => h.resolve_right Phase.noConfusion⟩
        refine ⟨?_, .inr ⟨hm, Nat.le_trans (weight_wake a) (by omega)⟩⟩
        show a.wake.Fits _ _
        rw [Fits, upcoming_wake, queued_wake, failures_wake]
        exact h.done hst hs hp hd hc
    | crashed f =>
        have hd : u.isDone = true := by
          rw [Task.isDone, hu]
        have hc (e : Failure) : e ∈ a.failures ++ [f] ↔ e ∈ a.failures ∨ u.phase = .crashed e := by
          rw [hu, List.mem_append, List.mem_singleton, Phase.crashed.injEq, eq_comm (a := e)]
        have hfail : (a.after suspends i (.crashed f)).failures = a.failures ++ [f] := by
          show (a.wake.queue ++ [Item.crash f]).filterMap Item.failure? = _
          rw [List.filterMap_append, ← failures_wake]
          rfl
        have hup : (a.after suspends i (.crashed f)).upcoming = a.upcoming ++ a.queued.take 1 := by
          show (a.wake.queue ++ [Item.crash f]).filterMap Item.task? = _
          rw [List.filterMap_append, ← upcoming_wake]
          exact List.append_nil _
        have hweight : (a.after suspends i (.crashed f)).weight ≤ a.weight + 3 := by
          show ((a.wake.queue ++ [Item.crash f]).map Item.weight).sum ≤ _
          rw [List.map_append, List.sum_append]
          exact Nat.add_le_add_right (weight_wake a) 2
        refine ⟨?_, .inr ⟨hm, hweight⟩⟩
        rw [Fits, hup, hfail]
        show Sound _ _ _ a.wake.queued _
        rw [queued_wake]
        exact h.done hst hs hp hd hc
    | waiting =>
        have hw := hst.waits_eq i
        rw [if_pos rfl, Run.waits, hst.after, Option.any_some, Task.isWaiting, hu] at hw
        cases hw
    | between => exact absurd hu hst.isUnderway.ne_between
  -- There is no permit for it, so it waits for one and nothing else happens.
  · obtain ⟨t, ht, -⟩ := (h.mem_iff i).mp List.mem_cons_self
    have hp : t.phase = .waiting := by
      rw [Run.waits, ht, Option.any_some, Task.isWaiting] at hw
      split at hw
      next hp => exact hp
      next => cases hw
    rw [Run.act_of_blocked site paging ht hp hf]
    refine ⟨t, ht, ?_, .inl ⟨rfl, ?_⟩⟩ <;> rw [hp]
    · exact h.blocked hw hf
    · exact Nat.le_refl _

/-- The task that comes up is the first of those that do. -/
theorem Fits.comesUp {rest : List Item} (h : a.Fits r permits) (hq : a.queue = .task i :: rest) :
    Sound r permits (i :: rest.filterMap Item.task?) a.queued (rest.filterMap Item.failure?) := by
  rw [Fits, upcoming, failures, hq] at h
  exact h

/-- A crash that comes to notice will end the run. -/
theorem Fits.notice {e : Failure} {rest : List Item} (h : a.Fits r permits)
    (hq : a.queue = .crash e :: rest) :
    ({ a with queue := rest ++ [.stop e] } : Agenda).Fits r permits := by
  have hup : ({ a with queue := rest ++ [.stop e] } : Agenda).upcoming = a.upcoming := by
    rw [upcoming, upcoming, hq, List.filterMap_append]
    exact List.append_nil _
  have hfail (f : Failure) :
      f ∈ ({ a with queue := rest ++ [.stop e] } : Agenda).failures ↔ f ∈ a.failures := by
    rw [failures, failures, hq, List.filterMap_append]
    exact (List.perm_append_singleton e _).mem_iff
  rw [Fits, hup]
  exact { h with crashed_iff := fun f => (hfail f).trans (h.crashed_iff f) }

/-! ## Whole runs

Working off from the beginning until the queue is empty, with fuel for each item. -/

theorem fits_start (ds : List NodeDefinition) (permits : Nat) (s : σ) :
    (start ds.length).Fits (Run.start ds permits s) permits := by
  have hup : (start ds.length).upcoming = List.range ds.length := by
    rw [upcoming, start, List.filterMap_map]
    exact List.filterMap_some
  have hfail : (start ds.length).failures = [] := by
    rw [failures, start, List.filterMap_map]
    exact List.filterMap_eq_nil_iff.mpr fun _ _ => rfl
  rw [Fits, hup, hfail]
  exact Sound.start ds permits s

section Run

variable (site : Site σ) (paging : PagingStrategy) (suspends : Bool) {fuel : Nat}

/-- How a run can end: with all tasks at their ends, or with the failure of one that crashed. -/
def EndsSo (r : Run σ) : Except Failure Unit → Prop
  | .ok _ => ∀ t ∈ r.tasks, t.phase = .ended
  | .error e => r.Crashed e

/-- **A run moves tasks in some order**, until all of them ended or one of them crashed. -/
theorem run_spec {x : Except Failure Unit} {a' : Agenda} {r' : Run σ} (h : a.Fits r permits)
    (hp : 0 < permits) (hrun : run site paging suspends fuel a r = (some x, a', r')) :
    ∃ order, r' = r.acts site paging order ∧ EndsSo r' x := by
  induction fuel generalizing a r with
  | zero => cases hrun
  | succ fuel ih =>
      rw [run] at hrun
      split at hrun
      -- Nothing is left: all tasks are done, and none of them crashed.
      next hq =>
        have hup : a.upcoming = [] := by
          rw [upcoming, hq]
          rfl
        have hfail : a.failures = [] := by
          rw [failures, hq]
          rfl
        rw [Fits, hup, hfail] at h
        cases hrun
        refine ⟨[], rfl, ?_⟩
        intro t ht
        rcases Task.ended_or_crashed (h.all_done hp t ht) with he | ⟨e, he⟩
        · exact he
        · obtain ⟨i, hi⟩ := List.getElem?_of_mem ht
          cases (h.crashed_iff e).mpr ⟨i, t, hi, he⟩
      next e rest hq =>
        have hmem : e ∈ a.failures := by
          rw [failures, hq]
          exact List.mem_cons_self
        have he := (h.crashed_iff e).mp hmem
        cases hrun
        exact ⟨[], rfl, he⟩
      next e rest hq => exact ih (h.notice hq) hrun
      next i rest hq =>
        obtain ⟨t, ht, hfits, -⟩ := fits_after site paging suspends
          (a := { a with queue := rest, peak := max a.peak (r.act site paging i).asking })
          (h.comesUp hq)
        dsimp only at hrun
        rw [ht] at hrun
        obtain ⟨order, he, hends⟩ := ih hfits hrun
        exact ⟨i :: order, he, hends⟩

/-- **A run ends if its moves use something up.** Every move is paid for by three steps, and an item that
comes up without a move shortens the queue. -/
theorem run_ends_of_rank {Rank : Run σ → Nat → Prop}
    (hrank : ∀ {r m i}, Rank r m → r.Movable i → ∃ k < m, Rank (r.act site paging i) k) {m : Nat}
    (h : a.Fits r permits) (hl : Rank r m) (hf : a.weight + 3 * m < fuel) :
    (run site paging suspends fuel a r).1.isSome = true := by
  -- on the fuel: a notice uses up weight of the agenda, a move may add to it but lowers the rank
  induction fuel generalizing a r m with
  | zero => cases hf
  | succ fuel ih =>
      rw [run]
      split
      next hq => rfl
      next e rest hq => rfl
      next e rest hq =>
        have hw : a.weight = ({ a with queue := rest ++ [.stop e] } : Agenda).weight + 1 := by
          rw [weight, weight, hq, List.map_append, List.sum_append, List.map_cons, List.sum_cons,
            Nat.add_comm]
          rfl
        exact ih (h.notice hq) hl (by omega)
      next i rest hq =>
        have hw : a.weight = ({ a with queue := rest } : Agenda).weight + 1 := by
          rw [weight, hq, List.map_cons, List.sum_cons, Nat.add_comm]
          rfl
        obtain ⟨t, ht, hfits, hleft⟩ := fits_after site paging suspends
          (a := { a with queue := rest, peak := max a.peak (r.act site paging i).asking })
          (h.comesUp hq)
        have hb : ({ a with queue := rest, peak := max a.peak (r.act site paging i).asking } :
            Agenda).weight = ({ a with queue := rest } : Agenda).weight := rfl
        dsimp only
        rw [ht]
        rcases hleft with ⟨he, hleft⟩ | ⟨hm, hleft⟩
        · exact ih hfits (he.symm ▸ hl) (by omega)
        · obtain ⟨k, hk, hl'⟩ := hrank hl hm
          exact ih hfits hl' (by omega)

end Run

end Agenda

end Harvest
