import Harvest.Proofs.Sourcing.Progress

/-!
# Permits

However the tasks of a run move, the permits that are free and the tasks under way make up the number of
permits that there were at the start, and a task under way has exactly one request that is not answered.
The requests of a type come in the order of its languages, and page by page within each of them.
`Run.Orderly` says all this of one state, and `orderly_of_order` that every state that can be reached is
like that.

A task is under way from its first step on until it is done, and in all that time it waits for an answer:
tasks do not rest between requests. So to count the tasks under way is to count the requests without an
answer (`Run.Settled.underway_eq`), and the permits that are taken.

The order of requests is shown for what a task has done, by the relations that say where it stands: so many
pages of the current language after those of the languages behind it. The list `pages` in `Trace.InOrder`
has the numbers.
-/

namespace Harvest

open Interleaving

variable {σ : Type}

/-! ## Tasks under way

What is counted, and that a move of one task changes the counts as it should. -/

/-- Whether a task has taken its first step. -/
def Task.hasBegun (t : Task) : Bool :=
  match t.phase with
  | .waiting => false
  | _ => true

/-- How many requests of a task are not answered. -/
def Task.unanswered (t : Task) : Nat := if t.isAsking then 1 else 0

namespace Run

/-- The tasks that have begun and are not done. -/
def underway (r : Run σ) : List Task := r.tasks.filter fun t => t.hasBegun && !t.isDone

/-- How many requests of a task are not answered. -/
def unanswered (r : Run σ) (i : Nat) : Nat := (r.tasks[i]?.map Task.unanswered).getD 0

/-- How many answers a task takes up while tasks move in some order: one with each of its own moves, if a
request of it is not answered. -/
def answered (site : Site σ) (paging : PagingStrategy) (i : Nat) : Run σ → List Nat → Nat
  | _, [] => 0
  | r, j :: order =>
    (if j = i then r.unanswered i else 0) + answered site paging i (r.act site paging j) order

theorem unanswered_eq {r : Run σ} {i : Nat} {t : Task} (h : r.tasks[i]? = some t) :
    r.unanswered i = t.unanswered := by
  rw [unanswered, h]
  rfl

/-- A task that cannot move waits for no answer. -/
theorem unanswered_of_not_movable {r : Run σ} {i : Nat} (h : ¬r.Movable i) : r.unanswered i = 0 := by
  cases ht : r.tasks[i]? with
  | none => rw [unanswered, ht]; rfl
  | some t =>
      rw [unanswered_eq ht, Task.unanswered, if_neg]
      exact fun ha => h ⟨t, ht, .inr ha⟩

/-! ### Permits and tasks under way

Between two moves no task rests between languages, so a task that is under way waits for an answer and has a
permit. -/

/-- Under way are the tasks that wait for an answer. -/
theorem Settled.underway_eq {r : Run σ} (h : r.Settled) : r.underway = r.tasks.filter Task.isAsking := by
  refine List.filter_congr fun t ht => ?_
  cases hd : t.isDone with
  | true =>
      rcases Task.ended_or_crashed hd with hp | ⟨e, hp⟩ <;> rw [Task.hasBegun, Task.isAsking, hp] <;> rfl
  | false =>
      rcases Task.waiting_or_asking hd (h t ht) with hp | ⟨w, a, hp⟩ <;>
        rw [Task.hasBegun, Task.isAsking, hp] <;> rfl

section Acts

variable (site : Site σ) (paging : PagingStrategy)

theorem Settled.acts {r : Run σ} (h : r.Settled) (order : List Nat) : (r.acts site paging order).Settled := by
  induction order generalizing r with
  | nil => exact h
  | cons i order ih => exact ih (h.act site paging)

/-- **No permit is lost**, in whatever order tasks move. -/
theorem permits_acts {r : Run σ} (h : r.Settled) (order : List Nat) :
    (r.acts site paging order).free + (r.acts site paging order).asking = r.free + r.asking := by
  induction order generalizing r with
  | nil => rfl
  | cons i order ih => exact (ih (h.act site paging)).trans (permits_act site paging h)

end Acts

end Run

namespace Agenda

/-! ### The highest number

The program notes how many tasks were under way at most, at the moment when that number can have changed. -/

theorem peak_wake (a : Agenda) : a.wake.peak = a.peak := by
  rw [wake]
  split <;> rfl

/-- The highest number of tasks under way is not changed by what a task comes to. -/
theorem peak_after (a : Agenda) (suspends : Bool) (i : Nat) (phase : Phase) :
    (a.after suspends i phase).peak = a.peak := by
  unfold after
  split
  · rfl
  · rfl
  · exact a.peak_wake
  · exact a.peak_wake

/-- **Never do more tasks wait for an answer at once than there are permits.** -/
theorem peak_run_le (site : Site σ) (paging : PagingStrategy) (suspends : Bool) (fuel : Nat) {a : Agenda}
    {r : Run σ} {permits : Nat} (hs : r.Settled) (hp : r.free + r.asking = permits)
    (ha : a.peak ≤ permits) : (run site paging suspends fuel a r).2.1.peak ≤ permits := by
  induction fuel generalizing a r with
  | zero => exact ha
  | succ fuel ih =>
      rw [run]
      split
      next => exact ha
      next => exact ha
      next => exact ih hs hp ha
      next i rest _ =>
        have hs' := hs.act site paging (i := i)
        have hp' := (Run.permits_act site paging (i := i) hs).trans hp
        have ha' : max a.peak (r.act site paging i).asking ≤ permits :=
          max_le ha (hp' ▸ Nat.le_add_left ..)
        dsimp only
        split
        next t _ => exact ih hs' hp' ((peak_after ..).trans_le ha')
        next => exact ih hs' hp' ha'

end Agenda

/-! ## Requests in order

The requests of one task, from those of a single page up to those of all languages. -/

/-- The requests for the first pages of some languages, so many in each. -/
def NodeDefinition.pageRequests (d : NodeDefinition) (n : Nat) (pages : List (String × Nat)) :
    List Request :=
  pages.flatMap fun x => (List.range x.2).map (d.pageRequest x.1 n)

/-- Whether the requests of a type come language by language, and in each of them page by page. Of every
language but the last a page was asked for. -/
def Trace.InOrder (es : Trace) (d : NodeDefinition) (n : Nat) : Prop :=
  ∃ pages : List (String × Nat), pages.map Prod.fst <+: d.languages ∧ (∀ x ∈ pages.dropLast, 0 < x.2)
    ∧ es.requests = d.pageRequests n pages

section Order

variable {site : Site σ} {d : NodeDefinition} {n : Nat} {es new : Trace} {t u : Task} {l : String}

theorem NodeDefinition.pageRequests_append (pages more : List (String × Nat)) :
    d.pageRequests n (pages ++ more) = d.pageRequests n pages ++ d.pageRequests n more :=
  List.flatMap_append

theorem NodeDefinition.pageRequests_singleton (k : Nat) :
    d.pageRequests n [(l, k)] = (List.range k).map (d.pageRequest l n) := List.flatMap_singleton ..

theorem requests_pageEffects (k : Nat) (a : Answer) (vs : List Value) :
    Trace.requests (d.pageEffects l n k a vs) = [d.pageRequest l n k] := by
  rw [NodeDefinition.pageEffects, Trace.requests_asked, Trace.requests_emitted]

/-- A walk that is under way has sent the requests for the pages before. -/
theorem Walking.requests {k : Nat} (h : Walking site d n l k es) :
    es.requests = (List.range k).map (d.pageRequest l n) := by
  induction h with
  | begun => rfl
  | page h hg hr hv ih =>
      rw [Trace.requests_append, ih, requests_pageEffects, List.range_succ, List.map_append]
      rfl

/-- A walk that is over has sent the requests for its pages, one at least. -/
theorem Walked.requests {f : Option Failure} (h : Walked site d n l es f) :
    ∃ k, 0 < k ∧ es.requests = (List.range k).map (d.pageRequest l n) := by
  cases h with
  | @short k es a vs h hg hr hv =>
      refine ⟨k + 1, Nat.succ_pos k, ?_⟩
      rw [Trace.requests_append, h.requests, requests_pageEffects, List.range_succ, List.map_append]
      rfl
  | @unfetched k es a p h hg hr =>
      refine ⟨k + 1, Nat.succ_pos k, ?_⟩
      rw [Trace.requests_append, h.requests, List.range_succ, List.map_append]
      rfl

/-- The languages behind a task had their pages requested one after the other. -/
theorem Behind.requests {past : List String} {e : TypeReport} (h : Behind site d n past es e) :
    ∃ pages : List (String × Nat), pages.map Prod.fst = past ∧ (∀ x ∈ pages, 0 < x.2)
      ∧ es.requests = d.pageRequests n pages := by
  induction h with
  | nothing => exact ⟨[], rfl, nofun, rfl⟩
  | @language past es e l more f _ hw ih =>
      obtain ⟨pages, rfl, hpos, hreq⟩ := ih
      obtain ⟨k, hk, hreq'⟩ := hw.requests
      refine ⟨pages ++ [(l, k)], List.map_append, ?_, ?_⟩
      · exact List.forall_mem_append.mpr ⟨hpos, List.forall_mem_singleton.mpr hk⟩
      · rw [Trace.requests_append, hreq, hreq', NodeDefinition.pageRequests_append,
          NodeDefinition.pageRequests_singleton]

/-- Pages of one more language come after those of all languages before it. -/
theorem inOrder_of_walk {past ls : List String} {more : Trace} {e : TypeReport} {k : Nat}
    (h : Behind site d n past es e) (hs : d.languages = past ++ l :: ls)
    (hr : more.requests = (List.range k).map (d.pageRequest l n)) : Trace.InOrder (es ++ more) d n := by
  obtain ⟨pages, rfl, hpos, hreq⟩ := h.requests
  refine ⟨pages ++ [(l, k)], ⟨ls, ?_⟩, ?_, ?_⟩
  · rw [hs, List.map_append, List.append_assoc]
    rfl
  · rw [List.dropLast_concat]
    exact hpos
  · rw [Trace.requests_append, hreq, hr, NodeDefinition.pageRequests_append,
      NodeDefinition.pageRequests_singleton]

/-- With the page that is asked for there is one request more. -/
theorem Walking.requests_asked {k : Nat} (h : Walking site d n l k es) (a : Answer) :
    Trace.requests (es ++ [.asked (d.pageRequest l n k) a])
      = (List.range (k + 1)).map (d.pageRequest l n) := by
  rw [Trace.requests_append, h.requests, List.range_succ, List.map_append]
  rfl

/-- **A task sends its requests in order**, wherever it stands. -/
theorem Stands.inOrder (h : Stands site d n es t) : es.InOrder d n := by
  cases h with
  | fresh => exact ⟨[], List.nil_prefix, nofun, rfl⟩
  | asking h hs hw hg => exact inOrder_of_walk h hs (hw.requests_asked _)
  | closed h =>
      obtain ⟨pages, hpages, hpos, hreq⟩ := h.requests
      exact ⟨pages, hpages ▸ List.prefix_rfl, fun x hx => hpos x (List.mem_of_mem_dropLast hx), hreq⟩
  | cancelled _ h hs hw => exact inOrder_of_walk h hs hw.requests
  | crashed h hs hw hg hr => exact inOrder_of_walk h hs (hw.requests_asked _)

/-! ## One request at a time

Each way to move ends with a request or without one. -/

/-- A task that follows a walk has sent a request if it waits for an answer now. -/
theorem Followed.requests_length {k : Nat} (h : Followed site d n l k t new u) :
    new.requests.length = u.unanswered := by
  cases h with
  | cancelled _ => rfl
  | asked _ => rfl

/-- A task that has begun languages has sent a request if it waits for an answer now. -/
theorem Begun.requests_length {ls : List String} (h : Begun site d n t ls new u) :
    new.requests.length = u.unanswered := by
  cases h with
  | closed => rfl
  | next hf => exact hf.requests_length

/-- **A move sends one request if the task waits for an answer after it**, and none otherwise. -/
theorem Moved.requests_length (h : Moved site d n t new u) : new.requests.length = u.unanswered := by
  cases h with
  | started _ hb => exact hb.requests_length
  | full _ _ _ hf =>
      rw [Trace.requests_append, Trace.requests_emitted, List.nil_append]
      exact hf.requests_length
  | short _ _ _ hb =>
      rw [Trace.requests_append, Trace.requests_emitted, List.nil_append]
      exact hb.requests_length
  | unfetched _ _ hb => exact hb.requests_length
  | misused _ _ => rfl

end Order

/-! ## Whole runs

The counts of one move, added up over any number of them. -/

namespace Accounts

variable {site : Site σ} {n : Nat} {ds : List NodeDefinition} {steps : Interleaving Effect}
  {r : Run (σ × Trace)}

/-- A move of one task takes up an answer, if it was waited for, and sends a request, if one is waited for
afterwards. -/
theorem act_answered (hd : ∀ d ∈ ds, d.Coherent) (hn : 0 < n) (h : Accounts site n ds steps r) (i : Nat) :
    ∃ more, Accounts site n ds (steps ++ more) (r.act site.traced (.bySize n) i)
      ∧ (r.act site.traced (.bySize n) i).world.2 = r.world.2 ++ merged more
      ∧ ∀ j, (Trace.requests (own j more)).length + r.unanswered j
        = (if i = j then r.unanswered j else 0) + (r.act site.traced (.bySize n) i).unanswered j := by
  by_cases hm : r.Movable i
  · obtain ⟨t, s, ht, hdone, hacc, hlog, htasks⟩ := h.act_of_movable hd hn hm
    refine ⟨_, hacc, by rw [merged_block, hlog], fun j => ?_⟩
    by_cases hij : i = j
    · subst hij
      have hi := (List.getElem?_eq_some_iff.mp ht).1
      obtain ⟨u, hu, hst⟩ := h.stands (List.getElem?_eq_getElem (h.length_eq ▸ hi))
      cases ht.symm.trans hu
      have hready := hst.ready hdone
      have hmoved := move_moved site (s := s) (hd _ (List.getElem_mem _)) hn hready
      have hafter : (r.act site.traced (.bySize n) i).tasks[i]? = some (t.move site (.bySize n) s).1 := by
        rw [htasks]
        exact List.getElem?_set_self hi
      rw [own_block_self, hmoved.requests_length, if_pos rfl, Run.unanswered_eq hafter, Nat.add_comm]
    · have hsame : (r.act site.traced (.bySize n) i).unanswered j = r.unanswered j := by
        rw [Run.unanswered, htasks, List.getElem?_set_ne hij]
        rfl
      rw [own_block_of_ne hij, if_neg hij, hsame]
      rfl
  -- a task that cannot move has nothing to be answered
  · rw [Run.act_of_not_movable site.traced (.bySize n) hm]
    refine ⟨[], by rwa [List.append_nil], by rw [merged_nil, List.append_nil], fun j => ?_⟩
    have hnone : (if i = j then r.unanswered j else 0) = 0 := by
      split
      next hij => exact hij ▸ Run.unanswered_of_not_movable hm
      next => rfl
    rw [hnone]
    rfl

/-- **Every request is answered but the last**, in whatever order tasks move: what a task has sent is what
it has got an answer to, and one request more while it waits. -/
theorem acts_answered (hd : ∀ d ∈ ds, d.Coherent) (hn : 0 < n) (h : Accounts site n ds steps r)
    (order : List Nat) :
    ∃ more, Accounts site n ds (steps ++ more) (r.acts site.traced (.bySize n) order)
      ∧ (r.acts site.traced (.bySize n) order).world.2 = r.world.2 ++ merged more
      ∧ ∀ j, (Trace.requests (own j more)).length + r.unanswered j
        = r.answered site.traced (.bySize n) j order
          + (r.acts site.traced (.bySize n) order).unanswered j := by
  induction order generalizing r steps with
  | nil =>
      refine ⟨[], by rwa [List.append_nil], by rw [merged_nil, List.append_nil]; rfl, fun j => rfl⟩
  | cons i order ih =>
      obtain ⟨m₁, h₁, hw₁, hc₁⟩ := h.act_answered hd hn i
      obtain ⟨m₂, h₂, hw₂, hc₂⟩ := ih h₁
      refine ⟨m₁ ++ m₂, by rwa [← List.append_assoc], ?_, fun j => ?_⟩
      · rw [Run.acts_cons, hw₂, hw₁, merged_append, List.append_assoc]
      · have hfirst := hc₁ j
        have hrest := hc₂ j
        rw [own_append, Trace.requests_append, List.length_append, Run.answered, Run.acts_cons]
        omega

end Accounts

/-- What holds of a state of a run with so many permits, in which tasks have done so much and taken up so
many answers. -/
structure Run.Orderly (r : Run (σ × Trace)) (permits n : Nat) (ds : List NodeDefinition)
    (steps : Interleaving Effect) (answered : Nat → Nat) : Prop where
  /-- No permit is lost: what is not free is held by a type that has begun and is not done. -/
  permits : r.free + r.underway.length = permits
  /-- As long as a type is not done, the run can go on. -/
  goesOn : (∃ t ∈ r.tasks, t.isDone = false) → ∃ i, r.Movable i
  /-- Every type has at most one request that is not answered. -/
  answered : ∀ i, (Trace.requests (own i steps)).length = answered i + r.unanswered i
  single : ∀ i, r.unanswered i ≤ 1
  /-- Every type sends its requests in order. -/
  inOrder : ∀ i d, ds[i]? = some d → Trace.InOrder (own i steps) d n

/-- A task has at most one request without an answer. -/
theorem Run.unanswered_le (r : Run σ) (i : Nat) : r.unanswered i ≤ 1 := by
  unfold unanswered Task.unanswered
  cases r.tasks[i]? with
  | none => exact Nat.zero_le 1
  | some t =>
      show (if t.isAsking then 1 else 0) ≤ 1
      split <;> omega

theorem Run.unanswered_start (ds : List NodeDefinition) (permits : Nat) (s : σ) (i : Nat) :
    (Run.start ds permits s).unanswered i = 0 := by
  rw [unanswered, start, List.getElem?_map]
  cases ds[i]? <;> rfl

/-- **In whatever order tasks move, every state of a run is orderly.** -/
theorem orderly_of_order (site : Site σ) {n permits : Nat} {ds : List NodeDefinition}
    (hd : ∀ d ∈ ds, d.Coherent) (hn : 0 < n) (hpermits : 0 < permits) (x : σ × Trace) (order : List Nat) :
    ∃ steps, Accounts site n ds steps ((Run.start ds permits x).acts site.traced (.bySize n) order)
      ∧ ((Run.start ds permits x).acts site.traced (.bySize n) order).world.2 = x.2 ++ merged steps
      ∧ ((Run.start ds permits x).acts site.traced (.bySize n) order).Orderly permits n ds steps
        fun i => (Run.start ds permits x).answered site.traced (.bySize n) i order := by
  have hempty : Accounts site n ds [] (Run.start ds permits x) := .start permits x
  obtain ⟨steps, hacc, hlog, hanswered⟩ := hempty.acts_answered hd hn order
  rw [List.nil_append] at hacc
  have hstart := Run.start_settled ds permits x
  have hsettled := hstart.acts site.traced (.bySize n) order
  have hpermits' := Run.permits_acts site.traced (.bySize n) hstart order
  rw [Run.asking_start, Nat.add_zero] at hpermits'
  refine ⟨steps, hacc, hlog, ⟨?_, fun hopen => ?_, fun i => ?_, Run.unanswered_le _, fun i d hi => ?_⟩⟩
  · rw [hsettled.underway_eq]
    exact hpermits'
  · exact Run.exists_movable hsettled (hpermits'.symm ▸ hpermits) hopen
  · have hi := hanswered i
    rw [Run.unanswered_start, Nat.add_zero] at hi
    exact hi
  · obtain ⟨t, -, hst⟩ := hacc.stands hi
    exact hst.inOrder

end Harvest
