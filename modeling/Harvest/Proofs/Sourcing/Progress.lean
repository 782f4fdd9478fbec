import Harvest.Proofs.Sourcing.Chronicle

/-!
# Progress

A listing runs dry if from some page on it has no full page any more, whenever it is asked. A task whose
listings run dry ends within a number of moves that its languages and that page bound, whatever else
happens; and so does a run whose types all do.

The number of moves is made of the languages that are left, each with at most so many pages and one more,
and of the pages that are left in the current language. A move lowers it by one at least (`Moved.within`).
The bound does not depend on what the remote answers otherwise, nor on what other tasks do, which is why it
can be used in any run.
-/

namespace Harvest

variable {σ : Type}

/-- Whether the listings of a type have no full pages from some page on. -/
def Site.RunsDry (site : Site σ) (d : NodeDefinition) (n pages : Nat) : Prop :=
  ∀ l ∈ d.languages, ∀ k a vs, pages ≤ k → site.Gives (d.pageRequest l n k) a →
    a.reading d.document.queryField = .items vs → vs.length < n

/-- Whether the listings of a type have a page each, up to some number, that is never full. -/
def Site.Stops (site : Site σ) (d : NodeDefinition) (n pages : Nat) : Prop :=
  ∀ l ∈ d.languages, ∃ k ≤ pages, ∀ a vs, site.Gives (d.pageRequest l n k) a →
    a.reading d.document.queryField = .items vs → vs.length < n

theorem Site.RunsDry.stops {site : Site σ} {d : NodeDefinition} {n pages : Nat}
    (h : site.RunsDry d n pages) : site.Stops d n pages := fun l hl =>
  ⟨pages, Nat.le_refl pages, fun a vs => h l hl pages a vs (Nat.le_refl pages)⟩

/-- Whether a task has at most so many moves to come, if no listing gets past a page of some number. -/
structure Task.Within (t : Task) (d : NodeDefinition) (n pages m : Nat) : Prop where
  waiting : t.phase = .waiting → t.languages.length * (pages + 1) + 1 ≤ m
  asking : ∀ {l k a}, t.phase = .asking (d.walkAt l n k) a →
    t.languages.length * (pages + 1) + (pages - k) + 1 ≤ m

section Task

variable {site : Site σ} {d : NodeDefinition} {n pages m : Nat} {t u : Task} {es new : Trace}

theorem Task.Within.of_isDone (h : t.isDone = true) : t.Within d n pages m where
  waiting hp := by
    rw [Task.isDone, hp] at h
    cases h
  asking hp := by
    rw [Task.isDone, hp] at h
    cases h

/-! ## Moves to come

The number of moves that a task has to come is bounded by the pages of its languages up to the last one that
can be full. Every move uses up one of them. -/

theorem Followed.within (hn : 0 < n) {l : String} {k : Nat} (hf : Followed site d n l k t new u)
    (hm : t.languages.length * (pages + 1) + (pages - k) + 1 ≤ m) : u.Within d n pages m := by
  cases hf with
  | cancelled _ => exact .of_isDone rfl
  | asked _ =>
      refine ⟨Phase.noConfusion, fun hp => ?_⟩
      obtain ⟨-, rfl, -⟩ := asking_inj hn hp
      exact hm

theorem Begun.within (hn : 0 < n) {ls : List String} (hb : Begun site d n t ls new u)
    (hm : ls.length * (pages + 1) ≤ m) : u.Within d n pages m := by
  cases hb with
  | closed => exact .of_isDone rfl
  | @next l ls _ _ hf =>
      refine hf.within hn ?_
      rw [List.length_cons, Nat.add_mul] at hm
      show ls.length * (pages + 1) + (pages - 0) + 1 ≤ m
      omega

/-- Before a walk asks for a page, it got full pages only. -/
theorem Walking.full {l : String} {k : Nat} (h : Walking site d n l k es) :
    ∀ j < k, ∃ a vs, site.Gives (d.pageRequest l n j) a
      ∧ a.reading d.document.queryField = .items vs ∧ n ≤ vs.length := by
  induction h with
  | begun => exact fun j hj => absurd hj (Nat.not_lt_zero j)
  | @page k es a vs h hg hr hv ih =>
      intro j hj
      rcases Nat.lt_succ_iff_lt_or_eq.mp hj with hj | rfl
      · exact ih j hj
      · exact ⟨a, vs, hg, hr, hv⟩

/-- The page that a task has asked for is one of its type, and those before it were full. -/
theorem Stands.of_asking (hn : 0 < n) (h : Stands site d n es t) {l : String} {k : Nat} {a : Answer}
    (hp : t.phase = .asking (d.walkAt l n k) a) :
    l ∈ d.languages ∧ site.Gives (d.pageRequest l n k) a
      ∧ ∀ j < k, ∃ a vs, site.Gives (d.pageRequest l n j) a
        ∧ a.reading d.document.queryField = .items vs ∧ n ≤ vs.length := by
  cases h with
  | fresh => cases hp
  | asking h hs hw hg =>
      obtain ⟨rfl, rfl, rfl⟩ := asking_inj hn hp
      exact ⟨hs ▸ List.mem_append_right _ List.mem_cons_self, hg, hw.full⟩
  | closed => cases hp
  | cancelled => cases hp
  | crashed => cases hp

/-- A move leaves one move less to come. -/
theorem Moved.within (hn : 0 < n) (hstops : site.Stops d n pages) (h : Stands site d n es t)
    (hm : Moved site d n t new u) (hw : t.Within d n pages (m + 1)) : u.Within d n pages m := by
  cases hm with
  | started hp hb =>
      have := hw.waiting hp
      exact hb.within hn (by omega)
  | @full l k a vs new u hp hr hv hf =>
      have hleft := hw.asking hp
      obtain ⟨hl, hg, hbefore⟩ := h.of_asking hn hp
      -- This page was full, like those before it, so the one that is never full comes later.
      have hk : k < pages := by
        obtain ⟨j, hj, hshort⟩ := hstops l hl
        by_contra hk
        rcases Nat.lt_or_eq_of_le (hj.trans (Nat.le_of_not_lt hk)) with hjk | rfl
        · obtain ⟨b, ws, hb, hws, hfull⟩ := hbefore j hjk
          exact absurd (hshort b ws hb hws) (Nat.not_lt.mpr hfull)
        · exact absurd (hshort a vs hg hr) (Nat.not_lt.mpr hv)
      refine hf.within hn ?_
      show t.languages.length * (pages + 1) + (pages - (k + 1)) + 1 ≤ m
      omega
  | short hp hr hv hb =>
      have := hw.asking hp
      exact hb.within hn (by omega)
  | unfetched hp hr hb =>
      have := hw.asking hp
      exact hb.within hn (by omega)
  | misused hp hr => exact .of_isDone rfl

theorem Stands.endsWithin (hd : d.Coherent) (hn : 0 < n) (hstops : site.Stops d n pages)
    (h : Stands site d n es t) (hw : t.Within d n pages m) : t.EndsWithin site (.bySize n) m := by
  induction m generalizing t es with
  | zero =>
      show t.isDone = true
      by_contra hdone
      have hdone := Bool.eq_false_iff.mpr hdone
      rcases (h.ready hdone).phase with hp | ⟨l, -, k, a, hp⟩
      · have := hw.waiting hp
        omega
      · have := hw.asking hp
        omega
  | succ m ih =>
      cases hdone : t.isDone with
      | true => exact .inl hdone
      | false =>
          refine .inr ?_
          intro s
          have hm := move_moved site (s := s) hd hn (h.ready hdone)
          exact ih (h.moved hn hm) (hm.within hn hstops h hw)

/-- **A task whose listings stop ends** within a number of moves that depends on them only. -/
theorem fresh_endsWithin (hd : d.Coherent) (hn : 0 < n) (hstops : site.Stops d n pages) :
    (Task.fresh d).EndsWithin site (.bySize n) (d.languages.length * (pages + 1) + 1) := by
  refine Stands.fresh.endsWithin hd hn hstops ⟨fun _ => Nat.le_refl _, fun hp => ?_⟩
  cases hp

end Task

/-! ## Whole runs -/

/-- **A run ends if all listings run dry.** -/
theorem lasting_of_runsDry {site : Site σ} {n : Nat} {ds : List NodeDefinition} (hn : 0 < n)
    (hd : ∀ d ∈ ds, d.Coherent) (hdry : ∀ d ∈ ds, ∃ pages, site.RunsDry d n pages) :
    ∃ m, Lasting site (.bySize n) (ds.map .fresh) m := by
  induction ds with
  | nil => exact ⟨0, .nil⟩
  | cons d ds ih =>
      obtain ⟨m, hm⟩ := ih (fun c hc => hd c (List.mem_cons_of_mem d hc))
        (fun c hc => hdry c (List.mem_cons_of_mem d hc))
      obtain ⟨pages, hp⟩ := hdry d List.mem_cons_self
      exact ⟨_, .cons (fresh_endsWithin (hd d List.mem_cons_self) hn hp.stops) hm⟩

/-- Pages are as long as the configuration says, unless another strategy is put in its place. -/
theorem Order.walking_eq {o : Order} {n : Nat} (hpaging : o.paging = none)
    (hsize : o.config.pageSize = n) : o.walking = .bySize n := by
  rw [walking, hpaging, hsize]
  rfl

/-- **The program comes to one of the ends of a plan** if all listings run dry. -/
theorem Sourcing.source_comes_to_end {site : Site σ} {o : Order} {p : Plan} {n : Nat}
    (hp : p.Coherent) (hn : 0 < n) (hw : o.walking = .bySize n) (hconcurrency : 1 ≤ o.config.concurrency)
    (hdry : ∀ d ∈ p.nodes.values, ∃ pages, site.RunsDry d n pages) (suspends : Bool) (s : σ) :
    ∃ moves, ∀ fuel ≥ moves, ∃ x, (source site ⟨suspends, fuel⟩ o p s).1.result = some x
      ∧ Ends site.traced o p (s, []) x (source site.traced ⟨suspends, fuel⟩ o p (s, [])).2 := by
  obtain ⟨m, hl⟩ := lasting_of_runsDry hn (fun d hd => hp.node hd) hdry
  rw [← hw] at hl
  obtain ⟨moves, hmoves⟩ := source_returns hl suspends s
  refine ⟨moves, ?_⟩
  intro fuel hfuel
  obtain ⟨x, hx⟩ := hmoves fuel hfuel
  have htraced := (source_traced site ⟨suspends, fuel⟩ o p s []).1
  exact ⟨x, hx, source_ends hconcurrency (htraced ▸ hx)⟩

end Harvest
