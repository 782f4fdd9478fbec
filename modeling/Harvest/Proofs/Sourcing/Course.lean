import Harvest.Proofs.Sourcing.Moves
import Harvest.Proofs.Sourcing.Pages

/-!
# Courses

What a task has done so far says where it stands. It has walked through some languages, each up to a
short page or to a page that was not fetched, and in the language after them it has received a number of
full pages. `Stands` is this relation between effects and tasks. `Moved` lists the ways in which a task
moves, and `Stands.moved` says that every one of them keeps the relation.

The relation is built up from the smallest unit. `Walking` has the effects of a language that is under way,
page by page; `Walked` those of a language that is over, with the failure at its end if there was one;
`Behind` puts languages one after the other, with the report that has been made so far; and `Stands` adds
the phase of the task. All of them are inductive, with effects that grow at their end, so that a move adds
one constructor.

Later modules prove their properties of a task by induction on these four and never look at `Task.move`
again.
-/

namespace Harvest

variable {σ : Type}

namespace Site

/-- Whether a request can be answered so. -/
def Gives (site : Site σ) (r : Request) (a : Answer) : Prop := ∃ s, (site.ask r s).1 = a

/-- Whether a run can be cancelled. -/
def Cancels (site : Site σ) : Prop := ∃ s, site.cancelled s = true

end Site

/-- Whether a definition fits its document: it is one of the same type, with an operation for every
language. -/
structure NodeDefinition.Coherent (d : NodeDefinition) : Prop where
  typeName_eq : d.document.typeName = d.typeName
  contains : ∀ l ∈ d.languages, d.document.operations.contains l = true

/-- What is done about a page: it is asked for, and its records are handed over. -/
def NodeDefinition.pageEffects (d : NodeDefinition) (l : String) (n k : Nat) (a : Answer)
    (vs : List Value) : Trace :=
  .asked (d.pageRequest l n k) a :: (d.records l vs).map (.emitted d)

namespace TypeReport

@[simp] theorem withRecords_withRecords (e : TypeReport) (m n : Nat) :
    (e.withRecords m).withRecords n = e.withRecords (m + n) := by
  simp [withRecords, Nat.add_assoc]

/-- The report after a walk with so many records and its failure, if there was one. -/
def afterWalk (e : TypeReport) (n : Nat) : Option Failure → TypeReport
  | none => e.withRecords n
  | some f => (e.withRecords n).withError f.message

end TypeReport

/-! ## Ways to move

What a move can do, with the effects that it has, as relations with a constructor for each way. -/

section Moved

variable (site : Site σ) (d : NodeDefinition) (n : Nat)

/-- The ways in which a task goes on that is to ask for a page. -/
inductive Followed (l : String) (k : Nat) (t : Task) : Trace → Task → Prop
  | cancelled (h : site.Cancels) : Followed l k t [] t.stopped
  | asked {a : Answer} (h : site.Gives (d.pageRequest l n k) a) :
      Followed l k t [.asked (d.pageRequest l n k) a] { t with phase := .asking (d.walkAt l n k) a }

/-- The ways in which a task goes on that is to begin some languages. -/
inductive Begun (t : Task) : List String → Trace → Task → Prop
  | closed : Begun t [] [] t.close
  | next {l : String} {ls : List String} {es : Trace} {u : Task}
      (h : Followed site d n l 0 { t with languages := ls } es u) : Begun t (l :: ls) es u

/-- The ways in which a task moves. -/
inductive Moved (t : Task) : Trace → Task → Prop
  | started {es : Trace} {u : Task} (h : t.phase = .waiting)
      (hb : Begun site d n t t.languages es u) : Moved t es u
  | full {l : String} {k : Nat} {a : Answer} {vs : List Value} {es : Trace} {u : Task}
      (h : t.phase = .asking (d.walkAt l n k) a) (hr : a.reading d.document.queryField = .items vs)
      (hv : n ≤ vs.length)
      (hf : Followed site d n l (k + 1)
        { t with entry := t.entry.withRecords (d.records l vs).length } es u) :
      Moved t ((d.records l vs).map (.emitted d) ++ es) u
  | short {l : String} {k : Nat} {a : Answer} {vs : List Value} {es : Trace} {u : Task}
      (h : t.phase = .asking (d.walkAt l n k) a) (hr : a.reading d.document.queryField = .items vs)
      (hv : vs.length < n)
      (hb : Begun site d n { t with entry := t.entry.withRecords (d.records l vs).length }
        t.languages es u) :
      Moved t ((d.records l vs).map (.emitted d) ++ es) u
  | unfetched {l : String} {k : Nat} {a : Answer} {p : FetchProblem} {es : Trace} {u : Task}
      (h : t.phase = .asking (d.walkAt l n k) a)
      (hr : a.reading d.document.queryField = .unfetched p)
      (hb : Begun site d n
        { t with entry := t.entry.withError (d.fetchFailure l n k p).message } t.languages es u) :
      Moved t es u
  | misused {l : String} {k : Nat} {a : Answer} {f : Fault}
      (h : t.phase = .asking (d.walkAt l n k) a)
      (hr : a.reading d.document.queryField = .misused f) :
      Moved t [] { t with phase := .crashed (.fault f) }

end Moved

/-- Whether a task can move, and every request that it can come to is one of its type. -/
structure Task.Ready (t : Task) (d : NodeDefinition) (n : Nat) : Prop where
  definition_eq : t.definition = d
  subset : t.languages ⊆ d.languages
  phase : t.phase = .waiting ∨ ∃ l ∈ d.languages, ∃ k a, t.phase = .asking (d.walkAt l n k) a

section Inversion

variable (site : Site σ) {d : NodeDefinition} {n : Nat} {t : Task} {s : σ}

/-- What a step brings, whatever was done before it: a task and effects that stand in a relation. -/
def Brings (x : σ × Trace → Task × (σ × Trace)) (s : σ) (P : Trace → Task → Prop) : Prop :=
  ∀ log, ∃ es u s', x (s, log) = (u, (s', log ++ es)) ∧ P es u

/-- To follow a walk is one of these ways. -/
theorem follow_followed {l : String} {k : Nat} (h : d.document.operations.contains l = true) :
    Brings (Task.follow site.traced t (d.walkAt l n k)) s (Followed site d n l k t) := by
  intro log
  cases hc : site.cancelled s with
  | true =>
      have hc' : site.traced.cancelled (s, log) = true := hc
      refine ⟨[], t.stopped, s, ?_, .cancelled ⟨s, hc⟩⟩
      rw [Task.follow_cancelled rfl hc', List.append_nil]
  | false =>
      have hc' : site.traced.cancelled (s, log) = false := hc
      have hr := NodeDefinition.request_walkAt (n := n) (k := k) h
      exact ⟨_, _, _, Task.follow_ask rfl hc' hr, .asked ⟨s, rfl⟩⟩

/-- To begin languages is one of these ways. -/
theorem beginLanguages_begun (hd : d.Coherent) (ht : t.definition = d) {ls : List String}
    (hl : ls ⊆ d.languages) :
    Brings (Task.beginLanguages site.traced (.bySize n) t ls) s (Begun site d n t ls) := by
  subst ht
  intro log
  cases ls with
  | nil =>
      refine ⟨[], t.close, s, ?_, .closed⟩
      rw [List.append_nil]
      rfl
  | cons l ls =>
      have hc := hd.contains l (hl List.mem_cons_self)
      obtain ⟨es, u, s', h, hf⟩ :=
        follow_followed site (s := s) (n := n) (k := 0) (t := { t with languages := ls }) hc log
      refine ⟨es, u, s', ?_, .next hf⟩
      rw [Task.beginLanguages_cons]
      exact h

/-- To resume a walk with an answer is one of these ways. -/
theorem resume_moved (hd : d.Coherent) (hn : 0 < n) (ht : t.Ready d n) {l : String} {k : Nat}
    {a : Answer} (hl : l ∈ d.languages) (hp : t.phase = .asking (d.walkAt l n k) a) :
    Brings (t.resume site.traced (.bySize n) (d.walkAt l n k) a) s (Moved site d n t) := by
  intro log
  obtain ⟨rfl, hls, -⟩ := ht
  have hemit (rs : List EntityRecord) := Site.emitAll_traced site t.definition rs s log
  -- by what is read from the answer: a full page, a short one, none, or one that cannot be listed
  cases hr : a.reading t.definition.document.queryField with
  | items vs =>
      by_cases hv : n ≤ vs.length
      · rw [Task.resume_full _ _ (NodeDefinition.receive_full hn hr hv) rfl, hemit]
        obtain ⟨es, u, s', h, hf⟩ := follow_followed site (n := n) (k := k + 1)
          (t := { t with entry := t.entry.withRecords (t.definition.records l vs).length })
          (hd.contains l hl) (log ++ (t.definition.records l vs).map (.emitted t.definition))
        exact ⟨_, u, s', by rw [h, List.append_assoc], .full hp hr hv hf⟩
      · have hv' : vs.length < n := Nat.lt_of_not_le hv
        obtain ⟨next, hrec, hnext⟩ := NodeDefinition.receive_short (l := l) (k := k) hn hr hv'
        rw [Task.resume_last _ _ hrec hnext, hemit]
        obtain ⟨es, u, s', h, hb⟩ := beginLanguages_begun site (n := n) hd
          (t := { t with entry := t.entry.withRecords (t.definition.records l vs).length }) rfl hls
          (log ++ (t.definition.records l vs).map (.emitted t.definition))
        exact ⟨_, u, s', by rw [h, List.append_assoc], .short hp hr hv' hb⟩
  | unfetched p =>
      rw [Task.resume_unfetched _ _ (NodeDefinition.receive_unfetched hr), hemit]
      obtain ⟨es, u, s', h, hb⟩ := beginLanguages_begun site (n := n) hd (s := s)
        (t := { t with entry := t.entry.withError (t.definition.fetchFailure l n k p).message })
        rfl hls log
      refine ⟨es, u, s', ?_, .unfetched hp hr hb⟩
      rw [List.map_nil, List.append_nil]
      exact h
  | misused f =>
      rw [Task.resume_fault _ _ (NodeDefinition.receive_misused hr), hemit]
      refine ⟨[], _, s, ?_, .misused hp hr⟩
      rw [List.map_nil]
      rfl

/-- **All that a move can do.** -/
theorem move_moved (hd : d.Coherent) (hn : 0 < n) (ht : t.Ready d n) :
    Moved site d n t (t.effects site (.bySize n) s) (t.move site (.bySize n) s).1 := by
  have h : Brings (t.move site.traced (.bySize n)) s (Moved site d n t) := by
    rcases ht.phase with hp | ⟨l, hl, k, a, hp⟩
    · intro log
      obtain ⟨es, u, s', h, hb⟩ := beginLanguages_begun site (s := s) (n := n) hd
        ht.definition_eq ht.subset log
      refine ⟨es, u, s', ?_, .started hp hb⟩
      rw [Task.move, hp]
      exact h
    · intro log
      rw [Task.move, hp]
      exact resume_moved site hd hn ht hl hp log
  -- With nothing done before, what the step adds is what the task does.
  obtain ⟨es, u, s', h, hm⟩ := h []
  rw [Task.move_traced, List.nil_append, List.nil_append] at h
  cases h
  exact hm

end Inversion

/-! ## Where a task stands

The four relations, and that a move keeps them. -/

section Stands

variable (site : Site σ) (d : NodeDefinition) (n : Nat)

/-- The walk of a language has received so many full pages. -/
inductive Walking (l : String) : Nat → Trace → Prop
  | begun : Walking l 0 []
  | page {k : Nat} {es : Trace} {a : Answer} {vs : List Value} (h : Walking l k es)
      (hg : site.Gives (d.pageRequest l n k) a) (hr : a.reading d.document.queryField = .items vs)
      (hv : n ≤ vs.length) : Walking l (k + 1) (es ++ d.pageEffects l n k a vs)

/-- The walk of a language has come to a short page or to a page that was not fetched. -/
inductive Walked (l : String) : Trace → Option Failure → Prop
  | short {k : Nat} {es : Trace} {a : Answer} {vs : List Value} (h : Walking site d n l k es)
      (hg : site.Gives (d.pageRequest l n k) a) (hr : a.reading d.document.queryField = .items vs)
      (hv : vs.length < n) : Walked l (es ++ d.pageEffects l n k a vs) none
  | unfetched {k : Nat} {es : Trace} {a : Answer} {p : FetchProblem} (h : Walking site d n l k es)
      (hg : site.Gives (d.pageRequest l n k) a)
      (hr : a.reading d.document.queryField = .unfetched p) :
      Walked l (es ++ [.asked (d.pageRequest l n k) a]) (some (d.fetchFailure l n k p))

/-- Some languages have been walked through, with these effects and this report. -/
inductive Behind : List String → Trace → TypeReport → Prop
  | nothing : Behind [] [] (.fresh d.typeName)
  | language {past : List String} {es : Trace} {e : TypeReport} {l : String} {more : Trace}
      {f : Option Failure} (h : Behind past es e) (hw : Walked site d n l more f) :
      Behind (past ++ [l]) (es ++ more) (e.afterWalk more.emissions f)

/-- What a task has done so far, and where it stands. -/
inductive Stands : Trace → Task → Prop
  | fresh : Stands [] (.fresh d)
  | asking {past : List String} {l : String} {ls : List String} {es more : Trace} {e : TypeReport}
      {k : Nat} {a : Answer} (h : Behind site d n past es e) (hs : d.languages = past ++ l :: ls)
      (hw : Walking site d n l k more) (hg : site.Gives (d.pageRequest l n k) a) :
      Stands (es ++ (more ++ [.asked (d.pageRequest l n k) a]))
        ⟨d, ls, e.withRecords more.emissions, .asking (d.walkAt l n k) a⟩
  | closed {es : Trace} {e : TypeReport} {ls : List String} (h : Behind site d n d.languages es e) :
      Stands es ⟨d, ls, e.closed, .ended⟩
  | cancelled {past : List String} {l : String} {ls : List String} {es more : Trace}
      {e : TypeReport} {k : Nat} (hc : site.Cancels) (h : Behind site d n past es e)
      (hs : d.languages = past ++ l :: ls) (hw : Walking site d n l k more) :
      Stands (es ++ more) ⟨d, ls, { e.withRecords more.emissions with status := .cancelled }, .ended⟩
  | crashed {past : List String} {l : String} {ls : List String} {es more : Trace} {e : TypeReport}
      {k : Nat} {a : Answer} {f : Fault} (h : Behind site d n past es e)
      (hs : d.languages = past ++ l :: ls) (hw : Walking site d n l k more)
      (hg : site.Gives (d.pageRequest l n k) a)
      (hr : a.reading d.document.queryField = .misused f) :
      Stands (es ++ (more ++ [.asked (d.pageRequest l n k) a]))
        ⟨d, ls, e.withRecords more.emissions, .crashed (.fault f)⟩

end Stands

@[simp] theorem NodeDefinition.emissions_pageEffects (d : NodeDefinition) (l : String) (n k : Nat)
    (a : Answer) (vs : List Value) :
    (d.pageEffects l n k a vs).emissions = (d.records l vs).length := by
  rw [pageEffects, Trace.emissions_asked, Trace.emissions_emitted]

section Step

variable {site : Site σ} {d : NodeDefinition} {n : Nat} {t u : Task} {es new : Trace}
  {past : List String} {e : TypeReport}

/-! ### A move and where it leads

A move first follows a walk or begins languages, and in both cases stops at a request, at the end or at a
cancellation. -/

/-- A task that is to ask for a page stands well after that. -/
theorem Followed.stands {l : String} {ls : List String} {k : Nat} {more : Trace} {p : Phase}
    (hf : Followed site d n l k ⟨d, ls, e.withRecords more.emissions, p⟩ new u)
    (h : Behind site d n past es e) (hs : d.languages = past ++ l :: ls)
    (hw : Walking site d n l k more) : Stands site d n (es ++ (more ++ new)) u := by
  cases hf with
  | cancelled hc =>
      rw [List.append_nil]
      exact .cancelled hc h hs hw
  | asked hg => exact .asking h hs hw hg

/-- A task that is to begin the languages that are left stands well after that. -/
theorem Begun.stands {ls : List String} {ls' : List String} {p : Phase}
    (hb : Begun site d n ⟨d, ls', e, p⟩ ls new u) (h : Behind site d n past es e)
    (hs : d.languages = past ++ ls) : Stands site d n (es ++ new) u := by
  cases hb with
  | closed =>
      rw [List.append_nil] at hs ⊢
      exact .closed (hs ▸ h)
  | next hf => exact hf.stands h hs .begun

/-- What a task waits for tells its language, its page and the answer that it got. -/
theorem asking_inj (hn : 0 < n) {l l' : String} {k k' : Nat} {a a' : Answer}
    (h : Phase.asking (d.walkAt l n k) a = .asking (d.walkAt l' n k') a') :
    l = l' ∧ k = k' ∧ a = a' := by
  obtain ⟨hw, ha⟩ := Phase.asking.inj h
  obtain ⟨hl, hk⟩ := NodeDefinition.walkAt_inj hn hw
  exact ⟨hl, hk, ha⟩

/-- **A move keeps the relation between what a task has done and where it stands.** -/
theorem Stands.moved (hn : 0 < n) (h : Stands site d n es t) (hm : Moved site d n t new u) :
    Stands site d n (es ++ new) u := by
  cases h with
  | fresh =>
      cases hm with
      | started _ hb => exact hb.stands .nothing rfl
      | full hp => cases hp
      | short hp => cases hp
      | unfetched hp => cases hp
      | misused hp => cases hp
  | @asking past l ls es more e k a h hs hw hg =>
      rw [List.append_assoc es]
      cases hm with
      | started hp => cases hp
      | @full l k a vs new u hp hr hv hf =>
          -- One page more of the same walk.
          obtain ⟨rfl, rfl, rfl⟩ := asking_inj hn hp
          have hw' := Walking.page hw hg hr hv
          have he : (e.withRecords more.emissions).withRecords (d.records l vs).length
              = e.withRecords (more ++ d.pageEffects l n k a vs).emissions := by
            rw [TypeReport.withRecords_withRecords, Trace.emissions_append,
              NodeDefinition.emissions_pageEffects]
          dsimp only at hf
          rw [he] at hf
          have := hf.stands h hs hw'
          rw [List.append_assoc more] at this ⊢
          exact this
      | @short l k a vs new u hp hr hv hb =>
          -- The walk is at its end, so its language is behind the task.
          obtain ⟨rfl, rfl, rfl⟩ := asking_inj hn hp
          have h' := Behind.language h (.short hw hg hr hv)
          have he : (e.withRecords more.emissions).withRecords (d.records l vs).length
              = e.afterWalk (more ++ d.pageEffects l n k a vs).emissions none := by
            rw [TypeReport.withRecords_withRecords, TypeReport.afterWalk, Trace.emissions_append,
              NodeDefinition.emissions_pageEffects]
          dsimp only at hb
          rw [he] at hb
          have := hb.stands h' (by rw [hs, List.append_assoc]; rfl)
          rw [List.append_assoc es, List.append_assoc more] at this
          rw [List.append_assoc more]
          exact this
      | @unfetched l k a p new u hp hr hb =>
          -- The language is behind the task all the same, with a failure.
          obtain ⟨rfl, rfl, rfl⟩ := asking_inj hn hp
          have h' := Behind.language h (.unfetched hw hg hr)
          have he : (e.withRecords more.emissions).withError (d.fetchFailure l n k p).message
              = e.afterWalk (more ++ [Effect.asked (d.pageRequest l n k) a]).emissions
                  (some (d.fetchFailure l n k p)) := by
            rw [TypeReport.afterWalk, Trace.emissions_append]
            rfl
          dsimp only at hb
          rw [he] at hb
          have := hb.stands h' (by rw [hs, List.append_assoc]; rfl)
          rw [List.append_assoc es] at this
          exact this
      | misused hp hr =>
          obtain ⟨rfl, rfl, rfl⟩ := asking_inj hn hp
          rw [List.append_nil]
          exact .crashed h hs hw hg hr
  | closed h => cases hm <;> contradiction
  | cancelled hc h hs hw => cases hm <;> contradiction
  | crashed h hs hw hg hr => cases hm <;> contradiction

/-- A task that is not done can move. -/
theorem Stands.ready (h : Stands site d n es t) (hp : t.isDone = false) : t.Ready d n := by
  cases h with
  | fresh => exact ⟨rfl, fun _ hl => hl, .inl rfl⟩
  | @asking past l ls es more e k a h hs hw hg =>
      have hsub : l :: ls ⊆ d.languages := by
        rw [hs]
        exact List.subset_append_right past (l :: ls)
      refine ⟨rfl, fun x hx => hsub (List.mem_cons_of_mem l hx), .inr ?_⟩
      exact ⟨l, hsub List.mem_cons_self, k, a, rfl⟩
  | closed h => cases hp
  | cancelled hc h hs hw => cases hp
  | crashed h hs hw hg hr => cases hp

theorem Stands.definition_eq (h : Stands site d n es t) : t.definition = d := by
  cases h <;> rfl

/-- **A task stands well after each of its moves.** -/
theorem Stands.move (hd : d.Coherent) (hn : 0 < n) (h : Stands site d n es t) (s : σ) :
    Stands site d n (es ++ t.effects site (.bySize n) s) (t.move site (.bySize n) s).1 := by
  cases hp : t.isDone with
  | true =>
      rw [Task.effects, Task.move_of_isDone _ _ _ _ hp, Task.move_of_isDone _ _ _ _ hp,
        List.append_nil]
      exact h
  | false => exact h.moved hn (move_moved site hd hn (h.ready hp))

end Step

/-! ## What a task does

What can be said of each single effect, whatever came before it. -/

/-- The effects that a task of a type can have. -/
inductive Effect.Of (site : Site σ) (d : NodeDefinition) (n : Nat) : Effect → Prop
  | asked {l : String} {k : Nat} {a : Answer} (hl : l ∈ d.languages)
      (hg : site.Gives (d.pageRequest l n k) a) : Of site d n (.asked (d.pageRequest l n k) a)
  | emitted (r : EntityRecord) : Of site d n (.emitted d r)

section Of

variable {site : Site σ} {d : NodeDefinition} {n : Nat} {t : Task} {es : Trace} {l : String}

/-- The effects of a page are effects of its type. -/
theorem of_pageEffects {k : Nat} {a : Answer} (hl : l ∈ d.languages)
    (hg : site.Gives (d.pageRequest l n k) a) (vs : List Value) :
    ∀ x ∈ d.pageEffects l n k a vs, x.Of site d n := by
  intro x hx
  rcases List.mem_cons.mp hx with rfl | hx
  · exact .asked hl hg
  · obtain ⟨r, -, rfl⟩ := List.mem_map.mp hx
    exact .emitted r

theorem Walking.of {k : Nat} (hl : l ∈ d.languages) (h : Walking site d n l k es) :
    ∀ x ∈ es, x.Of site d n := by
  induction h with
  | begun => exact List.forall_mem_nil _
  | page h hg hr hv ih => exact List.forall_mem_append.mpr ⟨ih, of_pageEffects hl hg _⟩

/-- The effects of a language that is over are effects of its type. -/
theorem Walked.of {f : Option Failure} (hl : l ∈ d.languages) (h : Walked site d n l es f) :
    ∀ x ∈ es, x.Of site d n := by
  cases h with
  | short hw hg hr hv => exact List.forall_mem_append.mpr ⟨hw.of hl, of_pageEffects hl hg _⟩
  | unfetched hw hg hr =>
      exact List.forall_mem_append.mpr ⟨hw.of hl, List.forall_mem_singleton.mpr (.asked hl hg)⟩

/-- The effects of the languages behind a task are effects of its type. -/
theorem Behind.of {past : List String} {e : TypeReport} (hs : past ⊆ d.languages)
    (h : Behind site d n past es e) : ∀ x ∈ es, x.Of site d n := by
  induction h with
  | nothing => exact List.forall_mem_nil _
  | @language past es e l more f h hw ih =>
      have hl : l ∈ d.languages := hs (List.mem_append_right past List.mem_cons_self)
      have hpast : past ⊆ d.languages := fun x hx => hs (List.mem_append_left [l] hx)
      exact List.forall_mem_append.mpr ⟨ih hpast, hw.of hl⟩

/-- A task hands over records of its type only, and asks for its own pages only. -/
theorem Stands.of (h : Stands site d n es t) : ∀ x ∈ es, x.Of site d n := by
  have split {past : List String} {l : String} {ls : List String}
      (hs : d.languages = past ++ l :: ls) : past ⊆ d.languages ∧ l ∈ d.languages := by
    rw [hs]
    exact ⟨List.subset_append_left past _, List.mem_append_right past List.mem_cons_self⟩
  cases h with
  | fresh => exact List.forall_mem_nil _
  | asking h hs hw hg =>
      obtain ⟨hpast, hl⟩ := split hs
      exact List.forall_mem_append.mpr ⟨h.of hpast, List.forall_mem_append.mpr
        ⟨hw.of hl, List.forall_mem_singleton.mpr (.asked hl hg)⟩⟩
  | closed h => exact h.of (List.Subset.refl _)
  | cancelled hc h hs hw =>
      obtain ⟨hpast, hl⟩ := split hs
      exact List.forall_mem_append.mpr ⟨h.of hpast, hw.of hl⟩
  | crashed h hs hw hg hr =>
      obtain ⟨hpast, hl⟩ := split hs
      exact List.forall_mem_append.mpr ⟨h.of hpast, List.forall_mem_append.mpr
        ⟨hw.of hl, List.forall_mem_singleton.mpr (.asked hl hg)⟩⟩

/-- Records handed over are counted by the type that they are of. -/
theorem Trace.emissions_eq (h : ∀ x ∈ es, x.Of site d n) :
    es.emissions = (es.received d.typeName).length := by
  induction es with
  | nil => rfl
  | cons x es ih =>
      have ih := ih fun y hy => h y (List.mem_cons_of_mem x hy)
      cases h x List.mem_cons_self with
      | asked => exact ih
      | emitted r =>
          have hr : Effect.record? d.typeName (.emitted d r) = some r := if_pos rfl
          rw [emissions, List.countP_cons_of_pos rfl, received, List.filterMap_cons_some hr,
            List.length_cons]
          exact congrArg (· + 1) ih

end Of

end Harvest
