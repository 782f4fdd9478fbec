import Harvest.Proofs.Sourcing.Trace

/-!
# Moves

Between two requests a task does not pause. `Task.move` brings it from one request to the next one or
to its end, and `Task.effects` is what it does on the way. The equations of this module say all that a
move can do, case by case; later proofs use them and do not look into the definitions.

There are three layers. A turn of a walk finishes, fails, or asks for a page. Following a walk turns this
into the phase of the task: at rest between two languages, at its end, or waiting for an answer. A move
begins the languages that are left until one of them asks, so that after a move a task is at rest never
(`Task.move_isUnderway`).

The last section compares the plain site with the traced one. Tracing adds to a list what is done, and
nothing else changes: `Task.move_traced` is what allows all later results to speak of traces.
-/

namespace Harvest

variable {σ : Type}

/-! ## Turns of a walk

Three cases: no page is left, the run was cancelled, or a page is asked for. -/

namespace Walk

variable {w : Walk}

theorem turn_finished (h : w.state.hasNext = false) (cancelled : Bool) :
    w.turn cancelled = .finished := by
  simp [turn, h]

theorem turn_cancelled (h : w.state.hasNext = true) :
    w.turn true = .failed (.cancelled w.document.typeName w.language) := by
  simp [turn, h]

/-- A walk that is cancelled asks for nothing. -/
theorem turn_true_ne_ask (w : Walk) (r : Request) : w.turn true ≠ .ask r := by
  cases h : w.state.hasNext with
  | false => simp [turn, h]
  | true => simp [turn, h]

theorem turn_ask {r : Request} (h : w.state.hasNext = true) (hr : w.request = .ok r) :
    w.turn false = .ask r := by
  simp [turn, h, hr]

theorem turn_stuck {f : Fault} (h : w.state.hasNext = true) (hr : w.request = .error f) :
    w.turn false = .failed (.fault f) := by
  simp [turn, h, hr]

end Walk

namespace Task

/-! ## Following a walk

The four turns again, as what they do to the task. -/

/-- The task after it was told to go no further. -/
def stopped (t : Task) : Task :=
  { t with entry := { t.entry with status := .cancelled }, phase := .ended }

/-- Whether a task asks or is done. -/
def IsUnderway (t : Task) : Prop := t.isAsking = !t.isDone

theorem IsUnderway.ne_between {t : Task} (h : t.IsUnderway) : t.phase ≠ .between := by
  intro hp
  rw [IsUnderway, isAsking, isDone, hp] at h
  cases h

/-- A task that is done ended or crashed. -/
theorem ended_or_crashed {t : Task} (h : t.isDone = true) :
    t.phase = .ended ∨ ∃ e, t.phase = .crashed e := by
  unfold isDone at h
  split at h
  next he => exact .inl he
  next e he => exact .inr ⟨e, he⟩
  next => cases h

/-- A task that is not done, and does not rest between two languages, has not begun or asks. -/
theorem waiting_or_asking {t : Task} (hd : t.isDone = false) (hb : t.phase ≠ .between) :
    t.phase = .waiting ∨ ∃ w a, t.phase = .asking w a := by
  cases hp : t.phase with
  | waiting => exact .inl rfl
  | between => exact absurd hp hb
  | asking w a => exact .inr ⟨w, a, rfl⟩
  | ended =>
      rw [isDone, hp] at hd
      cases hd
  | crashed e =>
      rw [isDone, hp] at hd
      cases hd

/-- Where a task stood before does not matter to how it concludes a walk. -/
theorem conclude_phase (t : Task) (phase : Phase) (r : Except Failure Unit) :
    conclude { t with phase } r = t.conclude r := by
  cases r with
  | ok _ => rfl
  | error e => cases e <;> rfl

/-- After a walk a task is between two languages, or done. -/
theorem conclude_between_or_isUnderway (t : Task) (r : Except Failure Unit) :
    (t.conclude r).phase = .between ∨ (t.conclude r).IsUnderway := by
  cases r with
  | ok _ => exact .inl rfl
  | error e => cases e <;> first | exact .inl rfl | exact .inr rfl

section Follow

variable {site : Site σ} {t : Task} {w : Walk} {s : σ}

/-! ### What following does

One lemma for each turn that a walk can take, and then what they have in common. -/

theorem follow_finished (h : w.state.hasNext = false) :
    follow site t w s = ({ t with phase := .between }, s) := by
  rw [follow, Walk.turn_finished h]
  rfl

theorem follow_cancelled (h : w.state.hasNext = true) (hc : site.cancelled s = true) :
    follow site t w s = (t.stopped, s) := by
  rw [follow, hc, Walk.turn_cancelled h]
  rfl

/-- A task that asks waits for the answer. -/
theorem follow_ask {r : Request} (h : w.state.hasNext = true) (hc : site.cancelled s = false)
    (hr : w.request = .ok r) :
    follow site t w s = ({ t with phase := .asking w (site.ask r s).1 }, (site.ask r s).2) := by
  rw [follow, hc, Walk.turn_ask h hr]
  rfl

theorem follow_stuck {f : Fault} (h : w.state.hasNext = true) (hc : site.cancelled s = false)
    (hr : w.request = .error f) :
    follow site t w s = ({ t with phase := .crashed (.fault f) }, s) := by
  rw [follow, hc, Walk.turn_stuck h hr]
  rfl

/-- A walk with a page to come ends neither before that page nor without notice. -/
theorem follow_isUnderway (h : w.state.hasNext = true) : (follow site t w s).1.IsUnderway := by
  cases hc : site.cancelled s with
  | true =>
      rw [follow_cancelled h hc]
      rfl
  | false =>
      cases hr : w.request with
      | ok r =>
          rw [follow_ask h hc hr]
          rfl
      | error f =>
          rw [follow_stuck h hc hr]
          rfl

theorem follow_ne_between (h : w.state.hasNext = true) :
    (follow site t w s).1.phase ≠ .between := (follow_isUnderway h).ne_between

theorem follow_phase (phase : Phase) :
    follow site { t with phase } w s = follow site t w s := by
  unfold follow
  split
  · rw [conclude_phase]
  · rw [conclude_phase]
  · rfl

/-- After a walk was followed the task rests, asks, or is done. -/
theorem follow_between_or_isUnderway :
    (follow site t w s).1.phase = .between ∨ (follow site t w s).1.IsUnderway := by
  unfold follow
  split
  · exact conclude_between_or_isUnderway t _
  · exact conclude_between_or_isUnderway t _
  · exact .inr rfl

end Follow

/-! ## Beginning and resuming

A task begins its languages one after the other, and resumes its walk with an answer. -/

section Resume

variable (site : Site σ) (paging : PagingStrategy) (t : Task) (s : σ)

theorem beginWalk_phase (phase : Phase) (l : String) :
    beginWalk site paging { t with phase } l s = beginWalk site paging t l s := by
  unfold beginWalk
  dsimp only
  split
  · exact follow_phase phase
  · rw [conclude_phase]

/-- A language begins with a request, or it is over at once. -/
theorem beginWalk_between_or_isUnderway (l : String) :
    (beginWalk site paging t l s).1.phase = .between
      ∨ (beginWalk site paging t l s).1.IsUnderway := by
  unfold beginWalk
  split
  · exact follow_between_or_isUnderway
  · exact conclude_between_or_isUnderway t _

/-- Languages that are over at once are left behind. -/
theorem beginLanguages_between {l : String} {ls : List String}
    (h : (beginWalk site paging { t with languages := ls } l s).1.phase = .between) :
    beginLanguages site paging t (l :: ls) s
      = beginLanguages site paging (beginWalk site paging { t with languages := ls } l s).1 ls
          (beginWalk site paging { t with languages := ls } l s).2 := by
  rw [beginLanguages]
  dsimp only
  rw [h]

/-- The first language that is not over at once is begun. -/
theorem beginLanguages_underway {l : String} {ls : List String}
    (h : (beginWalk site paging { t with languages := ls } l s).1.phase ≠ .between) :
    beginLanguages site paging t (l :: ls) s
      = beginWalk site paging { t with languages := ls } l s := by
  rw [beginLanguages]
  dsimp only
  split
  next he => exact absurd he h
  next => rfl

/-- By limit and offset a task begins the first of its languages: no walk ends before its first
request. -/
theorem beginLanguages_cons (n : Int) (l : String) (ls : List String) :
    beginLanguages site (.bySize n) t (l :: ls) s
      = follow site { t with languages := ls } (Walk.start t.definition.document l ⟨.int n⟩) s :=
  beginLanguages_underway site (.bySize n) t s (follow_ne_between rfl)

/-- Where a task stood before does not matter to the languages that it begins. -/
theorem beginLanguages_phase (phase : Phase) (ls : List String) :
    beginLanguages site paging { t with phase } ls s = beginLanguages site paging t ls s := by
  cases ls with
  | nil => rfl
  | cons l ls =>
      have hwalk := beginWalk_phase site paging { t with languages := ls } s phase l
      dsimp only at hwalk
      rw [beginLanguages, beginLanguages, hwalk]

/-! ### After an answer

An answer ends a walk or lets it go on, and after the end of a walk the languages that are left begin. -/

/-- Begins the languages that are left, if a walk is over. -/
def goOn (x : Task × σ) : Task × σ :=
  match x.1.phase with
  | .between => beginLanguages site paging x.1 x.1.languages x.2
  | _ => x

variable {site paging} in
theorem goOn_between {x : Task × σ} (h : x.1.phase = .between) :
    goOn site paging x = beginLanguages site paging x.1 x.1.languages x.2 := by
  rw [goOn, h]

variable {site paging} in
/-- A task that asks or is done is left as it is. -/
theorem goOn_of_ne {x : Task × σ} (h : x.1.phase ≠ .between) : goOn site paging x = x := by
  unfold goOn
  split
  next he => exact absurd he h
  next => rfl

variable {t s} {w : Walk} {a : Answer} {rs : List EntityRecord}

/-- The records of an answer come first, then the walk is followed. -/
theorem resume_ok {next : Walk} (h : w.receive a = (rs, .ok next)) :
    t.resume site paging w a s
      = goOn site paging (follow site { t with entry := t.entry.withRecords rs.length } next
          (site.emitAll t.definition rs s)) := by
  rw [resume, h]
  rfl

/-- An answer that no page can be made of ends its walk. -/
theorem resume_error {e : Failure} (h : w.receive a = (rs, .error e)) :
    t.resume site paging w a s
      = goOn site paging (conclude { t with entry := t.entry.withRecords rs.length } (.error e),
          site.emitAll t.definition rs s) := by
  rw [resume, h]
  rfl

/-- After a full page the walk goes on. -/
theorem resume_full {next : Walk} (h : w.receive a = (rs, .ok next))
    (hn : next.state.hasNext = true) :
    t.resume site paging w a s
      = follow site { t with entry := t.entry.withRecords rs.length } next
          (site.emitAll t.definition rs s) := by
  rw [resume_ok site paging h]
  exact goOn_of_ne (follow_ne_between hn)

/-- After the last page of a language the next one begins. -/
theorem resume_last {next : Walk} (h : w.receive a = (rs, .ok next))
    (hn : next.state.hasNext = false) :
    t.resume site paging w a s
      = beginLanguages site paging { t with entry := t.entry.withRecords rs.length } t.languages
          (site.emitAll t.definition rs s) := by
  rw [resume_ok site paging h, follow_finished hn]
  exact beginLanguages_phase site paging _ _ .between t.languages

/-- A page that was not fetched ends its language only. -/
theorem resume_unfetched {typeName language : String} {vs : Members} {p : FetchProblem}
    (h : w.receive a = (rs, .error (.fetch typeName language vs p))) :
    t.resume site paging w a s
      = beginLanguages site paging
          { t with
            entry := (t.entry.withRecords rs.length).withError
              (Failure.fetch typeName language vs p).message }
          t.languages (site.emitAll t.definition rs s) := by
  rw [resume_error site paging h]
  exact beginLanguages_phase site paging
    { t with
      entry := (t.entry.withRecords rs.length).withError
        (Failure.fetch typeName language vs p).message }
    (site.emitAll t.definition rs s) .between t.languages

/-- A page that is not what it should be ends the task. -/
theorem resume_fault {f : Fault} (h : w.receive a = (rs, .error (.fault f))) :
    t.resume site paging w a s
      = ({ t with entry := t.entry.withRecords rs.length, phase := .crashed (.fault f) },
          site.emitAll t.definition rs s) := by
  rw [resume_error site paging h]
  rfl

end Resume

/-! ## Moves

A move is a beginning, a resumption, or nothing, by the phase of the task. -/

/-- Moves a task to its next request or to its end. -/
def move (site : Site σ) (paging : PagingStrategy) (t : Task) (s : σ) : Task × σ :=
  match t.phase with
  | .waiting => t.start site paging s
  | .asking w a => t.resume site paging w a s
  | _ => (t, s)

/-- What a task does when it moves. -/
def effects (site : Site σ) (paging : PagingStrategy) (t : Task) (s : σ) : Trace :=
  (t.move site.traced paging (s, [])).2.2

section Move

variable (site : Site σ) (paging : PagingStrategy) (t : Task) (s : σ)

theorem move_of_isDone (h : t.isDone = true) : t.move site paging s = (t, s) := by
  rcases ended_or_crashed h with hp | ⟨e, hp⟩
  · rw [move, hp]
  · rw [move, hp]

/-- Once all languages have been begun, the task asks or is done. -/
theorem beginLanguages_isUnderway (ls : List String) :
    (beginLanguages site paging t ls s).1.IsUnderway := by
  induction ls generalizing t s with
  | nil => rfl
  | cons l ls ih =>
      rcases beginWalk_between_or_isUnderway site paging { t with languages := ls } s l with h | h
      · rw [beginLanguages_between site paging t s h]
        exact ih _ _
      · rw [beginLanguages_underway site paging t s h.ne_between]
        exact h

/-- Going on brings a task at rest to a request or to its end. -/
theorem goOn_isUnderway {x : Task × σ} (h : x.1.phase = .between ∨ x.1.IsUnderway) :
    (goOn site paging x).1.IsUnderway := by
  by_cases hb : x.1.phase = .between
  · rw [goOn_between hb]
    exact beginLanguages_isUnderway site paging x.1 x.2 x.1.languages
  · rw [goOn_of_ne hb]
    exact h.resolve_left hb

/-- With an answer a task comes to its next request or to its end. -/
theorem resume_isUnderway (w : Walk) (a : Answer) :
    (t.resume site paging w a s).1.IsUnderway := by
  obtain ⟨⟨rs, after⟩, hr⟩ : ∃ x, w.receive a = x := ⟨_, rfl⟩
  cases after with
  | ok next =>
      rw [resume_ok site paging hr]
      exact goOn_isUnderway site paging follow_between_or_isUnderway
  | error e =>
      rw [resume_error site paging hr]
      exact goOn_isUnderway site paging (conclude_between_or_isUnderway _ _)

/-- **A task that moves comes to its next request or to its end.** -/
theorem move_isUnderway (hd : t.isDone = false) (hb : t.phase ≠ .between) :
    (t.move site paging s).1.IsUnderway := by
  rcases waiting_or_asking hd hb with hp | ⟨w, a, hp⟩
  · rw [move, hp]
    exact beginLanguages_isUnderway site paging t s t.languages
  · rw [move, hp]
    exact resume_isUnderway site paging t s w a

end Move

/-! ## Moves on a traced site

The traced site has a list of effects beside the state of the plain one. Each step is compared with the step
of the plain site in the same state. -/

section Traced

variable (site : Site σ) (paging : PagingStrategy) (t : Task) (s : σ)

/-- A step does on the traced site what it does on the plain one, and adds to the list of effects
something that does not depend on the list. -/
def Adds (traced : σ × Trace → Task × (σ × Trace)) (plain : σ → Task × σ) (s : σ) : Prop :=
  ∃ es, ∀ log, traced (s, log) = ((plain s).1, ((plain s).2, log ++ es))

theorem adds_nothing : Adds (fun x => (t, x)) (fun s => (t, s)) s :=
  ⟨[], fun log => by rw [List.append_nil]⟩

/-- Following a walk does no more than to look whether the run is cancelled. -/
theorem follow_traced (w : Walk) : Adds (follow site.traced t w) (follow site t w) s := by
  cases h : w.state.hasNext with
  | false =>
      refine ⟨[], ?_⟩
      intro log
      rw [follow_finished h, follow_finished h, List.append_nil]
  | true =>
      cases hc : site.cancelled s with
      | true =>
          refine ⟨[], ?_⟩
          intro log
          have hc' : site.traced.cancelled (s, log) = true := hc
          rw [follow_cancelled h hc, follow_cancelled h hc', List.append_nil]
      | false =>
          have hc' (log : Trace) : site.traced.cancelled (s, log) = false := hc
          cases hr : w.request with
          | error f =>
              refine ⟨[], ?_⟩
              intro log
              rw [follow_stuck h hc hr, follow_stuck h (hc' log) hr, List.append_nil]
          | ok r =>
              refine ⟨[.asked r (site.ask r s).1], ?_⟩
              intro log
              rw [follow_ask h hc hr, follow_ask h (hc' log) hr]
              rfl

theorem beginWalk_traced (l : String) :
    Adds (beginWalk site.traced paging t l) (beginWalk site paging t l) s := by
  unfold beginWalk
  split
  next w _ => exact follow_traced site t s w
  next e _ => exact adds_nothing (t.conclude (.error e)) s

/-- Languages are begun alike on both sites. -/
theorem beginLanguages_traced (ls : List String) :
    Adds (beginLanguages site.traced paging t ls) (beginLanguages site paging t ls) s := by
  induction ls generalizing t s with
  | nil => exact adds_nothing t.close s
  | cons l ls ih =>
      obtain ⟨es, h⟩ := beginWalk_traced site paging { t with languages := ls } s l
      have hphase (log : Trace) :
          (beginWalk site.traced paging { t with languages := ls } l (s, log)).1
            = (beginWalk site paging { t with languages := ls } l s).1 := by
        rw [h]
      by_cases hb : (beginWalk site paging { t with languages := ls } l s).1.phase = .between
      · obtain ⟨more, hmore⟩ := ih (beginWalk site paging { t with languages := ls } l s).1
          (beginWalk site paging { t with languages := ls } l s).2
        refine ⟨es ++ more, ?_⟩
        intro log
        rw [beginLanguages_between site paging t s hb,
          beginLanguages_between site.traced paging t (s, log) (by rw [hphase]; exact hb), h, hmore,
          List.append_assoc]
      · refine ⟨es, ?_⟩
        intro log
        rw [beginLanguages_underway site paging t s hb,
          beginLanguages_underway site.traced paging t (s, log) (by rw [hphase]; exact hb), h]

/-- Both sites decide alike whether languages begin, since tracing does not change the task. -/
theorem goOn_traced {traced : σ × Trace → Task × (σ × Trace)} {plain : σ → Task × σ}
    (h : Adds traced plain s) :
    Adds (fun x => goOn site.traced paging (traced x)) (fun s => goOn site paging (plain s)) s := by
  obtain ⟨es, h⟩ := h
  have hphase (log : Trace) : (traced (s, log)).1.phase = (plain s).1.phase := by rw [h]
  by_cases hp : (plain s).1.phase = .between
  · obtain ⟨more, hb⟩ := beginLanguages_traced site paging (plain s).1 (plain s).2
      (plain s).1.languages
    refine ⟨es ++ more, ?_⟩
    intro log
    dsimp only
    rw [goOn_between hp, goOn_between ((hphase log).trans hp), h, hb, List.append_assoc]
  · refine ⟨es, ?_⟩
    intro log
    dsimp only
    rw [goOn_of_ne hp, goOn_of_ne (hphase log ▸ hp), h]

/-- The records of an answer are added to the list as they are handed over. -/
theorem resume_traced (w : Walk) (a : Answer) :
    Adds (t.resume site.traced paging w a) (t.resume site paging w a) s := by
  obtain ⟨⟨rs, after⟩, hr⟩ : ∃ x, w.receive a = x := ⟨_, rfl⟩
  cases after with
  | ok next =>
      -- The records come first, then what going on with the walk adds.
      obtain ⟨es, h⟩ := goOn_traced site paging _ (follow_traced site
        { t with entry := t.entry.withRecords rs.length } (site.emitAll t.definition rs s) next)
      refine ⟨rs.map (.emitted t.definition) ++ es, ?_⟩
      intro log
      rw [resume_ok _ paging hr, resume_ok _ paging hr, Site.emitAll_traced, ← List.append_assoc]
      exact h _
  | error e =>
      obtain ⟨es, h⟩ := goOn_traced site paging _ (adds_nothing
        ({ t with entry := t.entry.withRecords rs.length }.conclude (.error e))
        (site.emitAll t.definition rs s))
      refine ⟨rs.map (.emitted t.definition) ++ es, ?_⟩
      intro log
      rw [resume_error _ paging hr, resume_error _ paging hr, Site.emitAll_traced,
        ← List.append_assoc]
      exact h _

/-- Tracing a move changes neither the task nor the world. -/
theorem move_traced (log : Trace) :
    t.move site.traced paging (s, log)
      = ((t.move site paging s).1, ((t.move site paging s).2, log ++ t.effects site paging s)) := by
  have h : Adds (t.move site.traced paging) (t.move site paging) s := by
    unfold move
    split
    next => exact beginLanguages_traced site paging t s t.languages
    next w a _ => exact resume_traced site paging t s w a
    next => exact adds_nothing t s
  obtain ⟨es, h⟩ := h
  rw [effects, h, h, List.nil_append]

end Traced

end Task

end Harvest
