import Harvest.Proofs.Entity.NodeIds
import Harvest.Proofs.Plan.Alignment
import Harvest.Proofs.Sourcing.Ending

/-!
# The order of effects

A run asks for the schema before it does anything else, and does nothing at all if its order is refused.
Unless a plan comes of it, nothing more is asked for and the receiver is left alone. With a plan, every
type is announced once, in the order of the plan, and only then do its tasks send their requests and
hand over records.

`Task.acts_move` says what one move of a task does, and `Run.OnTrack.acts` draws from it what moves in any
order do. `Sourcing.run_inSequence` puts this behind what is done while the plan is made.

Only two kinds of effects are made by tasks, requests for pages and records, and both name their type
(`Effect.Serves`). That a task stays with its type is kept by each of the functions that `Task.move` is made
of, so this part is a list of lemmas `acts_`, one for each of them, in the order in which they call each
other.

What comes before the tasks is treated in two pieces, making the plan and announcing its types. Each of them
adds a list of effects that is known outright (`Plan.prepare_traced`, `Plan.Carries`).

`Sourcing.Reaches` holds of every world that a run can come to, so that the result is about runs that are cut
short by their pace as well as about those that end.
-/

namespace Harvest

open GraphQL

variable {σ : Type}

/-! ## What a task does

A walk goes through the pages of a type, a task through walks of a type, and each effect is for that type. -/

/-- Whether an effect is one that the task of a type has: the task asks for a page of the type, or hands
over a record of it. -/
inductive Effect.Serves (d : NodeDefinition) : Effect → Prop
  | asked {r : Request} {a : Answer} (h : r.IsOf d) : Serves d (.asked r a)
  | emitted {r : EntityRecord} (htype : r.typeName = d.typeName)
      (hown : r.typename = .str d.typeName) : Serves d (.emitted d r)

/-- Whether a walk goes through the pages of a type. -/
structure Walk.IsOn (w : Walk) (d : NodeDefinition) : Prop where
  document_eq : w.document = d.document
  language_mem : w.language ∈ d.languages

namespace Walk.IsOn

variable {w : Walk} {d : NodeDefinition} {a : Answer}

/-! ### Walks

A walk keeps to the document, the language and the type that it began with. -/

theorem of_begin {l : String} {paging : PagingStrategy} (hl : l ∈ d.languages)
    (h : Walk.begin d.document l paging = .ok w) : w.IsOn d := by
  unfold Walk.begin at h
  split at h
  next =>
    cases h
    exact ⟨rfl, hl⟩
  next => cases h

/-- The requests of a walk are requests of its type. -/
theorem isOf_of_turn (hw : w.IsOn d) {cancelled : Bool} {r : Request} (h : w.turn cancelled = .ask r) :
    r.IsOf d := by
  unfold turn at h
  split at h
  next => cases h
  next =>
    split at h
    next => cases h
    next =>
      split at h
      next r' hr =>
        cases h
        unfold request at hr
        split at hr
        next => cases hr
        next name hname =>
          cases hr
          rw [hw.document_eq] at hname ⊢
          exact ⟨rfl, w.language, hw.language_mem, hname.symm⟩
      next => cases h

/-- A walk that goes on is one through the same pages. -/
theorem of_advance (hw : w.IsOn d) {page : Value} {w' : Walk} (h : w.advance page = .ok w') :
    w'.IsOn d := by
  unfold advance at h
  split at h
  next =>
    cases h
    exact ⟨hw.document_eq, hw.language_mem⟩
  next => cases h

/-- The records of a walk are of its type. -/
theorem serves_of_record? (hw : w.IsOn d) (hd : d.document.typeName = d.typeName) {item : Value}
    {r : EntityRecord} (h : w.record? item = some r) : Effect.Serves d (.emitted d r) := by
  have hof : r.IsOf w.document.typeName := EntityRecord.isOf_of_record? h
  rw [hw.document_eq, hd] at hof
  exact .emitted hof.kept hof.given

/-- An answer brings records of the type, and a walk that goes on through its pages. -/
theorem of_receive (hw : w.IsOn d) (hd : d.document.typeName = d.typeName) :
    (∀ r ∈ (w.receive a).1, Effect.Serves d (.emitted d r))
      ∧ ∀ w', (w.receive a).2 = .ok w' → w'.IsOn d := by
  unfold receive
  split
  next =>
    refine ⟨List.forall_mem_nil _, fun w' hw' => ?_⟩
    cases hw'
  next page =>
    split
    next =>
      refine ⟨List.forall_mem_nil _, fun w' hw' => ?_⟩
      cases hw'
    next items _ =>
      refine ⟨fun r hr => ?_, fun w' hw' => hw.of_advance hw'⟩
      obtain ⟨item, -, hitem⟩ := List.mem_filterMap.mp hr
      exact hw.serves_of_record? hd hitem

end Walk.IsOn

namespace Task

/-- Whether a task walks through the pages of a type, now and in the languages to come. -/
structure IsOn (t : Task) (d : NodeDefinition) : Prop where
  definition_eq : t.definition = d
  languages_mem : ∀ l ∈ t.languages, l ∈ d.languages
  walk : ∀ w a, t.phase = .asking w a → w.IsOn d

/-- Whether a step leaves a task on its type, and all that it has added to the list of effects is done
for the type. -/
def Acts (d : NodeDefinition) (log : Trace) (x : Task × (σ × Trace)) : Prop :=
  x.1.IsOn d ∧ ∃ es, x.2.2 = log ++ es ∧ ∀ e ∈ es, e.Serves d

namespace IsOn

variable {d : NodeDefinition} {t : Task}

/-! ### Steps of a task

One lemma for each step, from following a walk to a whole move. Each says what the step adds to the list of
effects, and that the task is on its type after it. -/

theorem fresh (d : NodeDefinition) : (Task.fresh d).IsOn d where
  definition_eq := rfl
  languages_mem _ hl := hl
  walk _ _ hp := nomatch hp

theorem close (ht : t.IsOn d) : t.close.IsOn d where
  definition_eq := ht.definition_eq
  languages_mem := ht.languages_mem
  walk _ _ hp := nomatch hp

/-- After a walk a task is on its type as before, and asks for nothing. -/
theorem conclude (ht : t.IsOn d) (r : Except Failure Unit) : (t.conclude r).IsOn d := by
  obtain ⟨hd, hls, -⟩ := ht
  cases r with
  | ok _ => exact ⟨hd, hls, fun _ _ hp => nomatch hp⟩
  | error e => cases e <;> exact ⟨hd, hls, fun _ _ hp => nomatch hp⟩

theorem withEntry (ht : t.IsOn d) (entry : TypeReport) : ({ t with entry } : Task).IsOn d where
  definition_eq := ht.definition_eq
  languages_mem := ht.languages_mem
  walk := ht.walk

theorem withLanguages (ht : t.IsOn d) {languages : List String} (h : ∀ l ∈ languages, l ∈ d.languages) :
    ({ t with languages } : Task).IsOn d where
  definition_eq := ht.definition_eq
  languages_mem := h
  walk := ht.walk

end IsOn

variable {site : Site σ} {paging : PagingStrategy} {d : NodeDefinition} {t : Task} {w : Walk}
  {a : Answer} {s : σ} {log : Trace}

theorem acts_nothing (ht : t.IsOn d) : Acts d log (t, (s, log)) :=
  ⟨ht, [], (List.append_nil log).symm, List.forall_mem_nil _⟩

/-- What was done before counts as well, if it was done for the type. -/
theorem Acts.after {es : Trace} {x : Task × (σ × Trace)} (h : Acts d (log ++ es) x)
    (hes : ∀ e ∈ es, e.Serves d) : Acts d log x := by
  obtain ⟨ht, more, hlog, hmore⟩ := h
  refine ⟨ht, es ++ more, ?_, List.forall_mem_append.mpr ⟨hes, hmore⟩⟩
  rw [hlog, List.append_assoc]

/-- Following a walk does nothing but look whether the run is cancelled. -/
theorem acts_follow (ht : t.IsOn d) (hw : w.IsOn d) : Acts d log (follow site.traced t w (s, log)) := by
  unfold follow
  split
  next => exact acts_nothing (ht.conclude _)
  next => exact acts_nothing (ht.conclude _)
  next r hr =>
    refine ⟨⟨ht.definition_eq, ht.languages_mem, ?_⟩, [.asked r (site.ask r s).1], rfl, ?_⟩
    · rintro w' a ⟨⟩
      exact hw
    · exact List.forall_mem_singleton.mpr (.asked (hw.isOf_of_turn hr))

/-- A walk begins in one of the languages of the type. -/
theorem acts_beginWalk (ht : t.IsOn d) {l : String} (hl : l ∈ d.languages) :
    Acts d log (beginWalk site.traced paging t l (s, log)) := by
  unfold beginWalk
  split
  next w hw =>
    rw [ht.definition_eq] at hw
    exact acts_follow ht (.of_begin hl hw)
  next => exact acts_nothing (ht.conclude _)

/-- The languages that are left are languages of the type. -/
theorem acts_beginLanguages (ht : t.IsOn d) {ls : List String} (hls : ∀ l ∈ ls, l ∈ d.languages) :
    Acts d log (beginLanguages site.traced paging t ls (s, log)) := by
  induction ls generalizing t s log with
  | nil => exact acts_nothing ht.close
  | cons l ls ih =>
      obtain ⟨hl, hls⟩ := List.forall_mem_cons.mp hls
      have hwalk : Acts d log (beginWalk site.traced paging { t with languages := ls } l (s, log)) :=
        acts_beginWalk (ht.withLanguages hls) hl
      by_cases hb :
        (beginWalk site.traced paging { t with languages := ls } l (s, log)).1.phase = .between
      · rw [beginLanguages_between site.traced paging t (s, log) hb]
        obtain ⟨hu, es, hlog, hes⟩ := hwalk
        generalize beginWalk site.traced paging { t with languages := ls } l (s, log) = x at hu hlog
        obtain ⟨u, s', log'⟩ := x
        subst hlog
        exact (ih hu hls).after hes
      · rw [beginLanguages_underway site.traced paging t (s, log) hb]
        exact hwalk

/-- Whatever becomes of a walk, the languages that are left begin if it is over. -/
theorem acts_goOn {x : Task × (σ × Trace)} (h : Acts d log x) :
    Acts d log (goOn site.traced paging x) := by
  by_cases hb : x.1.phase = .between
  · obtain ⟨u, s, log⟩ := x
    obtain ⟨hu, es, rfl, hes⟩ := h
    rw [goOn_between hb]
    exact (acts_beginLanguages hu hu.languages_mem).after hes
  · rw [goOn_of_ne hb]
    exact h

/-- With an answer come records of the type. -/
theorem acts_resume (ht : t.IsOn d) (hd : d.document.typeName = d.typeName) (hw : w.IsOn d) :
    Acts d log (t.resume site.traced paging w a (s, log)) := by
  obtain ⟨hrecords, hnext⟩ := hw.of_receive (a := a) hd
  obtain ⟨⟨rs, after⟩, hr⟩ : ∃ x, w.receive a = x := ⟨_, rfl⟩
  rw [hr] at hrecords hnext
  -- The records come first, then what going on with the walk adds.
  have hes : ∀ e ∈ rs.map (Effect.emitted t.definition), e.Serves d := by
    rw [ht.definition_eq]
    exact List.forall_mem_map.mpr hrecords
  cases after with
  | ok next =>
      rw [resume_ok _ paging hr, Site.emitAll_traced]
      exact (acts_goOn (acts_follow (ht.withEntry _) (hnext next rfl))).after hes
  | error e =>
      rw [resume_error _ paging hr, Site.emitAll_traced]
      exact (acts_goOn (acts_nothing ((ht.withEntry _).conclude _))).after hes

/-- **All that a task does is done for its type**, and it stays on it. -/
theorem acts_move (site : Site σ) (paging : PagingStrategy) (ht : t.IsOn d)
    (hd : d.document.typeName = d.typeName) (s : σ) (log : Trace) :
    Acts d log (t.move site.traced paging (s, log)) := by
  unfold move
  split
  next => exact acts_beginLanguages ht ht.languages_mem
  next w a hp => exact acts_resume ht hd (ht.walk w a hp)
  next => exact acts_nothing ht

end Task

/-! ## What the tasks of a run do

The same for all tasks at once, and after any number of moves. -/

/-- Whether the tasks of a run are on some types, and all that was added to a list of effects is done for
one of them. -/
def Run.OnTrack (ds : List NodeDefinition) (log : Trace) (r : Run (σ × Trace)) : Prop :=
  (∀ t ∈ r.tasks, ∃ d ∈ ds, t.IsOn d)
    ∧ ∃ es, r.world.2 = log ++ es ∧ ∀ x ∈ es, ∃ d ∈ ds, x.Serves d

namespace Run.OnTrack

variable (site : Site σ) (paging : PagingStrategy) {ds : List NodeDefinition} {log : Trace}
  {r : Run (σ × Trace)}

theorem start (ds : List NodeDefinition) (permits : Nat) (s : σ) (log : Trace) :
    OnTrack ds log (.start ds permits (s, log)) := by
  refine ⟨List.forall_mem_map.mpr fun d hd => ⟨d, hd, .fresh d⟩, [], ?_, List.forall_mem_nil _⟩
  exact (List.append_nil log).symm

/-- After a move of one task all are on their types still. -/
theorem act (hds : ∀ d ∈ ds, d.document.typeName = d.typeName) (h : r.OnTrack ds log) (i : Nat) :
    (r.act site.traced paging i).OnTrack ds log := by
  by_cases hm : r.Movable i
  · obtain ⟨t, free, hti, -, -, he⟩ := act_of_movable site.traced paging hm
    obtain ⟨htasks, es, hlog, hes⟩ := h
    obtain ⟨d, hd, ht⟩ := htasks t (List.mem_of_getElem? hti)
    obtain ⟨hu, more, hmore, hserves⟩ := Task.acts_move site paging ht (hds d hd) r.world.1 r.world.2
    rw [he]
    refine ⟨fun u hmem => ?_, es ++ more, ?_, List.forall_mem_append.mpr ⟨hes, fun x hx => ?_⟩⟩
    · rcases List.mem_or_eq_of_mem_set hmem with hmem | rfl
      · exact htasks u hmem
      · exact ⟨d, hd, hu⟩
    · rw [← List.append_assoc, ← hlog]
      exact hmore
    · exact ⟨d, hd, hserves x hx⟩
  · rw [act_of_not_movable site.traced paging hm]
    exact h

/-- **All that tasks do is done for their types**, in whatever order they move. -/
theorem acts (hds : ∀ d ∈ ds, d.document.typeName = d.typeName) (h : r.OnTrack ds log)
    (order : List Nat) : (r.acts site.traced paging order).OnTrack ds log := by
  induction order generalizing r with
  | nil => exact h
  | cons i order ih => exact ih (h.act site paging hds i)

end Run.OnTrack

/-- An agenda moves tasks, in some order and as far as its fuel lets it. -/
theorem Agenda.run_acts (site : Site σ) (paging : PagingStrategy) (suspends : Bool) (fuel : Nat)
    (a : Agenda) (r : Run σ) :
    ∃ order, (Agenda.run site paging suspends fuel a r).2.2 = r.acts site paging order := by
  induction fuel generalizing a r with
  | zero => exact ⟨[], rfl⟩
  | succ fuel ih =>
      rw [run]
      split
      next => exact ⟨[], rfl⟩
      next => exact ⟨[], rfl⟩
      next => exact ih _ _
      next i rest hq =>
        dsimp only
        cases (r.act site paging i).tasks[i]? with
        | some t => exact (ih _ _).imp' (i :: ·) fun _ he => he
        | none => exact (ih _ _).imp' (i :: ·) fun _ he => he

/-! ## Making a plan

The schema is asked for, once and before anything else. What follows is done on the disk alone. -/

namespace Plan

variable {π : Type} {site : Site σ} {o : Order π} {schema : Schema} {s : σ}

/-- The caches that are put in place while a plan is made from a schema: none if a listing fails, else
the one after the fragments were looked up, and then the one with the disk to which the documents were
written, if all of them compiled. -/
inductive Stores (site : Site σ) (o : Order π) (schema : Schema) (s : σ) : List FragmentCache → Prop
  | unlisted {e : Failure}
      (hl : listingsOf o schema (entityTypes schema o.config.languages) = .error e) :
      Stores site o schema s []
  | unresolved {listings : Keyed (List ListingQuery)} {e : Failure}
      (hl : listingsOf o schema (entityTypes schema o.config.languages) = .ok listings)
      (hf : (fragmentsOf site o schema s).1 = .error e) :
      Stores site o schema s [(fragmentsOf site o schema s).2]
  | uncompiled {listings : Keyed (List ListingQuery)} {found : ResolvedFragments} {e : Failure}
      (hl : listingsOf o schema (entityTypes schema o.config.languages) = .ok listings)
      (hf : (fragmentsOf site o schema s).1 = .ok found)
      (hc : complete o schema (entityTypes schema o.config.languages) listings found = .error e) :
      Stores site o schema s [(fragmentsOf site o schema s).2]
  | dumped {listings : Keyed (List ListingQuery)} {found : ResolvedFragments} {p : Plan} {s' : σ}
      (hl : listingsOf o schema (entityTypes schema o.config.languages) = .ok listings)
      (hf : (fragmentsOf site o schema s).1 = .ok found)
      (hc : complete o schema (entityTypes schema o.config.languages) listings found = .ok p)
      (hs : s' = site.keep (fragmentsOf site o schema s).2 s) :
      Stores site o schema s [(fragmentsOf site o schema s).2,
        { site.cache s' with disk := (dump o.config p (site.cache s').disk).2 }]

/-- What is done while a plan is made from a schema does not depend on what was done before. -/
theorem ofSchema_traced (site : Site σ) (o : Order π) (schema : Schema) (s : σ) (log : Trace) :
    ∃ cs, Stores site o schema s cs
      ∧ ofSchema site.traced o schema (s, log)
        = ((ofSchema site o schema s).1, ((ofSchema site o schema s).2, log ++ cs.map .kept)) := by
  have hsame : fragmentsOf site.traced o schema (s, log) = fragmentsOf site o schema s := rfl
  cases hl : listingsOf o schema (entityTypes schema o.config.languages) with
  | error e =>
      refine ⟨[], .unlisted hl, ?_⟩
      rw [ofSchema_unlisted hl, ofSchema_unlisted hl, List.map_nil, List.append_nil]
  | ok listings =>
      cases hf : (fragmentsOf site o schema s).1 with
      | error e =>
          refine ⟨_, .unresolved hl hf, ?_⟩
          rw [ofSchema_unresolved hl hf, ofSchema_unresolved hl (hsame ▸ hf), hsame]
          rfl
      | ok found =>
          cases hc : complete o schema (entityTypes schema o.config.languages) listings found with
          | error e =>
              refine ⟨_, .uncompiled hl hf hc, ?_⟩
              rw [ofSchema_uncompiled hl hf hc, ofSchema_uncompiled hl (hsame ▸ hf) hc, hsame]
              rfl
          | ok p =>
              refine ⟨_, .dumped hl hf hc rfl, ?_⟩
              rw [ofSchema_dumped hl hf hc rfl, ofSchema_dumped hl (hsame ▸ hf) hc rfl, hsame,
                List.map_cons, List.append_cons]
              rfl

/-- What is done while a plan is made: the schema is asked for, and then caches are put in place. -/
theorem prepare_traced (site : Site σ) (h : o.preflight = .ok ()) (s : σ) (log : Trace) :
    ∃ cs, (∀ e, (loadSchema site.ask s).1 = .error e → cs = [])
      ∧ (∀ schema, (loadSchema site.ask s).1 = .ok schema →
        Stores site o schema (loadSchema site.ask s).2 cs)
      ∧ prepare site.traced o (s, log) = ((prepare site o s).1, ((prepare site o s).2,
        log ++ .asked introspectionRequest (site.ask introspectionRequest s).1 :: cs.map .kept)) := by
  have hload : loadSchema site.traced.ask (s, log) = ((loadSchema site.ask s).1,
      ((loadSchema site.ask s).2,
        log ++ [.asked introspectionRequest (site.ask introspectionRequest s).1])) := rfl
  cases hs : (loadSchema site.ask s).1 with
  | error e =>
      refine ⟨[], fun _ _ => rfl, nofun, ?_⟩
      rw [prepare_unknown h hs, prepare_unknown h (by rw [hload]; exact hs), hload]
      rfl
  | ok schema =>
      obtain ⟨cs, hcs, he⟩ := ofSchema_traced site o schema (loadSchema site.ask s).2
        (log ++ [.asked introspectionRequest (site.ask introspectionRequest s).1])
      refine ⟨cs, nofun, fun _ hok => Except.ok.inj hok ▸ hcs, ?_⟩
      rw [prepare_known h hs, prepare_known h (by rw [hload]; exact hs), hload, he, List.append_assoc]
      rfl

/-- Whether a plan is carried out in its order. There is one node definition for each type with a
fragment, in the order of the types. All of them are announced, and whatever is done then is done for a
type that was announced. If one is refused, nothing is done after that. -/
structure Carries (site : Site σ) (p : Plan) (s : σ) (log : Trace) : Prop where
  nodup : (p.nodes.values.map NodeDefinition.typeName).Nodup
  descriptors_eq : p.nodes.values.map (·.descriptor) = p.sourced
  announced : (site.declareAll p.nodes.values s).1 = .ok () →
    ∃ es, log = p.nodes.values.map .declared ++ es ∧ ∀ x ∈ es, ∃ d ∈ p.nodes.values, x.Serves d
  refused : ∀ f, (site.declareAll p.nodes.values s).1 = .error f →
    ∃ ds, ds <+: p.nodes.values ∧ log = ds.map .declared

section Carries

variable {st : σ} {p : Plan} {log : Trace}

/-! ### Carrying out a plan

The announcements come first, up to the first type that is refused. If there is one, nothing else is
done. -/

/-- If a type is refused, the announcements up to this type are all that is done. -/
theorem carries_refused (hp : (prepare site o st).1 = .ok p) {f : Fault} {x : σ × Trace}
    (h : site.traced.declareAll p.nodes.values (s, log) = (.error f, x)) :
    ∃ rest, x.2 = log ++ rest ∧ p.Carries site s rest := by
  obtain ⟨ds, hds, -, hd⟩ := site.declareAll_traced p.nodes.values s log
  rw [h] at hd
  obtain ⟨hf, hx⟩ := Prod.ext_iff.mp hd
  refine ⟨ds.map .declared, congrArg Prod.snd hx, ?_⟩
  exact {
    nodup := (prepare_coherent hp).nodup
    descriptors_eq := (prepare_completed hp).descriptors_eq
    announced := fun hok => nomatch hf.trans hok
    refused := fun _ _ => ⟨ds, hds, rfl⟩ }

/-- If no type is refused, tasks move after all announcements, and what they do is done for their
types. -/
theorem carries_announced [Paging π] (hp : (prepare site o st).1 = .ok p) {x : σ × Trace}
    (h : site.traced.declareAll p.nodes.values (s, log) = (.ok (), x)) (order : List Nat) :
    ∃ rest, ((Sourcing.tasksOf o p x).acts site.traced o.walking order).world.2 = log ++ rest
      ∧ p.Carries site s rest := by
  have hcoherent := prepare_coherent hp
  obtain ⟨ds, -, hall, hd⟩ := site.declareAll_traced p.nodes.values s log
  rw [h] at hd
  obtain ⟨hf, rfl⟩ := Prod.ext_iff.mp hd
  obtain rfl := hall hf.symm
  obtain ⟨-, es, hlog, hes⟩ := (Run.OnTrack.start p.nodes.values o.config.concurrency.toNat _ _).acts
    site o.walking (fun d hd => (hcoherent.isFor d hd).typeName_eq) order
  refine ⟨p.nodes.values.map .declared ++ es, hlog.trans (List.append_assoc ..), ?_⟩
  exact {
    nodup := hcoherent.nodup
    descriptors_eq := (prepare_completed hp).descriptors_eq
    announced := fun _ => ⟨es, rfl, hes⟩
    refused := fun _ he => nomatch hf.trans he }

end Carries

end Plan

/-! ## Whole runs

`InSequence` lists the parts of a run one after the other. A run that stops early has only the first of
them. -/

namespace Sourcing

variable {π : Type}

/-- Whether the effects of a run come in their order. -/
structure InSequence (site : Site σ) (o : Order π) (s : σ) (log : Trace) : Prop where
  /-- Nothing is done if the order is refused. -/
  refused : ∀ e, o.preflight = .error e → log = []
  /-- Otherwise the schema is asked for first. Then nothing but the cache of fragments is touched
  until there is a plan. -/
  accepted : o.preflight = .ok () → ∃ cs rest,
    log = .asked introspectionRequest (site.ask introspectionRequest s).1 :: cs.map .kept ++ rest
      ∧ (∀ e, (loadSchema site.ask s).1 = .error e → cs = [])
      ∧ (∀ schema, (loadSchema site.ask s).1 = .ok schema →
        Plan.Stores site o schema (loadSchema site.ask s).2 cs)
      ∧ (∀ e, (Plan.prepare site o s).1 = .error e → rest = [])
      ∧ ∀ p, (Plan.prepare site o s).1 = .ok p → p.Carries site (Plan.prepare site o s).2 rest

variable [Paging π]

/-- The worlds that a run can come to, in whatever order its tasks move and however far they get. -/
inductive Reaches (site : Site σ) (o : Order π) (s : σ) : σ → Prop
  | unplanned {e : Failure} {s' : σ} (h : Plan.prepare site o s = (.error e, s')) : Reaches site o s s'
  | refused {p : Plan} {s₁ s' : σ} {f : Fault} (h : Plan.prepare site o s = (.ok p, s₁))
      (hd : site.declareAll p.nodes.values s₁ = (.error f, s')) : Reaches site o s s'
  | moved {p : Plan} {s₁ s₂ : σ} (h : Plan.prepare site o s = (.ok p, s₁))
      (hd : site.declareAll p.nodes.values s₁ = (.ok (), s₂)) (order : List Nat) :
      Reaches site o s ((tasksOf o p s₂).acts site o.walking order).world

/-- The program comes to one of these worlds, however many steps it takes. -/
theorem run_reaches (site : Site σ) (pace : Pace) (o : Order π) (s : σ) :
    Reaches site o s (run site pace o s).2 := by
  rw [run]
  obtain ⟨⟨x, s₁⟩, hp⟩ : ∃ x, Plan.prepare site o s = x := ⟨_, rfl⟩
  rw [hp]
  cases x with
  | error e => exact .unplanned hp
  | ok p =>
      obtain ⟨⟨y, s₂⟩, hd⟩ : ∃ x, site.declareAll p.nodes.values s₁ = x := ⟨_, rfl⟩
      dsimp only
      cases y with
      | error f =>
          rw [source_refused site pace o p hd]
          exact .refused hp hd
      | ok _ =>
          obtain ⟨order, he⟩ := Agenda.run_acts site o.walking pace.suspends pace.fuel
            (Agenda.start p.nodes.values.length) (tasksOf o p s₂)
          rw [source_announced site pace o p hd, workedOff, he]
          exact .moved hp hd order

/-- **What a run has done comes in its order**, in whatever order its tasks move. -/
theorem Reaches.inSequence {site : Site σ} {o : Order π} {s : σ} {x : σ × Trace}
    (h : Reaches site.traced o (s, []) x) : InSequence site o s x.2 := by
  -- before the preflight has passed nothing is recorded at all
  cases hpre : o.preflight with
  | error e =>
      have hp : Plan.prepare site.traced o (s, []) = (.error e, (s, [])) := Plan.prepare_refused hpre
      refine ⟨fun _ _ => ?_, fun hok => nomatch hpre.symm.trans hok⟩
      cases h with
      | unplanned h => exact congrArg (·.2.2) (h.symm.trans hp)
      | refused h _ => cases hp.symm.trans h
      | moved h _ _ => cases hp.symm.trans h
  | ok _ =>
      obtain ⟨cs, hnone, hcs, hp⟩ := Plan.prepare_traced site hpre s []
      refine ⟨fun _ he => (nomatch hpre.symm.trans he), fun _ => ?_⟩
      cases h with
      | unplanned h =>
          obtain ⟨he, rfl⟩ := Prod.ext_iff.mp (hp.symm.trans h)
          refine ⟨cs, [], (List.append_nil _).symm, hnone, hcs, fun _ _ => rfl, fun p hok => ?_⟩
          cases he.symm.trans hok
      | @refused p s₁ s' f h hd =>
          obtain ⟨he, rfl⟩ := Prod.ext_iff.mp (hp.symm.trans h)
          obtain ⟨rest, hlog, hc⟩ := Plan.carries_refused he hd
          refine ⟨cs, rest, hlog, hnone, hcs, fun _ herr => (nomatch he.symm.trans herr), fun q hq => ?_⟩
          cases he.symm.trans hq
          exact hc
      | @moved p s₁ s₂ h hd order =>
          obtain ⟨he, rfl⟩ := Prod.ext_iff.mp (hp.symm.trans h)
          obtain ⟨rest, hlog, hc⟩ := Plan.carries_announced he hd order
          refine ⟨cs, rest, hlog, hnone, hcs, fun _ herr => (nomatch he.symm.trans herr), fun q hq => ?_⟩
          cases he.symm.trans hq
          exact hc

/-- Tracing a run changes neither its end nor the world, from its first request on. -/
theorem run_traced (site : Site σ) (pace : Pace) (o : Order π) (s : σ) :
    (run site.traced pace o (s, [])).1 = (run site pace o s).1
      ∧ (run site.traced pace o (s, [])).2.1 = (run site pace o s).2 := by
  obtain ⟨log, hp⟩ : ∃ log, Plan.prepare site.traced o (s, [])
      = ((Plan.prepare site o s).1, ((Plan.prepare site o s).2, log)) := by
    cases hpre : o.preflight with
    | error e => exact ⟨[], by rw [Plan.prepare_refused hpre, Plan.prepare_refused hpre]⟩
    | ok _ => exact (Plan.prepare_traced site hpre s []).imp' _ fun _ h => h.2.2
  rw [run, run, hp]
  obtain ⟨⟨x, s₁⟩, hx⟩ : ∃ x, Plan.prepare site o s = x := ⟨_, rfl⟩
  rw [hx]
  cases x with
  | error e => exact ⟨rfl, rfl⟩
  | ok p => exact source_traced site pace o p s₁ log

/-- **A run comes in its order.** It does nothing if its order is refused, asks for the schema before all
else, goes no further without a plan, and announces every type of its plan once, before anything is done
for one of them. This holds of the program and of all other orders in which its tasks may move. -/
theorem run_inSequence (site : Site σ) (o : Order π) (s : σ) :
    (∀ pace, ∃ log, InSequence site o s log
        ∧ run site.traced pace o (s, []) = ((run site pace o s).1, ((run site pace o s).2, log)))
      ∧ ∀ s' log, Reaches site.traced o (s, []) (s', log) → InSequence site o s log := by
  refine ⟨fun pace => ⟨_, (run_reaches site.traced pace o (s, [])).inSequence, ?_⟩,
    fun s' log h => h.inSequence⟩
  obtain ⟨hend, hworld⟩ := run_traced site pace o s
  exact Prod.ext hend (Prod.ext hworld rfl)

end Sourcing

namespace Sample

theorem preflight_order : order.preflight = .ok () := rfl

/-- Both types of the small remote are announced before the tasks do anything, after both have moved. -/
theorem two_types_in_sequence :
    ∃ s' log, Sourcing.Reaches (answering fun _ => .data description).traced order ((), []) (s', log)
      ∧ ∃ (cs : List FragmentCache) (es : Trace),
        log = .asked introspectionRequest (.data description) :: cs.map .kept
          ++ (plan.nodes.values.map .declared ++ es)
        ∧ ∀ x ∈ es, ∃ d ∈ plan.nodes.values, x.Serves d := by
  obtain ⟨_, -, -, hp⟩ :=
    Plan.prepare_traced (answering fun _ => .data description) preflight_order () []
  rw [prepare_eq] at hp
  obtain ⟨_, -, -, hd⟩ :=
    (answering fun _ => .data description).declareAll_traced plan.nodes.values () _
  rw [declareAll_answering] at hd
  have h := Sourcing.Reaches.moved hp hd [0, 1]
  obtain ⟨cs, rest, hlog, -, -, -, hc⟩ :=
    ((Sourcing.run_inSequence _ order ()).2 _ _ h).accepted preflight_order
  obtain ⟨es, rfl, hes⟩ := (hc plan prepare_eq).announced (declareAll_answering _ _)
  exact ⟨_, _, h, cs, es, hlog, hes⟩

end Sample

end Harvest
