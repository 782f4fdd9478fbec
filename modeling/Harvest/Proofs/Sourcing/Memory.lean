import Harvest.Proofs.Entity.EntityTypes
import Harvest.Proofs.GraphQL.TypeNames
import Harvest.Proofs.Sourcing.Moment
import Harvest.Proofs.Sourcing.Reporting
import Harvest.Proofs.Sourcing.Sequence
import Harvest.Proofs.Storage.Memory

/-!
# Runs into memory

A run whose receiver is a memory leaves the same there in whatever order its tasks move. All types write
into one map, but none writes under an id of another one, and each of them hands over the same records
whenever it gets to do so. `Sourcing.memory_independent` says so of two runs and of what they leave.

The map is filled in the order in which records come, and that order is different in every run. Two facts
make the result the same nevertheless. A node id begins with the name of its type, and names have no colon,
so that records of different types never meet under one id (`Trace.Sorted.apart`). And for each type the
records come in one order, which is that of its own requests. So what is under an id is the last record with
this id in the stream of one type (`Trace.Sorted.filter_handed`).

`NodeMemory.Holds` is the state of the memory in terms of the streams, and `NodeMemory.Holds.same` compares
two such states without going back to the runs.
-/

namespace Harvest

open GraphQL

variable {σ σ₁ σ₂ : Type}

/-! ## Names of types in a plan

They come from a schema that was read, where every name was checked. -/

/-- The schema of a run was read from an answer. -/
theorem schema_of_load {ask : Executor σ} {st : σ} {s : Schema} (h : (loadSchema ask st).1 = .ok s) :
    ∃ data, Schema.ofIntrospection data = .ok s := by
  change schemaOfAnswer (ask introspectionRequest st).1 = .ok s at h
  cases ha : (ask introspectionRequest st).1 with
  | failed e =>
      rw [ha] at h
      cases h
  | broken f =>
      rw [ha] at h
      cases h
  | data v =>
      rw [ha] at h
      change remoteSchema v = .ok s at h
      unfold remoteSchema at h
      split at h
      · cases h
      split at h
      · cases h
      next s' hs =>
        split at h
        · cases h
          exact ⟨v, hs⟩
        · cases h

/-- **All types of a plan have proper names.** -/
theorem Plan.isName_of_mem_descriptors {π : Type} {site : Site σ} {o : Order π} {st : σ} {p : Plan}
    (h : (prepare site o st).1 = .ok p) : ∀ c ∈ p.descriptors, IsName c.typeName := by
  intro c hc
  obtain ⟨s, hs, hp⟩ := prepare_ok h
  obtain ⟨data, hdata⟩ := schema_of_load hs
  obtain ⟨listings, found, -, -, hcomplete⟩ := ofSchema_ok hp
  rw [descriptors_of_complete hcomplete] at hc
  obtain ⟨t, ht, -⟩ := isObject_of_mem_entityTypes (unambiguous_ofIntrospection hdata) hc
  have hname : t.name = c.typeName := by simpa using List.find?_some ht
  rw [← hname]
  exact isName_of_mem_types hdata t (Schema.mem_of_type? ht)

/-! ## Records that were handed over

All types together, with the definition under which each record was handed over. -/

/-- The record that was handed over, with the definition of its type. -/
def Effect.handed? : Effect → Option (NodeDefinition × EntityRecord)
  | emitted d r => some (d, r)
  | _ => none

namespace Trace

variable {log : Trace} {d : NodeDefinition} {r : EntityRecord}

/-- All records that were handed over, with the definitions of their types. -/
def handed (log : Trace) : List (NodeDefinition × EntityRecord) := log.filterMap Effect.handed?

@[simp] theorem handed_append (log more : Trace) : handed (log ++ more) = log.handed ++ more.handed :=
  List.filterMap_append

/-- A record was handed over if the trace says so. -/
theorem mem_handed : (d, r) ∈ log.handed ↔ .emitted d r ∈ log := by
  constructor
  · intro h
    obtain ⟨x, hx, he⟩ := List.mem_filterMap.mp h
    cases x with
    | emitted =>
        cases he
        exact hx
    | _ => cases he
  · intro h
    exact List.mem_filterMap.mpr ⟨_, h, rfl⟩

/-- Records that were handed over are counted by the trace. -/
theorem length_handed (log : Trace) : log.handed.length = log.emissions := by
  induction log with
  | nil => rfl
  | cons x log ih =>
      cases x with
      | emitted d r => exact congrArg (· + 1) ih |>.trans (List.countP_cons_of_pos rfl).symm
      | _ => exact ih

/-- The records of a type are those that were handed over with its definition. -/
theorem handed_of_type (log : Trace) (typeName : String) :
    (log.handed.filter (·.1.typeName == typeName)).map (·.2) = log.received typeName := by
  rw [handed, List.filter_filterMap, List.map_filterMap]
  refine List.filterMap_congr fun x _ => ?_
  cases x with
  | emitted d r =>
      by_cases h : d.typeName = typeName <;> simp [Effect.handed?, Effect.record?, h]
  | _ => rfl

end Trace

/-! ## The receiver in memory

The memory is added to the state of a site, and gets the records instead of the receiver that the site has. -/

namespace Site

/-- The site whose receiver is a memory. -/
def inMemory (site : Site σ) : Site (σ × NodeMemory) where
  ask r x := ((site.ask r x.1).1, ((site.ask r x.1).2, x.2))
  cancelled x := site.cancelled x.1
  declare d x := (.ok (), (x.1, x.2.declare d))
  emit d r x := (x.1, x.2.emit d r)
  cache x := site.cache x.1
  keep c x := (site.keep c x.1, x.2)

theorem inMemory_gives {site : Site σ} {r : Request} {a : Answer} (h : site.inMemory.Gives r a) :
    site.Gives r a := by
  obtain ⟨x, hx⟩ := h
  exact ⟨x.1, hx⟩

/-- **The memory keeps what was handed over**, whatever is done. -/
theorem inMemory_keeps (site : Site σ) :
    site.inMemory.traced.Keeps fun x => x.1.2.Keeps x.2.handed where
  ask := by
    rintro r ⟨⟨s, m⟩, log⟩ - h
    show m.Keeps (Trace.handed (log ++ [.asked r _]))
    rw [Trace.handed_append]
    exact (List.append_nil log.handed).symm ▸ h
  declare := by
    rintro d ⟨⟨s, m⟩, log⟩ h
    show (m.declare d).Keeps (Trace.handed (log ++ [.declared d]))
    rw [Trace.handed_append]
    exact (List.append_nil log.handed).symm ▸ h.declare d
  emit := by
    rintro d r ⟨⟨s, m⟩, log⟩ h
    show (m.emit d r).Keeps (Trace.handed (log ++ [.emitted d r]))
    rw [Trace.handed_append]
    exact h.emit d r

end Site

/-! ## Whose records are handed over

All effects after the announcements come from the tasks, so that each record is one of a type of the plan. -/

namespace Sourcing

variable {site : Site σ} {o : Order} {p : Plan} {s s' : σ} {x : Except Failure Report} {log : Trace}

/-- A run whose types are all accepted ends after some moves of its tasks. -/
theorem Ends.moved (h : Ends site o p s x s') (ha : (site.declareAll p.nodes.values s).1 = .ok ()) :
    ∃ order, s' = ((tasksOf o p (site.declareAll p.nodes.values s).2).acts site o.walking order).world := by
  cases h with
  | refused h =>
      rw [h] at ha
      cases ha
  | crashed h hr _ =>
      rw [h, hr]
      exact ⟨_, rfl⟩
  | ended h hr _ =>
      rw [h, hr]
      exact ⟨_, rfl⟩

/-- All records are handed over for types of the plan, and are of these types. -/
theorem Ends.isOf_of_emitted (hp : p.Coherent) (ha : (site.declareAll p.nodes.values s).1 = .ok ())
    (h : Ends site.traced o p (s, []) x (s', log)) {d : NodeDefinition} {r : EntityRecord}
    (hr : .emitted d r ∈ log) : d ∈ p.nodes.values ∧ r.IsOf d.typeName := by
  have hd := Site.declareAll_accepted ha []
  obtain ⟨order, hlog⟩ := h.moved (congrArg Prod.fst hd)
  rw [hd] at hlog
  obtain ⟨-, es, hworld, hes⟩ := (Run.OnTrack.start p.nodes.values o.config.concurrency.toNat _ _).acts
    site o.walking (fun d hd => (hp.isFor d hd).typeName_eq) order
  have hsplit : log = p.nodes.values.map .declared ++ es := (congrArg Prod.snd hlog).trans hworld
  rw [hsplit] at hr
  -- Announcements hand over nothing, and what tasks do is done for their types.
  rcases List.mem_append.mp hr with hr | hr
  · obtain ⟨c, -, hc⟩ := List.mem_map.mp hr
    cases hc
  · obtain ⟨c, hc, hserves⟩ := hes _ hr
    cases hserves with
    | emitted htype hown => exact ⟨hc, htype, hown⟩

end Sourcing

/-! ## What a run leaves in memory

A memory after a run, described by the streams of the types. -/

/-- Whether a memory holds what a run of a plan has handed over and its report tells. -/
structure NodeMemory.Holds (m : NodeMemory) (p : Plan) (report : Report) (log : Trace) : Prop where
  /-- Under an id that a type has produced stands the last record with this id in its own stream. -/
  last : ∀ d ∈ p.nodes.values, ∀ r ∈ log.received d.typeName,
    ∃ e, EntityRecord.last? r.nodeId (log.received d.typeName) = some e
      ∧ m.nodes.get? r.nodeId = some (d, e)
  /-- Nothing else is stored. -/
  stored : ∀ id d r, m.nodes.get? id = some (d, r) →
    d ∈ p.nodes.values ∧ r ∈ log.received d.typeName ∧ r.nodeId = id
  /-- Types share no ids, so none of them replaces a record of another one. -/
  apart : ∀ d ∈ p.nodes.values, ∀ c ∈ p.nodes.values, d.typeName ≠ c.typeName →
    ∀ r ∈ log.received d.typeName, ∀ e ∈ log.received c.typeName, r.nodeId ≠ e.nodeId
  mem_records : ∀ typeName r, r ∈ m.records (some typeName) ↔
    ∃ d, d.typeName = typeName ∧ m.nodes.get? r.nodeId = some (d, r)
  /-- The records of a type come in the order in which its stream brought their ids. -/
  records_eq : ∀ typeName, m.records (some typeName)
    = (Keyed.ofList ((log.received typeName).map fun r => (r.nodeId, r))).values
  emitted_eq : m.emitted = report.totalEmitted

/-- Whether all records were handed over for types of a plan with proper names, and are of these types. -/
structure Trace.Sorted (log : Trace) (p : Plan) : Prop where
  nodup : (p.nodes.values.map NodeDefinition.typeName).Nodup
  isName : ∀ d ∈ p.nodes.values, IsName d.typeName
  definition_mem : ∀ x ∈ log.handed, x.1 ∈ p.nodes.values
  isOf : ∀ x ∈ log.handed, x.2.IsOf x.1.typeName

namespace Trace.Sorted

variable {log : Trace} {p : Plan} {d c : NodeDefinition} {r e : EntityRecord} {m : NodeMemory}

/-! ### Records by their types

The id of a record begins with the name of its type, and names of types have no colon. So records of
different types cannot replace each other, and the memory can be looked at type by type. -/

theorem eq_of_typeName_eq (h : log.Sorted p) (hd : d ∈ p.nodes.values)
    {x : NodeDefinition × EntityRecord} (hx : x ∈ log.handed) (htype : x.1.typeName = d.typeName) :
    x.1 = d :=
  List.inj_on_of_nodup_map h.nodup (h.definition_mem x hx) hd htype

/-- The records of a type, with the definition that the plan has for the type. -/
theorem handed_of_received (h : log.Sorted p) (hd : d ∈ p.nodes.values) :
    log.handed.filter (·.1.typeName == d.typeName) = (log.received d.typeName).map (d, ·) := by
  rw [← handed_of_type, List.map_map]
  refine ((List.map_congr_left fun x hx => ?_).trans (List.map_id _)).symm
  obtain ⟨hmem, htype⟩ := List.mem_filter.mp hx
  rw [Function.comp_apply, ← h.eq_of_typeName_eq hd hmem (beq_iff_eq.mp htype)]
  rfl

/-- A record is in the stream of its type if it was handed over. -/
theorem mem_received (h : log.Sorted p) (hd : d ∈ p.nodes.values) :
    r ∈ log.received d.typeName ↔ (d, r) ∈ log.handed := by
  constructor
  · intro hr
    have hmem : (d, r) ∈ (log.received d.typeName).map (d, ·) := List.mem_map_of_mem hr
    rw [← h.handed_of_received hd] at hmem
    exact (List.mem_filter.mp hmem).1
  · intro hr
    rw [← handed_of_type]
    exact List.mem_map.mpr ⟨_, List.mem_filter.mpr ⟨hr, beq_self_eq_true _⟩, rfl⟩

/-- **Records that share a node id are of one type.** -/
theorem apart (h : log.Sorted p) : NodeMemory.Apart log.handed := by
  intro x hx y hy hid
  exact EntityRecord.type_eq_of_nodeId_eq (h.isName _ (h.definition_mem x hx))
    (h.isName _ (h.definition_mem y hy)) (h.isOf x hx) (h.isOf y hy) hid

/-- All records that go by an id of one type are in the stream of this type. -/
theorem filter_handed (h : log.Sorted p) (hd : d ∈ p.nodes.values) (hr : r ∈ log.received d.typeName) :
    log.handed.filter (·.2.nodeId == r.nodeId)
      = ((log.received d.typeName).filter (·.nodeId == r.nodeId)).map (d, ·) := by
  have hmem : (d, r) ∈ log.handed := (h.mem_received hd).mp hr
  have hof : log.handed.filter (·.2.nodeId == r.nodeId)
      = (log.handed.filter (·.1.typeName == d.typeName)).filter (·.2.nodeId == r.nodeId) := by
    rw [List.filter_filter]
    refine List.filter_congr fun x hx => ?_
    by_cases hid : x.2.nodeId = r.nodeId
    · simp [hid, h.apart x hx (d, r) hmem hid]
    · simp [hid]
  rw [hof, h.handed_of_received hd, List.filter_map]
  rfl

/-- Nothing is handed over of a type that is not sourced. -/
theorem received_eq_nil (h : log.Sorted p) {typeName : String}
    (hnone : ∀ d ∈ p.nodes.values, d.typeName ≠ typeName) : log.received typeName = [] := by
  rw [← handed_of_type, List.map_eq_nil_iff, List.filter_eq_nil_iff]
  intro x hx htype
  exact hnone x.1 (h.definition_mem x hx) (beq_iff_eq.mp htype)

/-- How many records are handed over is decided by the streams. -/
theorem emissions_eq {log' : Trace} (h : log.Sorted p) (h' : log'.Sorted p)
    (hsame : ∀ typeName, log.received typeName = log'.received typeName) :
    log.emissions = log'.emissions := by
  have hlisted {es : Trace} (hes : es.Sorted p) (d : NodeDefinition) (r : EntityRecord)
      (hr : .emitted d r ∈ es) : d.typeName ∈ p.nodes.values.map NodeDefinition.typeName :=
    List.mem_map_of_mem (hes.definition_mem (d, r) (mem_handed.mpr hr))
  rw [Trace.emissions_eq_sum h.nodup (hlisted h), Trace.emissions_eq_sum h.nodup (hlisted h'),
    funext fun typeName => congrArg List.length (hsame typeName)]

/-- **A memory that has kept all records holds what the run has handed over.** -/
theorem holds (h : log.Sorted p) (hm : m.Keeps log.handed) {report : Report}
    (hreport : report.totalEmitted = log.emissions) : m.Holds p report log where
  last d hd r hr := by
    obtain ⟨e, he⟩ := EntityRecord.exists_last? hr
    have hlast := congrArg (Option.map (d, ·)) he
    rw [EntityRecord.last?, ← List.getLast?_map, ← h.filter_handed hd hr, ← hm.get?_eq] at hlast
    exact ⟨e, he, hlast⟩
  stored id d r hget := by
    rw [hm.get?_eq] at hget
    obtain ⟨hmem, hid⟩ := List.mem_filter.mp (List.mem_of_getLast? hget)
    have hd : d ∈ p.nodes.values := h.definition_mem _ hmem
    exact ⟨hd, (h.mem_received hd).mpr hmem, beq_iff_eq.mp hid⟩
  apart d hd c hc hne r hr e he hid :=
    hne (h.apart (d, r) ((h.mem_received hd).mp hr) (c, e) ((h.mem_received hc).mp he) hid)
  mem_records typeName r := hm.mem_records typeName
  records_eq typeName := by
    rw [hm.records_eq h.apart, ← handed_of_type, List.map_map]
    rfl
  emitted_eq := by rw [hm.emitted_eq, Trace.length_handed, hreport]

end Trace.Sorted

/-- Whether two memories hold the same under all ids, give the same records of each type, and have counted
alike. -/
structure NodeMemory.Same (m₁ m₂ : NodeMemory) : Prop where
  get?_eq : ∀ id, m₁.nodes.get? id = m₂.nodes.get? id
  records_eq : ∀ typeName, m₁.records (some typeName) = m₂.records (some typeName)
  emitted_eq : m₁.emitted = m₂.emitted

namespace NodeMemory.Holds

variable {m₁ m₂ : NodeMemory} {p : Plan} {report₁ report₂ : Report} {log₁ log₂ : Trace}

/-! ### Two memories -/

/-- What one memory has under an id, the other has as well if the streams are the same. -/
theorem get?_of_received (h₁ : m₁.Holds p report₁ log₁) (h₂ : m₂.Holds p report₂ log₂)
    (h : ∀ typeName, log₁.received typeName = log₂.received typeName) {id : String}
    {x : NodeDefinition × EntityRecord} (hx : m₁.nodes.get? id = some x) : m₂.nodes.get? id = some x := by
  obtain ⟨hd, hr, rfl⟩ := h₁.stored id x.1 x.2 hx
  obtain ⟨e, he, hget⟩ := h₁.last x.1 hd x.2 hr
  rw [h x.1.typeName] at hr he
  obtain ⟨e', he', hget'⟩ := h₂.last x.1 hd x.2 hr
  cases he.symm.trans he'
  rw [hget', ← hget, hx]

/-- **Streams decide what is in memory.** -/
theorem same (h₁ : m₁.Holds p report₁ log₁) (h₂ : m₂.Holds p report₂ log₂)
    (h : ∀ typeName, log₁.received typeName = log₂.received typeName)
    (hreport : report₁.totalEmitted = report₂.totalEmitted) : m₁.Same m₂ where
  get?_eq id := Option.ext fun x =>
    ⟨h₁.get?_of_received h₂ h, h₂.get?_of_received h₁ fun typeName => (h typeName).symm⟩
  records_eq typeName := by rw [h₁.records_eq, h₂.records_eq, h]
  emitted_eq := by rw [h₁.emitted_eq, h₂.emitted_eq, hreport]

end NodeMemory.Holds

/-! ## Whole runs

Both runs end under fair schedules, and their streams are the same as far as their answers are. -/

/-- Whether two runs of a plan end with reports, have handed over the same records of each type, and leave
memories that hold these records and are the same. -/
structure SameMemory (p : Plan) (x₁ : Except Failure Report) (log₁ : Trace) (m₁ : NodeMemory)
    (x₂ : Except Failure Report) (log₂ : Trace) (m₂ : NodeMemory) : Prop where
  first : ∃ report, x₁ = .ok report ∧ m₁.Holds p report log₁
  second : ∃ report, x₂ = .ok report ∧ m₂.Holds p report log₂
  received_eq : ∀ typeName, log₁.received typeName = log₂.received typeName
  same : m₁.Same m₂

namespace Site

variable {site : Site σ}

/-- The memory takes every type. -/
theorem declareAll_inMemory (ds : List NodeDefinition) (x : σ × NodeMemory) :
    (site.inMemory.declareAll ds x).1 = .ok () := by
  induction ds generalizing x with
  | nil => rfl
  | cons d ds ih => exact ih _

theorem RunsDry.inMemory {d : NodeDefinition} {n pages : Nat} (h : site.RunsDry d n pages) :
    site.inMemory.RunsDry d n pages :=
  fun l hl k a vs hk hg hr => h l hl k a vs hk (inMemory_gives hg) hr

end Site

namespace Sourcing

/-- Where a memory receives the records, a run is as regular as it is with any other receiver. -/
theorem Regular.inMemory {site : Site σ} {o : Order} {p : Plan} {n : Nat} {s : σ}
    (h : Regular site o p n s) (m : NodeMemory) : Regular site.inMemory o p n (s, m) where
  paging := h.paging
  size := h.size
  concurrency := h.concurrency
  cancelled x := h.cancelled x.1
  accepts := Site.declareAll_inMemory _ _
  answers d hd r hr x := h.answers d hd r hr x.1

variable {σ₀ π : Type} {site₀ : Site σ₀} {o₀ : Order π} {s₀ : σ₀} {p : Plan} {n : Nat}

/-- The records of a run are those of the types of its plan. -/
theorem Ends.sorted (hprepare : (Plan.prepare site₀ o₀ s₀).1 = .ok p) {site : Site σ} {o : Order}
    {s s' : σ} {x : Except Failure Report} {log : Trace}
    (ha : (site.declareAll p.nodes.values s).1 = .ok ())
    (h : Ends site.traced o p (s, []) x (s', log)) : log.Sorted p where
  nodup := (Plan.prepare_coherent hprepare).nodup
  isName d hd := Plan.isName_of_mem_descriptors hprepare d.descriptor
    ((Plan.prepare_coherent hprepare).descriptor_mem d hd)
  definition_mem _ hx :=
    (h.isOf_of_emitted (Plan.prepare_coherent hprepare) ha (Trace.mem_handed.mp hx)).1
  isOf _ hx := (h.isOf_of_emitted (Plan.prepare_coherent hprepare) ha (Trace.mem_handed.mp hx)).2

/-- **A run into memory ends with a report**, and the memory holds what was handed over. -/
theorem Ends.holds (hprepare : (Plan.prepare site₀ o₀ s₀).1 = .ok p) (hn : 1 ≤ n) {site : Site σ}
    {o : Order} {s s' : σ} (hr : Regular site.inMemory o p n (s, .empty)) {x : Except Failure Report}
    {m : NodeMemory} {log : Trace}
    (h : Ends site.inMemory.traced o p ((s, .empty), []) x ((s', m), log)) :
    ∃ report, x = .ok report ∧ report.totalEmitted = log.emissions ∧ m.Holds p report log := by
  have hp := Plan.prepare_coherent hprepare
  have hw := Order.walking_eq hr.paging hr.size
  have hkeeps : m.Keeps log.handed :=
    h.keeps (P := fun y => y.1.2.Keeps y.2.handed) site.inMemory_keeps NodeMemory.keeps_empty
  obtain ⟨report, rfl⟩ := h.reports hp hn hw hr.accepts hr.answers
  obtain ⟨steps, r, hch, hlog, rfl, he⟩ := h.account hp hn hw
  have hexact := hch.isExact hp (Plan.prepare_partitioned hprepare) hlog he hr.answers
    (site.inMemory.cancelled (s', m))
  exact ⟨_, rfl, hexact.totalEmitted_eq,
    (h.sorted hprepare hr.accepts).holds hkeeps hexact.totalEmitted_eq⟩

/-- Runs with the same answers hand over the same records of each type. -/
theorem Ends.received_eq (hprepare : (Plan.prepare site₀ o₀ s₀).1 = .ok p) (hn : 1 ≤ n)
    {site₁ : Site σ₁} {o₁ : Order} {s₁ s₁' : σ₁} (hr₁ : Regular site₁ o₁ p n s₁)
    {site₂ : Site σ₂} {o₂ : Order} {s₂ s₂' : σ₂} (hr₂ : Regular site₂ o₂ p n s₂)
    (hagree : ∀ d ∈ p.nodes.values, site₁.Agree site₂ d n) {x₁ x₂ : Except Failure Report}
    {log₁ log₂ : Trace} (h₁ : Ends site₁.traced o₁ p (s₁, []) x₁ (s₁', log₁))
    (h₂ : Ends site₂.traced o₂ p (s₂, []) x₂ (s₂', log₂)) (typeName : String) :
    log₁.received typeName = log₂.received typeName := by
  have hp := Plan.prepare_coherent hprepare
  by_cases hd : ∃ d ∈ p.nodes.values, d.typeName = typeName
  · obtain ⟨d, hd, rfl⟩ := hd
    obtain ⟨_, _, _, -, -, -, -, hreceived⟩ := h₁.alikeOn hp hn hr₁ hr₂ (hp.descriptor_mem d hd)
      (fun c hc _ => hagree c hc) h₂
    exact hreceived
  · have hnone : ∀ d ∈ p.nodes.values, d.typeName ≠ typeName := fun d hmem he => hd ⟨d, hmem, he⟩
    rw [(h₁.sorted hprepare hr₁.accepts).received_eq_nil hnone,
      (h₂.sorted hprepare hr₂.accepts).received_eq_nil hnone]

/-- **What a run leaves in memory does not depend on the order of its tasks.** If the answers are a function
of the request, two runs of a plan leave the same under all node ids: each type the last records of its own
stream, none in the place of one of another type. -/
theorem memory_independent (hprepare : (Plan.prepare site₀ o₀ s₀).1 = .ok p) (hn : 1 ≤ n)
    {site₁ : Site σ₁} {o₁ : Order} {s₁ : σ₁} (hr₁ : Regular site₁.inMemory o₁ p n (s₁, .empty))
    {site₂ : Site σ₂} {o₂ : Order} {s₂ : σ₂} (hr₂ : Regular site₂.inMemory o₂ p n (s₂, .empty))
    {f : Request → Answer}
    (hf₁ : ∀ d ∈ p.nodes.values, ∀ r, r.IsOf d → ∀ s, (site₁.ask r s).1 = f r)
    (hf₂ : ∀ d ∈ p.nodes.values, ∀ r, r.IsOf d → ∀ s, (site₂.ask r s).1 = f r) :
    (∀ {x₁ s₁' m₁ log₁ x₂ s₂' m₂ log₂},
        Ends site₁.inMemory.traced o₁ p ((s₁, .empty), []) x₁ ((s₁', m₁), log₁) →
        Ends site₂.inMemory.traced o₂ p ((s₂, .empty), []) x₂ ((s₂', m₂), log₂) →
          SameMemory p x₁ log₁ m₁ x₂ log₂ m₂)
    ∧ (∀ {pace₁ pace₂ x₁ x₂}, (source site₁.inMemory pace₁ o₁ p (s₁, .empty)).1.result = some x₁ →
        (source site₂.inMemory pace₂ o₂ p (s₂, .empty)).1.result = some x₂ →
          SameMemory p
            x₁ (source site₁.inMemory.traced pace₁ o₁ p ((s₁, .empty), [])).2.2
              (source site₁.inMemory pace₁ o₁ p (s₁, .empty)).2.2
            x₂ (source site₂.inMemory.traced pace₂ o₂ p ((s₂, .empty), [])).2.2
              (source site₂.inMemory pace₂ o₂ p (s₂, .empty)).2.2)
    ∧ ((∀ d ∈ p.nodes.values, ∃ pages, site₁.RunsDry d n pages) → ∀ suspends,
        ∃ moves, ∀ fuel ≥ moves, ∃ x,
          (source site₁.inMemory ⟨suspends, fuel⟩ o₁ p (s₁, .empty)).1.result = some x) := by
  have hagree : ∀ d ∈ p.nodes.values, site₁.inMemory.Agree site₂.inMemory d n := by
    intro d hd
    exact .of_answers (fun r hr x => hf₁ d hd r hr x.1) (fun r hr x => hf₂ d hd r hr x.1) n
  -- what a type receives is the same in both runs, and the memory is made of nothing else
  have hends {x₁ s₁' m₁ log₁ x₂ s₂' m₂ log₂}
      (h₁ : Ends site₁.inMemory.traced o₁ p ((s₁, .empty), []) x₁ ((s₁', m₁), log₁))
      (h₂ : Ends site₂.inMemory.traced o₂ p ((s₂, .empty), []) x₂ ((s₂', m₂), log₂)) :
      SameMemory p x₁ log₁ m₁ x₂ log₂ m₂ := by
    have hreceived := h₁.received_eq hprepare hn hr₁ hr₂ hagree h₂
    obtain ⟨report₁, hx₁, htotal₁, hholds₁⟩ := h₁.holds hprepare hn hr₁
    obtain ⟨report₂, hx₂, htotal₂, hholds₂⟩ := h₂.holds hprepare hn hr₂
    have htotal : report₁.totalEmitted = report₂.totalEmitted := by
      rw [htotal₁, htotal₂]
      exact (h₁.sorted hprepare hr₁.accepts).emissions_eq (h₂.sorted hprepare hr₂.accepts) hreceived
    exact ⟨⟨_, hx₁, hholds₁⟩, ⟨_, hx₂, hholds₂⟩, hreceived, hholds₁.same hholds₂ hreceived htotal⟩
  refine ⟨hends, fun {pace₁ pace₂ x₁ x₂} h₁ h₂ => ?_, fun hdry suspends => ?_⟩
  · obtain ⟨hend₁, hworld₁⟩ := source_traced site₁.inMemory pace₁ o₁ p (s₁, .empty) []
    obtain ⟨hend₂, hworld₂⟩ := source_traced site₂.inMemory pace₂ o₂ p (s₂, .empty) []
    rw [← hend₁] at h₁
    rw [← hend₂] at h₂
    rw [← hworld₁, ← hworld₂]
    exact hends (source_ends hr₁.concurrency h₁) (source_ends hr₂.concurrency h₂)
  · obtain ⟨moves, hmoves⟩ := source_comes_to_end (Plan.prepare_coherent hprepare) hn
      (Order.walking_eq hr₁.paging hr₁.size) hr₁.concurrency
      (fun d hd => (hdry d hd).imp fun _ h => h.inMemory) suspends (s₁, .empty)
    exact ⟨moves, fun fuel hfuel => ⟨_, (hmoves fuel hfuel).choose_spec.1⟩⟩

end Sourcing

/-! ## One permit and many -/

namespace Sample

/-- What is sourced, with a single permit. -/
def singleOrder : Order := { order with config := { order.config with concurrency := 1 } }

/-- What a run into memory leaves there. -/
def leftBy (o : Order) (pace : Sourcing.Pace) : NodeMemory :=
  (Sourcing.source (answering both).inMemory pace o plan ((), .empty)).2.2

theorem keys_leftBy : (leftBy singleOrder ⟨false, 20⟩).nodes.keys = ["Node:1:EN", "Node:1:DE"] := by
  decide +kernel

/-- Both runs of the sample come to their ends. -/
theorem source_ended :
    (Sourcing.source (answering both).inMemory ⟨true, 20⟩ order plan ((), .empty)).1.result.isSome
      ∧ (Sourcing.source (answering both).inMemory ⟨false, 20⟩ singleOrder plan
        ((), .empty)).1.result.isSome := by
  decide +kernel

/-- Two runs, the second one with a single permit, leave the same in memory. -/
theorem left_by_both :
    ∃ x₁ log₁ x₂ log₂, SameMemory plan x₁ log₁ (leftBy order ⟨true, 20⟩) x₂ log₂
        (leftBy singleOrder ⟨false, 20⟩)
      ∧ (leftBy singleOrder ⟨false, 20⟩).nodes.keys = ["Node:1:EN", "Node:1:DE"] := by
  obtain ⟨x₁, hx₁⟩ := Option.isSome_iff_exists.mp source_ended.1
  obtain ⟨x₂, hx₂⟩ := Option.isSome_iff_exists.mp source_ended.2
  have hregular {o : Order} (hpaging : o.paging = none) (hsize : o.config.pageSize = 2)
      (hconcurrency : 1 ≤ o.config.concurrency) :
      Sourcing.Regular (answering both).inMemory o plan 2 ((), .empty) :=
    (regular_answering (fun _ => .inl ⟨_, rfl⟩) hpaging hsize hconcurrency).inMemory .empty
  have hsame := (Sourcing.memory_independent prepare_eq (by decide)
    (hregular (o := order) rfl rfl (by decide)) (hregular (o := singleOrder) rfl rfl (by decide))
    (f := both) (fun _ _ _ _ _ => rfl) (fun _ _ _ _ _ => rfl)).2.1 hx₁ hx₂
  exact ⟨_, _, _, _, hsame, keys_leftBy⟩

end Sample

end Harvest
