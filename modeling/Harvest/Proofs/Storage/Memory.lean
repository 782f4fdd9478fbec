import Harvest.Proofs.Entity.NodeIds
import Harvest.Proofs.Plan.Documents
import Mathlib.Data.List.Induction

/-!
# Nodes of several types in one memory

A memory that has received some records keeps the last one of each node id. As a node id tells the type of
its entity, the records of one type are kept as if there were no other types: `NodeMemory.Keeps` is this
relation between a memory and what it has received, `Keeps.emit` says that it is kept by every record, and
`Keeps.records_eq` that the records of a type depend on no other.

The map of a memory is filled pair by pair, and a pair with a key that is there replaces the value in its
place. So the keys stand in the order in which they came first and have the values that came last. For a
selection of the pairs, by their type, both stay true if no key belongs to pairs of two types; that is the
only condition, `Apart`, and it is about node ids.
-/

namespace Harvest

/-! ## Maps that were filled pair by pair

Facts about maps with values of any kind. -/

namespace Keyed

variable {α β : Type} {key : String} {a : α} {e : String × α} {es pairs : List (String × α)}

theorem put_eq_setBy (key : String) (a : α) (es : List (String × α)) :
    put key a es = setBy Prod.fst (key, a) es := by
  induction es with
  | nil => rfl
  | cons x es ih =>
      rw [put, setBy, ih]
      by_cases hx : x.1 = key <;> simp [hx]

theorem mem_put (h : e ∈ put key a es) : e = (key, a) ∨ e ∈ es := by
  rw [put_eq_setBy] at h
  exact mem_setBy h

theorem mem_of_find (h : find key es = some a) : (key, a) ∈ es := by
  induction es with
  | nil => cases h
  | cons x es ih =>
      rw [find] at h
      split at h
      next hx =>
        cases h
        exact hx ▸ List.mem_cons_self
      next => exact List.mem_cons_of_mem x (ih h)

/-- A selection of values that leaves no key in doubt may be made before or after one is set. -/
theorem filter_put {P : α → Bool} (h : ∀ x ∈ es, x.1 = key → P x.2 = P a) :
    (put key a es).filter (fun x => P x.2)
      = if P a then put key a (es.filter fun x => P x.2) else es.filter fun x => P x.2 := by
  induction es with
  | nil => cases hp : P a <;> simp [put, hp]
  | cons x es ih =>
      have ih := ih fun y hy => h y (List.mem_cons_of_mem x hy)
      by_cases hx : x.1 = key
      · have hsame : P x.2 = P a := h x List.mem_cons_self hx
        cases hp : P a <;> simp [put, hx, hp, hsame]
      · cases hp : P a <;> cases hpx : P x.2 <;> simp_all [put]

theorem ofList_concat (pairs : List (String × α)) (key : String) (a : α) :
    ofList (pairs ++ [(key, a)]) = (ofList pairs).insert key a := by
  rw [ofList, List.foldl_append]
  rfl

theorem mem_of_mem_ofList (h : e ∈ (ofList pairs).entries) : e ∈ pairs := by
  induction pairs using List.reverseRecOn with
  | nil => exact h
  | append_singleton pairs p ih =>
      rw [ofList_concat] at h
      rcases mem_put h with rfl | h
      · exact List.mem_append_right pairs List.mem_cons_self
      · exact List.mem_append_left [p] (ih h)

theorem nodup_keys_ofList (pairs : List (String × α)) : (ofList pairs).keys.Nodup := by
  induction pairs using List.reverseRecOn with
  | nil => exact List.nodup_nil
  | append_singleton pairs p ih =>
      have hentries : (ofList (pairs ++ [p])).entries = setBy Prod.fst p (ofList pairs).entries := by
        rw [ofList_concat]
        exact put_eq_setBy p.1 p.2 (ofList pairs).entries
      rw [keys, hentries]
      exact nodup_setBy ih

/-- A key leads to the value of an entry under it. -/
theorem get?_ofList_eq_some : (ofList pairs).get? key = some a ↔ (key, a) ∈ (ofList pairs).entries :=
  ⟨mem_of_find, find_of_mem (nodup_keys_ofList pairs)⟩

/-- **A key leads to the last value that was set under it.** -/
theorem get?_ofList_eq_getLast? (pairs : List (String × α)) (key : String) :
    (ofList pairs).get? key = (pairs.filter (·.1 == key)).getLast?.map (·.2) := by
  induction pairs using List.reverseRecOn with
  | nil => rfl
  | append_singleton pairs p ih =>
      rw [ofList_concat, get?_insert, List.filter_append]
      by_cases hp : key = p.1
      · simp [hp]
      · have hp' : (p.1 == key) = false := by simpa using fun h : p.1 = key => hp h.symm
        rw [if_neg hp, ih, List.filter_cons_of_neg (by simp [hp'])]
        simp

/-- A selection of values that leaves no key in doubt may be made before or after all are set. -/
theorem filter_ofList {P : α → Bool}
    (h : ∀ x ∈ pairs, ∀ y ∈ pairs, x.1 = y.1 → P x.2 = P y.2) :
    (ofList pairs).entries.filter (fun x => P x.2)
      = (ofList (pairs.filter fun x => P x.2)).entries := by
  induction pairs using List.reverseRecOn with
  | nil => rfl
  | append_singleton pairs p ih =>
      have hleft {x : String × α} (hx : x ∈ pairs) : x ∈ pairs ++ [p] := List.mem_append_left [p] hx
      have ih := ih fun x hx y hy => h x (hleft hx) y (hleft hy)
      have hlast : p ∈ pairs ++ [p] := List.mem_append_right pairs List.mem_cons_self
      have hentries : (ofList (pairs ++ [p])).entries = put p.1 p.2 (ofList pairs).entries :=
        congrArg entries (ofList_concat pairs p.1 p.2)
      have hsame : ∀ x ∈ (ofList pairs).entries, x.1 = p.1 → P x.2 = P p.2 :=
        fun x hx => h x (hleft (mem_of_mem_ofList hx)) p hlast
      rw [hentries, filter_put hsame, ih, List.filter_append]
      cases hp : P p.2 with
      | true =>
          have hkept : [p].filter (fun x => P x.2) = [p] := List.filter_cons_of_pos hp
          rw [if_pos rfl, hkept, ofList_concat]
          rfl
      | false =>
          have hdropped : [p].filter (fun x => P x.2) = [] := List.filter_cons_of_neg (by simp [hp])
          rw [if_neg Bool.false_ne_true, hdropped, List.append_nil]

/-! ### Maps of the values -/

theorem map_put (f : α → β) (key : String) (a : α) (es : List (String × α)) :
    (put key a es).map (fun e => (e.1, f e.2)) = put key (f a) (es.map fun e => (e.1, f e.2)) := by
  induction es with
  | nil => rfl
  | cons x es ih =>
      rw [put, List.map_cons, put]
      split
      next => rfl
      next => rw [List.map_cons, ih]

/-- A function of all values may be applied before or after they are set. -/
theorem map_ofList (f : α → β) (pairs : List (String × α)) :
    (ofList pairs).map f = ofList (pairs.map fun e => (e.1, f e.2)) := by
  induction pairs using List.reverseRecOn with
  | nil => rfl
  | append_singleton pairs p ih =>
      rw [List.map_append, List.map_singleton, ofList_concat, ofList_concat, ← ih]
      exact congrArg Keyed.mk (map_put f p.1 p.2 (ofList pairs).entries)

end Keyed

/-! ## What a memory keeps

The map of nodes against the list of all records that were handed over. -/

/-- The last of some records that goes by a node id. -/
def EntityRecord.last? (id : String) (rs : List EntityRecord) : Option EntityRecord :=
  (rs.filter (·.nodeId == id)).getLast?

theorem EntityRecord.exists_last? {r : EntityRecord} {rs : List EntityRecord} (h : r ∈ rs) :
    ∃ e, last? r.nodeId rs = some e := by
  have hmem : r ∈ rs.filter (·.nodeId == r.nodeId) := List.mem_filter.mpr ⟨h, beq_self_eq_true _⟩
  have hsome := List.getLast?_isSome.mpr (List.ne_nil_of_mem hmem)
  exact Option.isSome_iff_exists.mp hsome

namespace NodeMemory

variable {m : NodeMemory} {handed : List (NodeDefinition × EntityRecord)} {d : NodeDefinition}
  {r : EntityRecord}

/-- Whether a memory keeps what is left of some records, each under its node id and in the place of the
earlier one with the same id, and has counted all of them. -/
structure Keeps (m : NodeMemory) (handed : List (NodeDefinition × EntityRecord)) : Prop where
  nodes_eq : m.nodes = .ofList (handed.map fun x => (x.2.nodeId, x))
  emitted_eq : m.emitted = handed.length

theorem keeps_empty : empty.Keeps [] := ⟨rfl, rfl⟩

theorem Keeps.declare (h : m.Keeps handed) (d : NodeDefinition) : (m.declare d).Keeps handed :=
  ⟨h.nodes_eq, h.emitted_eq⟩

/-- **A record that is received is kept.** -/
theorem Keeps.emit (h : m.Keeps handed) (d : NodeDefinition) (r : EntityRecord) :
    (m.emit d r).Keeps (handed ++ [(d, r)]) where
  nodes_eq := by
    rw [List.map_append, List.map_singleton, Keyed.ofList_concat, ← h.nodes_eq]
    rfl
  emitted_eq := by
    rw [emitted_emit, h.emitted_eq, List.length_append, List.length_singleton]

/-! ### Records of one type

Records of other types do not matter to those of one, as long as no two types share an id. -/

/-- Whether records of different types never share a node id. -/
def Apart (handed : List (NodeDefinition × EntityRecord)) : Prop :=
  ∀ x ∈ handed, ∀ y ∈ handed, x.2.nodeId = y.2.nodeId → x.1.typeName = y.1.typeName

namespace Keeps

/-- An id leads to the last record that goes by it. -/
theorem get?_eq (h : m.Keeps handed) (id : String) :
    m.nodes.get? id = (handed.filter (·.2.nodeId == id)).getLast? := by
  rw [h.nodes_eq, Keyed.get?_ofList_eq_getLast?, List.filter_map, List.getLast?_map, Option.map_map]
  exact Option.map_id'

/-- The records of a type are those that are stored for it. -/
theorem mem_records (h : m.Keeps handed) (typeName : String) :
    r ∈ m.records (some typeName) ↔
      ∃ d, d.typeName = typeName ∧ m.nodes.get? r.nodeId = some (d, r) := by
  have hentry {x : NodeDefinition × EntityRecord} (hx : x ∈ m.nodes.values) :
      m.nodes.get? x.2.nodeId = some x := by
    obtain ⟨⟨k, y⟩, he, rfl⟩ := List.mem_map.mp hx
    rw [h.nodes_eq] at he ⊢
    obtain ⟨z, -, hz⟩ := List.mem_map.mp (Keyed.mem_of_mem_ofList he)
    cases hz
    exact Keyed.get?_ofList_eq_some.mpr he
  constructor
  · intro hr
    obtain ⟨x, hx, rfl⟩ := List.mem_map.mp hr
    obtain ⟨hmem, htype⟩ := List.mem_filter.mp hx
    exact ⟨x.1, (beq_iff_eq.mp htype).symm, hentry hmem⟩
  · rintro ⟨d, rfl, hget⟩
    have hmem : (d, r) ∈ m.nodes.values := List.mem_map.mpr ⟨_, Keyed.mem_of_find hget, rfl⟩
    exact List.mem_map.mpr ⟨_, List.mem_filter.mpr ⟨hmem, beq_self_eq_true _⟩, rfl⟩

/-- **The records of a type are kept as if there were no others**, in the order in which their ids came. -/
theorem records_eq (h : m.Keeps handed) (happart : Apart handed) (typeName : String) :
    m.records (some typeName)
      = (Keyed.ofList ((handed.filter (·.1.typeName == typeName)).map fun x => (x.2.nodeId, x.2))).values := by
  have hsame : ∀ x ∈ handed.map (fun x => (x.2.nodeId, x)), ∀ y ∈ handed.map (fun x => (x.2.nodeId, x)),
      x.1 = y.1 → (x.2.1.typeName == typeName) = (y.2.1.typeName == typeName) := by
    intro x hx y hy hid
    obtain ⟨x', hx', rfl⟩ := List.mem_map.mp hx
    obtain ⟨y', hy', rfl⟩ := List.mem_map.mp hy
    rw [happart x' hx' y' hy' hid]
  have hstored := Keyed.filter_ofList (P := fun x : NodeDefinition × EntityRecord =>
    x.1.typeName == typeName) hsame
  rw [← h.nodes_eq, List.filter_map] at hstored
  calc
    m.records (some typeName)
      = ((m.nodes.values.filter fun x => x.1.typeName == typeName).map (·.2)) := by
        rw [records]
        exact congrArg _ (List.filter_congr fun x _ => BEq.comm)
    _ = ((m.nodes.entries.filter fun e => e.2.1.typeName == typeName).map (·.2)).map (·.2) := by
        rw [Keyed.values, List.filter_map]
        rfl
    _ = (Keyed.map (.ofList ((handed.filter (·.1.typeName == typeName)).map
          fun x => (x.2.nodeId, x))) (·.2)).values := by
        rw [hstored, Keyed.values, Keyed.map, List.map_map, List.map_map]
        rfl
    _ = _ := by
        rw [Keyed.map_ofList, List.map_map]
        rfl

end Keeps

end NodeMemory

end Harvest
