import Harvest.Sourcing

/-!
# Traces

A run acts on its surroundings in four ways: it puts a changed cache of fragments in place, announces
types, sends requests and hands over records. `Site.traced` is a site that also keeps a list of all this,
in order, with the answers that came. Tracing changes nothing else: `Sourcing.source_traced` says that a
traced run ends like the run itself and leaves the same world behind.

Between two requests a task does not pause, so what happens is a list of moves of tasks. `Task.move` is
one of them, and `Task.effects` is what it does.

A trace is a plain list, and what is asked of it are its requests, the records of a type and how many
records there are. All three are computed piece by piece, and the equations for the pieces that occur, a
request with its answer and the records of a page, are used by `simp` throughout.
-/

namespace Harvest

/-- The languages of a type. -/
def NodeDefinition.languages (d : NodeDefinition) : List String := d.descriptor.languages

/-- Whether a request is one of an operation of a type. -/
def Request.IsOf (r : Request) (d : NodeDefinition) : Prop :=
  r.query = d.document.text
    ∧ ∃ l ∈ d.languages, r.operationName = d.document.operations.get? l

/-- What a run does to its surroundings. -/
inductive Effect where
  | declared (d : NodeDefinition)
  | asked (r : Request) (a : Answer)
  | emitted (d : NodeDefinition) (r : EntityRecord)
  | kept (c : FragmentCache)

namespace Effect

/-- The request that was sent. -/
def request? : Effect → Option Request
  | asked r _ => some r
  | _ => none

/-- The record that was handed over, if it is one of a type. -/
def record? (typeName : String) : Effect → Option EntityRecord
  | emitted d r => if d.typeName = typeName then some r else none
  | _ => none

/-- Whether a record was handed over. -/
def isEmission : Effect → Bool
  | emitted .. => true
  | _ => false

end Effect

/-- The effects of a run, in order. -/
abbrev Trace := List Effect

namespace Trace

/-- The requests of a trace. -/
def requests (log : Trace) : List Request := log.filterMap Effect.request?

/-- The records of a type that were handed over. -/
def received (typeName : String) (log : Trace) : List EntityRecord :=
  log.filterMap (Effect.record? typeName)

/-- The number of records that were handed over. -/
def emissions (log : Trace) : Nat := log.countP Effect.isEmission

@[simp] theorem requests_nil : requests [] = [] := rfl

@[simp] theorem received_nil (t : String) : received t [] = [] := rfl

@[simp] theorem emissions_nil : emissions [] = 0 := rfl

@[simp] theorem requests_append (log more : Trace) :
    requests (log ++ more) = requests log ++ requests more := List.filterMap_append

@[simp] theorem received_append (t : String) (log more : Trace) :
    received t (log ++ more) = received t log ++ received t more := List.filterMap_append

@[simp] theorem emissions_append (log more : Trace) :
    emissions (log ++ more) = emissions log + emissions more := List.countP_append

@[simp] theorem requests_asked (r : Request) (a : Answer) (log : Trace) :
    requests (.asked r a :: log) = r :: requests log := rfl

@[simp] theorem received_asked (t : String) (r : Request) (a : Answer) (log : Trace) :
    received t (.asked r a :: log) = received t log := rfl

@[simp] theorem emissions_asked (r : Request) (a : Answer) (log : Trace) :
    emissions (.asked r a :: log) = emissions log := rfl

/-- To hand over records is no request. -/
@[simp] theorem requests_emitted (d : NodeDefinition) (rs : List EntityRecord) :
    requests (rs.map (.emitted d)) = [] := by
  induction rs with
  | nil => rfl
  | cons r rs ih => exact ih

/-- The records that are handed over of a type are all of them. -/
@[simp] theorem received_emitted (d : NodeDefinition) (rs : List EntityRecord) :
    received d.typeName (rs.map (.emitted d)) = rs := by
  induction rs with
  | nil => rfl
  | cons r rs ih =>
      have h : Effect.record? d.typeName (.emitted d r) = some r := by simp [Effect.record?]
      rw [List.map_cons, received, List.filterMap_cons_some h]
      exact congrArg (r :: ·) ih

@[simp] theorem emissions_emitted (d : NodeDefinition) (rs : List EntityRecord) :
    emissions (rs.map (.emitted d)) = rs.length := by
  induction rs with
  | nil => rfl
  | cons r rs ih =>
      rw [List.map_cons, emissions, List.countP_cons_of_pos rfl, List.length_cons]
      exact congrArg (· + 1) ih

end Trace

variable {σ : Type}

namespace Site

/-- The site that keeps a list of what is done on it. -/
def traced (site : Site σ) : Site (σ × Trace) where
  ask r := fun (s, log) => ((site.ask r s).1, ((site.ask r s).2, log ++ [.asked r (site.ask r s).1]))
  cancelled x := site.cancelled x.1
  declare d x := ((site.declare d x.1).1, ((site.declare d x.1).2, x.2 ++ [.declared d]))
  emit d r x := (site.emit d r x.1, x.2 ++ [.emitted d r])
  cache x := site.cache x.1
  keep c x := (site.keep c x.1, x.2 ++ [.kept c])

/-- On the traced site the records are added to the list, one by one. -/
theorem emitAll_traced (site : Site σ) (d : NodeDefinition) (rs : List EntityRecord) (s : σ)
    (log : Trace) :
    site.traced.emitAll d rs (s, log) = (site.emitAll d rs s, log ++ rs.map (.emitted d)) := by
  induction rs generalizing s log with
  | nil => simp
  | cons r rs ih =>
      rw [emitAll_cons, emitAll_cons, List.map_cons]
      show site.traced.emitAll d rs (site.emit d r s, log ++ [.emitted d r]) = _
      rw [ih, List.append_assoc]
      rfl

end Site

end Harvest
