import Harvest.Sourcing.Agenda
import Harvest.Sourcing.Plan

/-!
# Sourcing

A run makes a plan, announces the types that have a document, and walks through all pages of all of
them. From then on a failure stays with its type: the report tells how each of them ended.
-/

namespace Harvest

namespace Plan

/-- The report on a type: what its task tells, or why it has none. -/
def reportOn (p : Plan) (tasks : List Task) (d : Descriptor) : TypeReport :=
  match tasks.find? fun t => t.definition.typeName = d.typeName, p.skipped.lookup d.typeName with
  | some t, _ => t.entry
  | none, some reason => .leftOut d.typeName reason
  | none, none => .fresh d.typeName

def report (p : Plan) (tasks : List Task) (cancelled : Bool) : Report :=
  { types := p.descriptors.map (p.reportOn tasks), cancelled }

end Plan

namespace Sourcing

/-- How requests are answered, and how many steps a run may take. -/
structure Pace where
  /-- Whether other tasks move while a request is under way. -/
  suspends : Bool
  fuel : Nat

/-- How a run ended: nothing if it did not end within its steps. -/
structure Outcome (α : Type) where
  result : Option (Except Failure α)
  /-- The most requests for pages that were under way at once. -/
  peak : Nat

variable {σ π : Type}

/-- Walks through all pages of a plan. -/
def source [Paging π] (site : Site σ) (pace : Pace) (o : Order π) (p : Plan) (s : σ) : Outcome Report × σ :=
  let definitions := p.nodes.values
  match site.declareAll definitions s with
  | (.error f, s) => ({ result := some (.error (.fault f)), peak := 0 }, s)
  | (.ok _, s) =>
    let (ended, agenda, r) := Agenda.run site o.walking pace.suspends pace.fuel
      (Agenda.start definitions.length) (Run.start definitions o.config.concurrency.toNat s)
    let report := p.report r.tasks (site.cancelled r.world)
    ({ result := ended.map (·.map fun _ => report), peak := agenda.peak }, r.world)

/-- Makes a plan and carries it out. -/
def run [Paging π] (site : Site σ) (pace : Pace) (o : Order π) (s : σ) : Outcome Report × σ :=
  match Plan.prepare site o s with
  | (.error e, s) => ({ result := some (.error e), peak := 0 }, s)
  | (.ok p, s) => source site pace o p s

/-- Whether a run gets as far as to connect to the remote. -/
def connects (o : Order π) : Bool := o.preflight.isOk

end Sourcing

end Harvest
