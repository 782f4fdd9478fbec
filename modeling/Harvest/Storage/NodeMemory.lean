import Harvest.Entity.CompiledDocument
import Harvest.Entity.Record

/-!
# Nodes in memory

The records of a run, kept under their node ids. A record with an id that is known already takes the
place of the earlier one.
-/

namespace Harvest

structure NodeMemory where
  declared : Keyed NodeDefinition
  nodes : Keyed (NodeDefinition × EntityRecord)
  /-- How many records were received. -/
  emitted : Nat
  deriving Repr, Inhabited

namespace NodeMemory

def empty : NodeMemory := { declared := .empty, nodes := .empty, emitted := 0 }

def declare (m : NodeMemory) (d : NodeDefinition) : NodeMemory :=
  { m with declared := m.declared.insert d.typeName d }

def emit (m : NodeMemory) (d : NodeDefinition) (r : EntityRecord) : NodeMemory :=
  { m with nodes := m.nodes.insert r.nodeId (d, r), emitted := m.emitted + 1 }

def records (m : NodeMemory) (typeName : Option String) : List EntityRecord :=
  (m.nodes.values.filter fun n => typeName.all (· == n.1.typeName)).map (·.2)

/-- After a record was received, its id leads to it and all other ids lead where they did. -/
@[simp] theorem get?_emit (m : NodeMemory) (d : NodeDefinition) (r : EntityRecord) (id : String) :
    (m.emit d r).nodes.get? id = if id = r.nodeId then some (d, r) else m.nodes.get? id := by
  simp [emit]

@[simp] theorem emitted_emit (m : NodeMemory) (d : NodeDefinition) (r : EntityRecord) :
    (m.emit d r).emitted = m.emitted + 1 := rfl

end NodeMemory

end Harvest
