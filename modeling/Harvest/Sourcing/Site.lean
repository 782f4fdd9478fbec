import Harvest.Entity.DataFragment
import Harvest.Entity.Record
import Harvest.Entity.CompiledDocument
import Harvest.Remote

/-!
# The site of a run

All that a run touches: the remote that it asks, the sign that cancels it, the receiver of its records
and the cache of fragments with the disk. They act on one state, so that any of them may have to do
with another: a remote that is cancelled in the middle of a request, or records that are written to the
disk on which fragments lie.
-/

namespace Harvest

/-- What a run works with. -/
structure Site (σ : Type) where
  ask : Executor σ
  /-- Whether the run is to end before its next request. -/
  cancelled : σ → Bool
  /-- Announces a type before its first record. -/
  declare : NodeDefinition → σ → Except Fault Unit × σ
  /-- Receives a record. -/
  emit : NodeDefinition → EntityRecord → σ → σ
  /-- The cache of fragments. -/
  cache : σ → FragmentCache
  /-- Puts a changed cache in place. -/
  keep : FragmentCache → σ → σ

namespace Site

variable {σ : Type}

/-- Receives several records of one type. -/
def emitAll (site : Site σ) (d : NodeDefinition) (records : List EntityRecord) (s : σ) : σ :=
  records.foldl (fun s r => site.emit d r s) s

/-- Announces types one after the other. -/
def declareAll (site : Site σ) : List NodeDefinition → σ → Except Fault Unit × σ
  | [], s => (.ok (), s)
  | d :: ds, s =>
    match site.declare d s with
    | (.ok _, s) => site.declareAll ds s
    | (.error f, s) => (.error f, s)

@[simp] theorem emitAll_nil (site : Site σ) (d : NodeDefinition) (s : σ) :
    site.emitAll d [] s = s := rfl

@[simp] theorem emitAll_cons (site : Site σ) (d : NodeDefinition) (r : EntityRecord)
    (rs : List EntityRecord) (s : σ) :
    site.emitAll d (r :: rs) s = site.emitAll d rs (site.emit d r s) := rfl

end Site

end Harvest
