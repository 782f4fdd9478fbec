import Harvest.Data.Keyed

/-!
# Reports

A report says of each type how its sourcing ended and how many records came out of it.
-/

namespace Harvest

/-- How the sourcing of a type stands. -/
inductive Status where
  | pending
  /-- All languages were walked through to their ends. -/
  | complete
  /-- At least one language broke off. -/
  | partly
  /-- The type has no fragment. -/
  | skipped
  | cancelled
  deriving DecidableEq, Repr, Inhabited

/-- The word for a status. -/
def Status.word : Status → String
  | pending => "pending"
  | complete => "complete"
  | partly => "partial"
  | skipped => "skipped"
  | cancelled => "cancelled"

/-- How the sourcing of one type ended. -/
structure TypeReport where
  typeName : String
  status : Status
  emitted : Nat
  errors : List String
  deriving DecidableEq, Repr, Inhabited

namespace TypeReport

def fresh (typeName : String) : TypeReport :=
  { typeName, status := .pending, emitted := 0, errors := [] }

def leftOut (typeName reason : String) : TypeReport :=
  { typeName, status := .skipped, emitted := 0, errors := [reason] }

def withError (r : TypeReport) (message : String) : TypeReport :=
  { r with errors := r.errors ++ [message] }

def withRecords (r : TypeReport) (n : Nat) : TypeReport := { r with emitted := r.emitted + n }

/-- The report at the end: partial exactly if there were errors. -/
def closed (r : TypeReport) : TypeReport :=
  { r with status := if r.errors.isEmpty then .complete else .partly }

def lines (r : TypeReport) : List String :=
  s!"  {r.typeName}: {r.status.word} ({r.emitted})" :: r.errors.map fun e => s!"    - {e}"

end TypeReport

/-- How the sourcing of all types ended. -/
structure Report where
  types : List TypeReport
  cancelled : Bool
  deriving Repr, Inhabited

namespace Report

def withStatus (r : Report) (s : Status) : List String :=
  (r.types.filter (·.status = s)).map (·.typeName)

def totalEmitted (r : Report) : Nat := r.types.foldl (fun n t => n + t.emitted) 0

def count (r : Report) (s : Status) : Nat := (r.withStatus s).length

def summary (r : Report) : String :=
  let head := s!"Sourced {r.totalEmitted} records: {r.count .complete} complete, "
    ++ s!"{r.count .partly} partial, {r.count .skipped} skipped, {r.count .cancelled} cancelled"
  "\n".intercalate (head :: r.types.flatMap TypeReport.lines)

end Report

end Harvest
