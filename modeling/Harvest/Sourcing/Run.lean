import Harvest.Sourcing.Task

/-!
# Runs

A run holds one task for each type, and permits for as many of them as may be under way at a time. A
task needs a permit to begin and gives it back when it is done. `Run.act` moves one task: which task
moves when is left open, so that a list of task numbers stands for one of the ways in which tasks may
interleave.
-/

namespace Harvest

/-- Tasks under way. -/
structure Run (σ : Type) where
  tasks : List Task
  /-- The permits that no task holds. -/
  free : Nat
  world : σ

namespace Run

variable {σ : Type}

/-- A run before its first step. -/
def start (definitions : List NodeDefinition) (permits : Nat) (s : σ) : Run σ :=
  { tasks := definitions.map .fresh, free := permits, world := s }

/-- The run in which a task has moved, with so many permits besides its own. -/
def settle (r : Run σ) (i : Nat) (free : Nat) (moved : Task × σ) : Run σ :=
  { tasks := r.tasks.set i moved.1
    free := if moved.1.isDone then free + 1 else free
    world := moved.2 }

/-- Moves a task, if it can move. -/
def act (site : Site σ) (paging : PagingStrategy) (r : Run σ) (i : Nat) : Run σ :=
  match r.tasks[i]? with
  | none => r
  | some t =>
    match t.phase with
    | .waiting =>
      match r.free with
      | 0 => r
      | free + 1 => r.settle i free (t.start site paging r.world)
    | .asking w a => r.settle i r.free (t.resume site paging w a r.world)
    | _ => r

/-- Moves tasks in a given order. -/
def acts (site : Site σ) (paging : PagingStrategy) (r : Run σ) (order : List Nat) : Run σ :=
  order.foldl (act site paging) r

def asking (r : Run σ) : Nat := (r.tasks.filter Task.isAsking).length

@[simp] theorem acts_nil (site : Site σ) (paging : PagingStrategy) (r : Run σ) :
    r.acts site paging [] = r := rfl

@[simp] theorem acts_cons (site : Site σ) (paging : PagingStrategy) (r : Run σ) (i : Nat)
    (order : List Nat) :
    r.acts site paging (i :: order) = (r.act site paging i).acts site paging order := rfl

/-- No task is lost or added. -/
theorem length_tasks_act (site : Site σ) (paging : PagingStrategy) (r : Run σ) (i : Nat) :
    (r.act site paging i).tasks.length = r.tasks.length := by
  unfold act
  split
  · rfl
  · split
    · split <;> simp [settle]
    · simp [settle]
    · rfl

end Run

end Harvest
