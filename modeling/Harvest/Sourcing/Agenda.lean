import Harvest.Sourcing.Run

/-!
# Agendas

An agenda settles which task of a run moves next: the first in a queue. A task that sent a request goes
on at once if requests are answered at once, and goes to the end of the queue otherwise. Tasks that
found no permit wait for one in the order in which they came. A crash ends the run two places in the
queue later, and tasks before that still move.
-/

namespace Harvest

/-- What comes up in a queue. -/
inductive Item where
  | task (i : Nat)
  /-- A crash comes to notice. -/
  | crash (e : Failure)
  /-- The run ends because of a crash. -/
  | stop (e : Failure)
  deriving Repr

/-- What is to happen in a run. -/
structure Agenda where
  queue : List Item
  /-- The tasks that wait for a permit. -/
  queued : List Nat
  /-- The most tasks that have waited for an answer at once. -/
  peak : Nat
  deriving Repr

namespace Agenda

/-- The agenda of a run with so many tasks. -/
def start (tasks : Nat) : Agenda := { queue := (List.range tasks).map .task, queued := [], peak := 0 }

/-- Lets the first of the tasks that wait for a permit move. -/
def wake (a : Agenda) : Agenda :=
  match a.queued with
  | [] => a
  | i :: rest => { a with queue := a.queue ++ [.task i], queued := rest }

def after (a : Agenda) (suspends : Bool) (i : Nat) (phase : Phase) : Agenda :=
  match phase with
  | .waiting => { a with queued := a.queued ++ [i] }
  | .asking .. =>
    { a with queue := if suspends then a.queue ++ [.task i] else .task i :: a.queue }
  | .crashed e =>
    let a := a.wake
    { a with queue := a.queue ++ [.crash e] }
  | _ => a.wake

variable {σ : Type}

/-- Works an agenda off. Without enough fuel there is no result. -/
def run (site : Site σ) (paging : PagingStrategy) (suspends : Bool) :
    Nat → Agenda → Run σ → Option (Except Failure Unit) × Agenda × Run σ
  | 0, a, r => (none, a, r)
  | fuel + 1, a, r =>
    match a.queue with
    | [] => (some (.ok ()), a, r)
    | .stop e :: _ => (some (.error e), a, r)
    | .crash e :: rest => run site paging suspends fuel { a with queue := rest ++ [.stop e] } r
    | .task i :: rest =>
      let r := r.act site paging i
      let a := { a with queue := rest, peak := max a.peak r.asking }
      match r.tasks[i]? with
      | some t => run site paging suspends fuel (a.after suspends i t.phase) r
      | none => run site paging suspends fuel a r

end Agenda

end Harvest
