import Harvest.Paging.Walk
import Harvest.Sourcing.Report
import Harvest.Sourcing.Site

/-!
# Tasks

A task sources one type: it walks through its languages, one after the other. Between two requests it
does not pause, so a task moves in two ways only. `Task.start` brings it to its first request, and
`Task.resume` takes an answer and brings it to the next request or to its end.
-/

namespace Harvest

inductive Phase where
  /-- It has not begun. -/
  | waiting
  /-- It is done with a language. -/
  | between
  /-- It has sent a request of a walk, which will be answered so. -/
  | asking (w : Walk) (a : Answer)
  | ended
  /-- It has met a failure that no report can hold. -/
  | crashed (e : Failure)

/-- The sourcing of one type. -/
structure Task where
  definition : NodeDefinition
  /-- The languages after the current one. -/
  languages : List String
  entry : TypeReport
  phase : Phase

namespace Task

/-- The task of a type before its first step. -/
def fresh (d : NodeDefinition) : Task :=
  { definition := d, languages := d.descriptor.languages, entry := .fresh d.typeName,
    phase := .waiting }

/-- Whether a task has come to its end, in one way or another. -/
def isDone (t : Task) : Bool :=
  match t.phase with
  | .ended => true
  | .crashed _ => true
  | _ => false

def isAsking (t : Task) : Bool :=
  match t.phase with
  | .asking .. => true
  | _ => false

/-- The task after a walk. A page that was not fetched ends only its language. -/
def conclude (t : Task) : Except Failure Unit → Task
  | .ok _ => { t with phase := .between }
  | .error e =>
    match e with
    | .fetch .. => { t with entry := t.entry.withError e.message, phase := .between }
    | .cancelled .. => { t with entry := { t.entry with status := .cancelled }, phase := .ended }
    | e => { t with phase := .crashed e }

/-- The task after its last language. -/
def close (t : Task) : Task := { t with entry := t.entry.closed, phase := .ended }

variable {σ : Type}

/-- Goes on with a walk: to its next request, or to its end. -/
def follow (site : Site σ) (t : Task) (w : Walk) (s : σ) : Task × σ :=
  match w.turn (site.cancelled s) with
  | .finished => (t.conclude (.ok ()), s)
  | .failed e => (t.conclude (.error e), s)
  | .ask r =>
    let (a, s) := site.ask r s
    ({ t with phase := .asking w a }, s)

/-- Begins with a language: its walk comes to a request, or to its end. -/
def beginWalk (site : Site σ) (paging : PagingStrategy) (t : Task) (l : String) (s : σ) : Task × σ :=
  match Walk.begin t.definition.document l paging with
  | .ok w => follow site t w s
  | .error e => (t.conclude (.error e), s)

def beginLanguages (site : Site σ) (paging : PagingStrategy) (t : Task) :
    List String → σ → Task × σ
  | [], s => (t.close, s)
  | l :: ls, s =>
    let (t, s) := beginWalk site paging { t with languages := ls } l s
    match t.phase with
    | .between => beginLanguages site paging t ls s
    | _ => (t, s)

def start (site : Site σ) (paging : PagingStrategy) (t : Task) (s : σ) : Task × σ :=
  beginLanguages site paging t t.languages s

def resume (site : Site σ) (paging : PagingStrategy) (t : Task) (w : Walk) (a : Answer) (s : σ) :
    Task × σ :=
  let (records, after) := w.receive a
  let s := site.emitAll t.definition records s
  let t := { t with entry := t.entry.withRecords records.length }
  let (t, s) :=
    match after with
    | .ok w => follow site t w s
    | .error e => (t.conclude (.error e), s)
  match t.phase with
  | .between => beginLanguages site paging t t.languages s
  | _ => (t, s)

@[simp] theorem beginLanguages_nil (site : Site σ) (paging : PagingStrategy) (t : Task) (s : σ) :
    beginLanguages site paging t [] s = (t.close, s) := rfl

end Task

end Harvest
