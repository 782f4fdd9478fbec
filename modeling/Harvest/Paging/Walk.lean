import Harvest.Entity.CompiledDocument
import Harvest.Entity.Record
import Harvest.Paging.Strategy

/-!
# Walks

A walk goes through all pages of one type in one language, as its paging strategy has it. It alternates
between two steps: `turn` says what comes next, the end or a request, and `receive` takes the answer.
Only one request is under way at a time, because each page says whether there is another one.

`Walk.run` streams records as their pages arrive, `Walk.collect` merges all pages and gives nothing when
one of them fails.
-/

namespace Harvest

structure Walk where
  document : CompiledDocument
  language : String
  state : PageState
  paging : PagingStrategy

/-- What a walk does next. -/
inductive Turn where
  | finished
  | failed (e : Failure)
  | ask (r : Request)
  deriving Repr

namespace Walk

/-- The walk by limit and offset before its first page. -/
def start (document : CompiledDocument) (language : String) (paging : LimitOffset) : Walk :=
  { document, language, state := paging.start, paging := paging.strategy }

/-- The walk by a strategy before its first page, if the strategy has a state for it. -/
def begin (document : CompiledDocument) (language : String) (paging : PagingStrategy) :
    Except Failure Walk :=
  match paging.start with
  | .ok state => .ok { document, language, state, paging }
  | .error e => .error e

def request (w : Walk) : Except Fault Request :=
  match w.document.operations.get? w.language with
  | none => .error .entry
  | some name =>
    .ok { query := w.document.text, operationName := some name,
          variableValues := w.state.variableValues }

/-- What comes next. A walk that would go on is cut short when the run is cancelled. -/
def turn (w : Walk) (cancelled : Bool) : Turn :=
  if !w.state.hasNext then .finished
  else if cancelled then .failed (.cancelled w.document.typeName w.language)
  else
    match w.request with
    | .ok r => .ask r
    | .error f => .failed (.fault f)

def fetchFailure (w : Walk) (p : FetchProblem) : Failure :=
  .fetch w.document.typeName w.language w.state.variableValues p

def page (w : Walk) (a : Answer) : Except Failure Value :=
  match a with
  | .failed e => .error (w.fetchFailure (.remote e))
  | .broken f => .error (.fault f)
  | .data v =>
    let field := w.document.queryField
    match v.field? field with
    | none => .error (w.fetchFailure (.missing field))
    | some .null => .error (w.fetchFailure (.null field))
    | some (.object ms) => .ok (.object ms)
    | some _ => .error (w.fetchFailure (.notObject field))

/-- The record of an item, unless the item belongs to another type. -/
def record? (w : Walk) (item : Value) : Option EntityRecord :=
  match item with
  | .object ms =>
    match Members.field? ms "__typename" with
    | some (.str t) =>
      if t = w.document.typeName then
        some { typeName := w.document.typeName, language := w.language, data := ms }
      else none
    | _ => none
  | _ => none

/-- The records of a page. Items of other types count towards the length of the page all the same. -/
def records (w : Walk) (items : List Value) : List EntityRecord := items.filterMap w.record?

def advance (w : Walk) (page : Value) : Except Failure Walk :=
  match w.paging.next w.state page with
  | .ok s => .ok { w with state := s }
  | .error e => .error e

/-- What an answer brings: records, and how the walk goes on after them. -/
def receive (w : Walk) (a : Answer) : List EntityRecord × Except Failure Walk :=
  match w.page a with
  | .error e => ([], .error e)
  | .ok p =>
    match w.paging.items p with
    | .error e => ([], .error e)
    | .ok items => (w.records items, w.advance p)

/-- What an answer brings when pages are merged: the merged pages and how the walk goes on. -/
def merge (w : Walk) (before : Option Value) (a : Answer) : Except Failure (Value × Walk) := do
  let p ← w.page a
  let merged ←
    match before with
    | none => .ok p
    | some b => w.paging.concat b p
  return (merged, ← w.advance p)

end Walk

/-- What surrounds a walk: a remote to ask, a sign that says whether the run is cancelled, and a
receiver of records. All of them act on one state. -/
structure Surroundings (σ : Type) where
  ask : Executor σ
  cancelled : σ → Bool
  emit : EntityRecord → σ → σ

namespace Walk

variable {σ : Type}

/-- Walks through all pages and hands over every record as its page arrives. Without enough fuel there
is no result. -/
def run (around : Surroundings σ) : Nat → Walk → σ → Option (Except Failure Unit) × σ
  | 0, _, s => (none, s)
  | fuel + 1, w, s =>
    match w.turn (around.cancelled s) with
    | .finished => (some (.ok ()), s)
    | .failed e => (some (.error e), s)
    | .ask r =>
      let (a, s) := around.ask r s
      let (records, after) := w.receive a
      let s := records.foldl (fun s x => around.emit x s) s
      match after with
      | .error e => (some (.error e), s)
      | .ok w => run around fuel w s

/-- Walks through all pages and merges them. Without enough fuel there is no result. -/
def collect (around : Surroundings σ) :
    Nat → Option Value → Walk → σ → Option (Except Failure (Option Value)) × σ
  | 0, _, _, s => (none, s)
  | fuel + 1, before, w, s =>
    match w.turn (around.cancelled s) with
    | .finished => (some (.ok before), s)
    | .failed e => (some (.error e), s)
    | .ask r =>
      let (a, s) := around.ask r s
      match w.merge before a with
      | .error e => (some (.error e), s)
      | .ok (v, w) => collect around fuel (some v) w s

end Walk

end Harvest
