import Harvest.GraphQL.Validation.Scope
import Harvest.GraphQL.Validation.Spreads
import Harvest.GraphQL.Validation.Violation

/-!
# Overlapping fields

Fields with one response key end up in one place of the answer, so they have to agree: on the field and
its arguments, unless they belong to different object types, and in any case on the shape of their
type. This is compared within each selection set, between it and the fragments that it spreads, and
between those fragments. What inline fragments select belongs to the set around them.

A selection set and a fragment, and two fragments, are compared once in a document, which also ends the
search where fragments are spread in a circle.
-/

namespace Harvest.GraphQL

namespace Overlap

/-- The place of a selection set: the number of its definition and, last one first, those of the
selections that lead to it. -/
abbrev Place := List Nat

/-- A field that is selected: the composite type around it, the field, and its definition. -/
structure Selected where
  /-- The place of its own selections. -/
  place : Place
  parent : Option TypeDef
  name : String
  arguments : List Argument
  selections : List Selection
  type : Option TypeRef
  deriving Repr

/-- The fields of a selection set by response key, and the fragments it spreads. -/
structure Level where
  fields : List (String × List Selected)
  spreads : List String
  place : Place
  deriving Repr

def put (key : String) (f : Selected) : List (String × List Selected) → List (String × List Selected)
  | [] => [(key, [f])]
  | (k, fs) :: rest => if k = key then (k, fs ++ [f]) :: rest else (k, fs) :: put key f rest

mutual

def gather (s : Schema) (parent : Option TypeDef) (place : Place) (l : Level) : Selection → Level
  | .field label name args _ inner =>
    let type := (parent.bind (·.field? name)).map Field.type
    let selected : Selected := { place, parent, name, arguments := args, selections := inner, type }
    { l with fields := put (Selection.responseKey label name) selected l.fields }
  | .spread n _ => if l.spreads.contains n then l else { l with spreads := l.spreads ++ [n] }
  | .inline on _ inner =>
    let parent := match on with
      | some n => s.type? n
      | none => parent
    gatherAll s parent place 0 l inner

/-- Adds selections of the set at a place to a level; the first of them has number `i` there. -/
def gatherAll (s : Schema) (parent : Option TypeDef) (place : Place) (i : Nat) (l : Level) :
    List Selection → Level
  | [] => l
  | x :: xs => gatherAll s parent place (i + 1) (gather s parent (i :: place) l x) xs

end

def level (s : Schema) (parent : Option TypeDef) (place : Place) (ss : List Selection) : Level :=
  gatherAll s parent place 0 { fields := [], spreads := [], place } ss

def fragmentLevel? (s : Schema) (d : Document) (name : String) : Option Level :=
  (Document.lastFragment? d name).map fun (i, f) => level s (s.type? f.on) [i] f.selections

/-! ### Comparing two fields -/

/-- Whether two types differ in shape: in their wrappers, or in a scalar or enum. -/
def typesConflict (s : Schema) : TypeRef → TypeRef → Bool
  | .list a, .list b => typesConflict s a b
  | .nonNull a, .nonNull b => typesConflict s a b
  | .named a, .named b =>
    let isLeaf (n : String) : Bool := (s.type? n).any TypeDef.isLeaf
    (isLeaf a || isLeaf b) && a != b
  | _, _ => true

mutual

/-- A literal with the fields of its objects in natural order. -/
def sorted : Literal → Literal
  | .object fields =>
    .object ((sortedFields fields).mergeSort fun a b => Suggestion.naturalOrder a.1 b.1 != .gt)
  | .list items => .list (sortedItems items)
  | l => l

def sortedFields : List (String × Literal) → List (String × Literal)
  | [] => []
  | (n, v) :: rest => (n, sorted v) :: sortedFields rest

def sortedItems : List Literal → List Literal
  | [] => []
  | v :: vs => sorted v :: sortedItems vs

end

/-- Whether two fields have equally many arguments, and all of the first stand among those of the
second. Of several arguments of the second with one name the last counts. -/
def sameArguments (as bs : List Argument) : Bool :=
  as.length == bs.length && as.all fun a =>
    (bs.reverse.find? (·.name == a.name)).any fun b =>
      (sorted a.value).print == (sorted b.value).print

/-- Whether two fields can never be selected of the same object. -/
def exclusive (a b : Selected) : Bool :=
  match a.parent, b.parent with
  | some p, some q => p.isObject && q.isObject && p.name != q.name
  | _, _ => false

/-- The conflict between two fields that shows without their sub-selections. -/
def plainConflict? (s : Schema) (excluded : Bool) (a b : Selected) : Option Conflict :=
  if !excluded && a.name != b.name then some (.differentFields a.name b.name)
  else if !excluded && !sameArguments a.arguments b.arguments then
    some .differingArguments
  else
    match a.type, b.type with
    | some t, some u => if typesConflict s t u then some (.differentTypes t u) else none
    | _, _ => none

/-! ### The search -/

/-- A comparison that need not be made twice. -/
inductive Comparison where
  | withFragment (level : Place) (name : String)
  | fragments (first second : String)
  deriving DecidableEq, Repr

/-- The comparison of two fragments, whatever their order. -/
def Comparison.between (a b : String) : Comparison :=
  if a < b then .fragments a b else .fragments b a

/-- The comparisons that have been made, the latest first, and whether of mutually exclusive fields. -/
abbrev Compared := List (Comparison × Bool)

def Compared.has (made : Compared) (c : Comparison) (excluded : Bool) : Bool :=
  (made.find? (·.1 == c)).any fun m => excluded || !m.2

/-- A conflict under a response key. -/
abbrev Found := String × Conflict

/-- A search that remembers which comparisons were made. -/
abbrev Search (α : Type) := StateM Compared α

/-- Notes that a comparison is made; whether it was not made before. -/
def isNew (c : Comparison) (excluded : Bool) : Search Bool := do
  if Compared.has (← get) c excluded then return false
  else
    modify ((c, excluded) :: ·)
    return true

inductive Task where
  /-- Two fields with one response key. -/
  | fields (excluded : Bool) (key : String) (a b : Selected)
  /-- All fields of two levels with equal response keys. -/
  | levels (excluded : Bool) (a b : Level)
  /-- The fields of a level and a fragment. -/
  | withFragment (excluded : Bool) (a : Level) (name : String)
  /-- Two fragments. -/
  | fragments (excluded : Bool) (first second : String)

/-- The pairs of fields of two levels with equal response keys. -/
def sharedPairs (excluded : Bool) (a b : Level) : List Task :=
  a.fields.flatMap fun (key, fs) =>
    match b.fields.find? (·.1 == key) with
    | none => []
    | some (_, gs) => fs.flatMap fun f => gs.map fun g => .fields excluded key f g

/-- The pairs of a list, each element with all later ones. -/
def pairs {α : Type} : List α → List (α × α)
  | [] => []
  | x :: xs => xs.map (fun y => (x, y)) ++ pairs xs

/-- Everything to compare within one level and the fragments that it spreads. -/
def within (l : Level) : List Task :=
  (l.fields.flatMap fun (key, fs) => (pairs fs).map fun (f, g) => .fields false key f g)
    ++ spreads l.spreads
where
  /-- Each fragment with the fields and with all later fragments. -/
  spreads : List String → List Task
    | [] => []
    | n :: ns => .withFragment false l n :: ns.map (.fragments false n) ++ spreads ns

/-- Everything to compare between two levels. -/
def between (excluded : Bool) (a b : Level) : List Task :=
  .levels excluded a b :: b.spreads.map (.withFragment excluded a)
    ++ a.spreads.map (.withFragment excluded b)
    ++ a.spreads.flatMap fun m => b.spreads.map (.fragments excluded m)

/-- Carries out tasks in order. The fuel bounds the depth of the search. -/
def search (s : Schema) (d : Document) : Nat → List Task → Search (List Found)
  | 0, _ => pure []
  | _ + 1, [] => pure []
  | fuel + 1, task :: tasks => do
    let found ← match task with
      | .fields excluded key a b =>
        let excluded := excluded || exclusive a b
        match plainConflict? s excluded a b with
        | some c => pure [(key, c)]
        | none =>
          if a.selections.isEmpty || b.selections.isEmpty then pure []
          else
            let below (x : Selected) : Level :=
              level s (x.type.bind s.base?) x.place x.selections
            let inner ← search s d fuel (between excluded (below a) (below b))
            pure (if inner.isEmpty then [] else [(key, .subfields inner)])
      | .levels excluded a b => search s d fuel (sharedPairs excluded a b)
      | .withFragment excluded a name =>
        if ← isNew (.withFragment a.place name) excluded then
          match fragmentLevel? s d name with
          | none => pure []
          | some b =>
            if a.place == b.place then pure []
            else search s d fuel (.levels excluded a b :: b.spreads.map (.withFragment excluded a))
        else pure []
      | .fragments excluded m n =>
        if m == n then pure []
        else if ← isNew (.between m n) excluded then
          match fragmentLevel? s d m, fragmentLevel? s d n with
          | some a, some b =>
            search s d fuel (.levels excluded a b :: b.spreads.map (.fragments excluded m)
              ++ a.spreads.map fun k => .fragments excluded k n)
          | _, _ => pure []
        else pure []
    return found ++ (← search s d fuel tasks)

def bound (d : Document) : Nat :=
  let size := Spreads.documentSize d
  size * size * size

/-- The conflicts that the selection set at a place brings. -/
def conflicts (s : Schema) (d : Document) (parent : Option TypeDef) (place : Place)
    (ss : List Selection) : Search (List Violation) := do
  let found ← search s d (bound d) (within (level s parent place ss))
  return found.map fun (key, c) => .conflict key c

end Overlap

end Harvest.GraphQL
