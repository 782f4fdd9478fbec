import Harvest.GraphQL.Schema.Standard
import Harvest.GraphQL.Validation.Spreads
import Harvest.GraphQL.Validation.Violation

/-!
# The root of a subscription

A subscription selects a single field. To count what it selects, the directives `@skip` and `@include`
are evaluated without any values for variables; one that cannot be evaluated leaves the whole document
without a verdict.
-/

namespace Harvest.GraphQL

/-- Why a condition on a selection cannot be evaluated. -/
inductive ConditionError where
  | absent
  | unknownVariable (name : String)
  | null
  | notBoolean (value : Literal)
  deriving Repr

def ConditionError.message : ConditionError → String
  | absent => "Argument 'if' of required type 'Boolean!' was not provided."
  | unknownVariable n =>
    s!"Argument 'if' of required type 'Boolean!' was provided the variable '${n}'"
      ++ " which was not provided a runtime value."
  | null => "Argument 'if' of non-null type 'Boolean!' must not be null."
  | notBoolean l => s!"Argument 'if' has invalid value {l.print}."

namespace Roots

/-- The condition that a directive gives. The first directive of a name counts, and the last of its
arguments. -/
def condition? (directive : String) (ds : List Directive) : Except ConditionError (Option Bool) :=
  match ds.find? (·.name == directive) with
  | none => .ok none
  | some d =>
    match (d.arguments.reverse.find? (·.name == "if")).map Argument.value with
    | none => .error .absent
    | some (.boolean b) => .ok (some b)
    | some (.variable n) => .error (.unknownVariable n)
    | some .null => .error .null
    | some l => .error (.notBoolean l)

/-- Whether a selection counts; a selection that is skipped is not asked for more. -/
def isTaken (ds : List Directive) : Except ConditionError Bool := do
  if (← condition? "skip" ds) == some true then return false
  else return (← condition? "include" ds) != some false

def applies (s : Schema) (type : TypeDef) (on : Option String) : Bool :=
  match on with
  | none => true
  | some n => n == type.name || (s.type? n).any fun t => t.isAbstract && s.isSubType t type

/-- A field at the root: its response key and its name. -/
abbrev Root := String × String

/-- Adds the fields of selections to those of earlier ones; `seen` holds the fragments that were
followed. The fuel bounds the number of selections. -/
def collect (s : Schema) (d : Document) (type : TypeDef) : Nat → List Root → List String →
    List Selection → Except ConditionError (List Root × List String)
  | 0, roots, seen, _ => .ok (roots, seen)
  | _ + 1, roots, seen, [] => .ok (roots, seen)
  | fuel + 1, roots, seen, x :: xs => do
    let (roots, seen) ← match x with
      | .field label name _ ds _ =>
        if ← isTaken ds then pure (roots ++ [(Selection.responseKey label name, name)], seen)
        else pure (roots, seen)
      | .inline on ds inner =>
        if (← isTaken ds) && applies s type on then collect s d type fuel roots seen inner
        else pure (roots, seen)
      | .spread n ds =>
        if seen.contains n then pure (roots, seen)
        else if ← isTaken ds then
          match Document.lastFragment? d n with
          | none => pure (roots, seen ++ [n])
          | some (_, f) =>
            if applies s type (some f.on) then collect s d type fuel roots (seen ++ [n]) f.selections
            else pure (roots, seen ++ [n])
        else pure (roots, seen)
    collect s d type fuel roots seen xs

/-- The pairs of a list of which no earlier one has the same key. -/
def distinctKeys (ps : List Root) : List Root :=
  ps.foldl (fun kept p => if kept.any (·.1 == p.1) then kept else kept ++ [p]) []

/-- Checks that a subscription selects a single field, which is not about the schema. -/
def check (s : Schema) (d : Document) (o : Operation) : Except ConditionError (List Violation) := do
  match o.kind, s.subscription.bind s.type? with
  | .subscription, some t =>
    let size := Spreads.documentSize d
    let fields := distinctKeys (← collect s d t (size * size) [] [] o.selections).1
    return (if 1 < fields.length then [.subscriptionRoots o.name] else [])
      ++ (fields.filter fun f => f.2.startsWith "__").map fun _ => .subscriptionIntrospection o.name
  | _, _ => return []

end Roots

end Harvest.GraphQL
