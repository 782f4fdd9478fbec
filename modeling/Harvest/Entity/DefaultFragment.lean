import Harvest.Failure
import Harvest.GraphQL.Document.Printer

/-!
# Default fragments

The fragment that is fetched for a type when nobody has written one. It selects every field without
required arguments: leaves as such, objects and interfaces down to a depth, unions by their type name
and entities that are sourced themselves by what identifies them.
-/

namespace Harvest

open GraphQL

/-- What keeps a default fragment from being made. -/
inductive DefaultFragmentError where
  /-- The type itself has no fragment. -/
  | problem (p : FragmentProblem)
  /-- A sourced type has no fields to identify it by, because it is a union. -/
  | unionReference
  deriving DecidableEq, Repr

namespace DefaultFragment

/-- The selection that refers to an entity sourced elsewhere. -/
def reference (field : String) (target : TypeDef) : Except DefaultFragmentError Selection :=
  if target.isUnion then .error .unionReference
  else
    let id := if (target.field? "entityId").isSome then [Selection.plain "entityId" []] else []
    .ok (.plain field (.plain "__typename" [] :: id))

/-- The selection of one field. `inner` gives the selections of a type one level down, and nothing
where the depth is used up. -/
def fieldSelection (s : Schema) (sourced : List String)
    (inner : Option (TypeDef → Except DefaultFragmentError (List Selection))) (f : Field) :
    Except DefaultFragmentError (Option Selection) :=
  if f.needsArguments then .ok none
  else
    match s.base? f.type with
    | none => .ok none
    | some target =>
      if target.isLeaf then .ok (some (.plain f.name []))
      else
        match inner with
        | none => .ok none
        | some inner =>
          if sourced.contains target.name then (reference f.name target).map some
          else if target.isUnion then .ok (some (.plain f.name [.plain "__typename" []]))
          else
            match inner target with
            | .error e => .error e
            | .ok [] => .ok none
            | .ok (x :: xs) => .ok (some (.plain f.name (x :: xs)))

/-- The selections of a list of fields, from the first to the last. -/
def collectFields (select : Field → Except DefaultFragmentError (Option Selection)) :
    List Field → Except DefaultFragmentError (List Selection)
  | [] => .ok []
  | f :: fs =>
    match select f with
    | .error e => .error e
    | .ok x =>
      match collectFields select fs with
      | .error e => .error e
      | .ok xs => .ok (x.toList ++ xs)

/-- The selections of an object or interface, following composite fields down a number of levels. -/
def selections (s : Schema) (sourced : List String) : Nat → TypeDef →
    Except DefaultFragmentError (List Selection)
  | 0, t => collectFields (fieldSelection s sourced none) t.fields
  | depth + 1, t =>
    collectFields (fieldSelection s sourced (some (selections s sourced depth))) t.fields

/-- The default fragment of a type. A negative depth counts as zero. -/
def make (s : Schema) (sourced : List String) (maxDepth : Int) (typeName : String) :
    Except DefaultFragmentError Fragment :=
  match s.type? typeName with
  | some (.object n is fs) => do
    match ← selections s sourced maxDepth.toNat (.object n is fs) with
    | [] => .error (.problem .noFields)
    | body =>
      .ok { description := none, name := typeName, on := typeName, directives := [],
            selections := body }
  | _ => .error (.problem .notObject)

def text (s : Schema) (sourced : List String) (maxDepth : Int) (typeName : String) :
    Except DefaultFragmentError String := do
  return (← make s sourced maxDepth typeName).print ++ "\n"

end DefaultFragment

end Harvest
