import Harvest.GraphQL.Document

/-!
# Spreads

Which fragments a document reaches. A name that several fragments bear stands for the last of them.
Nested selections are visited after the level that they belong to, the last of them first, and so are the
spreads that an operation reaches.
-/

namespace Harvest.GraphQL

/-- The last fragment with a name, and its place among the definitions. -/
def Document.lastFragment? (d : Document) (name : String) : Option (Nat × Fragment) :=
  (d.zipIdx.filterMap fun (x, i) => x.fragment?.map fun f => (i, f)).reverse.find?
    fun f => f.2.name == name

mutual

/-- The number of selections within a selection, itself included. -/
def Selection.size : Selection → Nat
  | .field _ _ _ _ inner => Selection.sizeAll inner + 1
  | .spread .. => 1
  | .inline _ _ inner => Selection.sizeAll inner + 1

/-- The number of selections within a set. -/
def Selection.sizeAll : List Selection → Nat
  | [] => 0
  | s :: ss => Selection.size s + Selection.sizeAll ss

end

namespace Spreads

/-- The spreads directly in a selection set, and the selection sets nested in it. -/
def level : List Selection → List String × List (List Selection)
  | [] => ([], [])
  | s :: ss =>
    let (names, sets) := level ss
    match s with
    | .spread n _ => (n :: names, sets)
    | .field _ _ _ _ inner => (names, if inner.isEmpty then sets else inner :: sets)
    | .inline _ _ inner => (names, if inner.isEmpty then sets else inner :: sets)

/-- The spreads of selection sets, the first of which is visited next. -/
def collect : Nat → List (List Selection) → List String
  | 0, _ => []
  | _ + 1, [] => []
  | fuel + 1, set :: sets =>
    let (names, nested) := level set
    names ++ collect fuel (nested.reverse ++ sets)

def names (set : List Selection) : List String := collect (Selection.sizeAll set + 2) [set]

/-- The fragments reached from names, the first of which is followed next: each before those that its
own spreads reach, of which the last comes first. -/
def reach (d : Document) : Nat → List String → List String → List Fragment
  | 0, _, _ => []
  | _ + 1, _, [] => []
  | fuel + 1, known, n :: ns =>
    if known.contains n then reach d fuel known ns
    else
      match Document.lastFragment? d n with
      | some (_, f) => f :: reach d fuel (n :: known) ((names f.selections).reverse ++ ns)
      | none => reach d fuel (n :: known) ns

/-- The number of selections in a document, which bounds the number of spreads that are followed. -/
def documentSize (d : Document) : Nat :=
  d.foldl (fun n x => n + Selection.sizeAll (x.selections?.getD []) + 2) 2

/-- The fragments that an operation reaches, directly or through others. -/
def reached (d : Document) (o : Operation) : List Fragment :=
  reach d (documentSize d) [] (names o.selections).reverse

/-- A cycle that was found: the fragment that is spread within itself and those on the way. -/
structure Cycle where
  fragment : String
  via : List String
  deriving DecidableEq, Repr

mutual

/-- Looks for cycles through a fragment. `path` holds the spreads that led here, with the fragment
that each of them stands in; `visited` holds the fragments that have been looked at. -/
def cyclesOf (d : Document) : Nat → List (String × String) → List String → Fragment →
    List Cycle × List String
  | 0, _, visited, _ => ([], visited)
  | fuel + 1, path, visited, f =>
    if visited.contains f.name then ([], visited)
    else cyclesThrough d fuel path (f.name :: visited) f.name (names f.selections)

/-- Looks for cycles through the spreads of a fragment. -/
def cyclesThrough (d : Document) : Nat → List (String × String) → List String → String →
    List String → List Cycle × List String
  | 0, _, visited, _, _ => ([], visited)
  | _ + 1, _, visited, _, [] => ([], visited)
  | fuel + 1, path, visited, owner, n :: ns =>
    let path' := path ++ [(owner, n)]
    let (found, visited) :=
      match path'.findIdx? (·.1 == n) with
      | some i => ([⟨n, ((path'.drop i).dropLast).map (·.2)⟩], visited)
      | none =>
        match Document.lastFragment? d n with
        | some (_, f) => cyclesOf d fuel path' visited f
        | none => ([], visited)
    let (more, visited) := cyclesThrough d fuel path visited owner ns
    (found ++ more, visited)

end

/-- The number of spreads in all fragments and the number of fragments, which bound the search. -/
def cycleBound (d : Document) : Nat :=
  2 * ((Document.fragments d).foldl (fun n f => n + Selection.sizeAll f.selections + 2) 2)

/-- The cycles that are found at each fragment in turn. -/
def cycles (d : Document) : List Fragment → List String → List (List Cycle)
  | [], _ => []
  | f :: fs, visited =>
    let (found, visited) := cyclesOf d (cycleBound d) [] visited f
    found :: cycles d fs visited

end Spreads

end Harvest.GraphQL
