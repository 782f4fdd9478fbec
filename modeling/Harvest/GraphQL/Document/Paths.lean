import Harvest.GraphQL.Document

/-!
# The paths of a selection

The leaves of a selection set, named as they appear in an answer: the response keys on the way to a
leaf, joined by dots. Inline fragments belong to the level around them; fragment spreads are not
followed.
-/

namespace Harvest.GraphQL

mutual

/-- The paths of one selection, each after the given beginning. -/
def Selection.paths (before : String) : Selection → List String
  | .field label name _ _ inner =>
    let path := before ++ responseKey label name
    match inner with
    | [] => [path]
    | s :: ss => Selection.paths (path ++ ".") s ++ Selection.allPaths (path ++ ".") ss
  | .spread .. => []
  | .inline _ _ inner => Selection.allPaths before inner

/-- The paths of a selection set, in document order. -/
def Selection.allPaths (before : String) : List Selection → List String
  | [] => []
  | s :: ss => Selection.paths before s ++ Selection.allPaths before ss

end

def Definition.paths (before : String) (d : Definition) : List String :=
  Selection.allPaths before (d.selections?.getD [])

end Harvest.GraphQL
