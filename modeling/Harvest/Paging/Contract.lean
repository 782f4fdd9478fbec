import Harvest.Entity.Listing
import Harvest.Paging.LimitOffset

/-!
# The contract between listings and paging

The requests of a walk carry the variables that a paging strategy sets, and the listings declare
variables of their own. A run is refused before anything is asked for unless the two are the same, in
whatever order.
-/

namespace Harvest

/-- A paging strategy as it presents itself: its name and the names of the variables that it sets. -/
structure PagingProfile where
  name : Value
  expected : Value
  deriving Repr, Inhabited

namespace PagingProfile

/-- How the walk by limit and offset presents itself. -/
def limitOffset : PagingProfile :=
  { name := .str LimitOffset.name, expected := .list (LimitOffset.variableNames.map .str) }

def isNumber : Atom → Bool
  | .bool _ => true
  | .int _ => true
  | .float _ => true
  | _ => false

mutual

/-- Whether one of two values can be said to come before the other. -/
def comparable : Value → Value → Bool
  | .atom (.str _), .atom (.str _) => true
  | .list xs, .list ys => comparableItems xs ys
  | .atom a, .atom b => isNumber a && isNumber b
  | _, _ => false

/-- Whether one of two lists can be said to come before the other: their first items that differ have
to be comparable. -/
def comparableItems : List Value → List Value → Bool
  | x :: xs, y :: ys => if x.same y then comparableItems xs ys else comparable x y
  | _, _ => true

end

def sortable : List Value → Bool
  | [] => true
  | v :: vs => vs.all (comparable v) && sortable vs

def sameTexts (values : List Value) (names : List String) : Bool :=
  let texts := values.filterMap fun v => match v with
    | .str s => some s
    | _ => none
  texts.length == values.length && decide (texts.Perm names)

/-- Refuses a paging strategy that sets other variables than the listings declare. -/
def check (p : PagingProfile) : Except Failure Unit :=
  let declared := ListingQuery.pageVariables
  let entries := if p.expected.isTruthy then LimitOffset.entries p.expected else .ok []
  match entries with
  | .error f => .error (.fault f)
  | .ok actual =>
    if sameTexts actual declared then .ok ()
    else if sortable actual then .error (.pagination p.name declared actual)
    else .error (.fault .kind)

end PagingProfile

end Harvest
