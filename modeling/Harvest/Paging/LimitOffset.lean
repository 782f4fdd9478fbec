import Harvest.Data.Number
import Harvest.Entity.Descriptor

/-!
# Paging by limit and offset

A listing is walked page by page. The state of a walk is the variables of its next request and whether
there is a next page at all. A page shorter than the limit is the last one; when the last full page is
exactly as long as the limit, one more page is asked for, and it is empty.
-/

namespace Harvest

/-- The variables of the next request, and whether there is a next page. -/
structure PageState where
  variableValues : Members
  hasNext : Bool
  deriving Repr, Inhabited

/-- The walk through pages of a fixed size. -/
structure LimitOffset where
  pageSize : Value
  deriving Repr, Inhabited

namespace LimitOffset

def name : String := "LimitOffsetDrupal"

/-- The variables that the strategy sets. -/
def variableNames : List String := ["limit", "offset"]

/-- The limit of a walk that was started without a usable one. -/
def defaultLimit : Int := 100

/-- The integer that a variable stands for: nothing for truth values and for values without a number,
and a fault for an infinite one. -/
def integer? (v : Value) : Except Fault (Option Int) :=
  match v with
  | .bool _ => .ok none
  | v =>
    match v.toInt with
    | .ok i => .ok (some i)
    | .error .range => .error .range
    | .error _ => .ok none

/-- The limit that a variable stands for; zero is no limit. -/
def limit (v : Value) : Except Fault Int := do
  match ← integer? v with
  | some i => return if i = 0 then defaultLimit else i
  | none => return defaultLimit

def offset (v : Value) : Except Fault Int := do return (← integer? v).getD 0

/-- The entries that a value holds as a container: the items of a list, the keys of an object, the
characters of a text. -/
def entries : Value → Except Fault (List Value)
  | .list items => .ok items
  | .object ms => .ok (ms.map fun m => .atom m.1)
  | .str s => .ok (s.toList.map fun c => .str c.toString)
  | .atom (.bytes bs) => .ok (bs.map fun b => .int b.toNat)
  | _ => .error .kind

def items (page : Value) : Except Fault (List Value) :=
  if !page.isTruthy then .ok []
  else
    match page with
    | .object ms =>
      let held := Members.field ms entitiesField
      if held.isTruthy then entries held else .ok []
    | _ => .error .part

def pageVariables (limit offset : Value) : Members :=
  [(.str "limit", limit), (.str "offset", offset)]

def start (p : LimitOffset) : PageState :=
  { variableValues := pageVariables p.pageSize (.int 0), hasNext := true }

def next (s : PageState) (page : Value) : Except Fault PageState := do
  let l ← limit (Members.field s.variableValues "limit")
  let o ← offset (Members.field s.variableValues "offset")
  let count := (← items page).length
  return { variableValues := pageVariables (.int l) (.int (o + l)), hasNext := decide (l ≤ count) }

/-- A page put behind what was received before. -/
def concat (before page : Value) : Except Fault Value := do
  let xs ← items before
  let ys ← items page
  return .record [(entitiesField, .list (xs ++ ys))]

@[simp] theorem items_list (xs : List Value) :
    items (.record [(entitiesField, .list xs)]) = .ok xs := by
  cases xs <;> rfl

/-- The first request asks for the first page. -/
@[simp] theorem start_hasNext (p : LimitOffset) : p.start.hasNext = true := rfl

end LimitOffset

end Harvest
