import Harvest.Failure
import Harvest.Paging.LimitOffset

/-!
# Paging strategies

A walk leaves four things to its paging strategy: the state before the first page, the state after a
page, the items of a page, and how pages are put together. Any of them may fail. The walk by limit and
offset is one such strategy.
-/

namespace Harvest

/-- How a listing is walked page by page. -/
structure PagingStrategy where
  start : Except Failure PageState
  next : PageState → Value → Except Failure PageState
  /-- A page put behind what was received before. -/
  concat : Value → Value → Except Failure Value
  items : Value → Except Failure (List Value)

def LimitOffset.strategy (p : LimitOffset) : PagingStrategy :=
  { start := .ok p.start
    next := fun s page => (next s page).mapError .fault
    concat := fun before page => (concat before page).mapError .fault
    items := fun page => (items page).mapError .fault }

/-- The walk through pages of so many items. -/
def PagingStrategy.bySize (pageSize : Int) : PagingStrategy :=
  LimitOffset.strategy { pageSize := .int pageSize }

/-- What a walk can be made by. -/
class Paging (π : Type) where
  strategy : π → PagingStrategy

instance : Paging LimitOffset := ⟨LimitOffset.strategy⟩

instance : Paging PagingStrategy := ⟨id⟩

end Harvest
