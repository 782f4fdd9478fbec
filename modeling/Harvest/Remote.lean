import Harvest.Data.Fault
import Harvest.Data.Value.Display

/-!
# The remote

A request asks the remote to run one operation of a document; the remote answers with data, reports an
error of its own, or cannot be reached. What lies between the two, a connection or a recording, is not
a matter of this library.
-/

namespace Harvest

/-- A request: a document, the operation to run and its variables. -/
structure Request where
  query : String
  operationName : Option String
  variableValues : Members
  deriving Repr, Inhabited

/-- Why a request was not answered with data. -/
inductive RemoteError where
  /-- The remote was not reached, or did not answer in the agreed form. -/
  | transport (url : String) (status : Int) (text : String)
  /-- The remote reports errors, each with the text it is known by. -/
  | reported (errors : List Value) (texts : List String)
  deriving Repr, Inhabited

namespace RemoteError

def message : RemoteError → String
  | transport url status text => s!"Endpoint '{url}' returned {status}: {text}"
  | reported _ texts => "GraphQL errors: " ++ "; ".intercalate texts

/-- The text by which an error object is known: its message, or else all of it. -/
def textOf (e : Value) : Except Fault String :=
  match e with
  | .object ms =>
    match Members.field? ms "message" with
    | none => .ok e.display
    | some (.str s) => .ok s
    | some _ => .error .kind
  | _ => .error .part

/-- Whether a value is an object. -/
def isObject : Value → Bool
  | .object _ => true
  | _ => false

def ofObjects (errors : List Value) : Except Fault RemoteError :=
  if errors.all isObject then (errors.mapM textOf).map (.reported errors) else .error .part

end RemoteError

/-- The answer to a request. -/
inductive Answer where
  | data (v : Value)
  | failed (e : RemoteError)
  | broken (f : Fault)
  deriving Repr, Inhabited

/-- A remote that answers one request after the other; what it remembers is a state. -/
abbrev Executor (σ : Type) := Request → StateM σ Answer

end Harvest
