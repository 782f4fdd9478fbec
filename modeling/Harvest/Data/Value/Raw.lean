import Harvest.Data.Value
import Harvest.Text.RawText

/-!
# Raw data

`RawValue` is data of JSON in which texts are raw: halves of pairs may stand alone in them, whether in
keys or in values. `RawValue.value?` is the same data as a `Value`, which has texts of characters only.
-/

namespace Harvest

/-- A value of a JSON document with raw texts. -/
inductive RawValue where
  | null
  | bool (b : Bool)
  | int (i : Int)
  | float (x : Double)
  | text (t : RawText)
  | list (items : List RawValue)
  | object (members : List (RawText × RawValue))
  deriving Repr, Inhabited

namespace RawValue

mutual

/-- Raw data as a value, if all of its texts are texts of characters. -/
def value? : RawValue → Option Value
  | .null => some .null
  | .bool b => some (.bool b)
  | .int i => some (.int i)
  | .float x => some (.float x)
  | .text t => t.encode?.map Value.str
  | .list xs => (values? xs).map .list
  | .object ms => (members? ms).map .object

def values? : List RawValue → Option (List Value)
  | [] => some []
  | x :: xs =>
    match value? x, values? xs with
    | some v, some vs => some (v :: vs)
    | _, _ => none

/-- Raw members as members, their keys included. -/
def members? : List (RawText × RawValue) → Option Members
  | [] => some []
  | (k, x) :: ms =>
    match k.encode?, value? x, members? ms with
    | some k, some v, some ms => some ((.str k, v) :: ms)
    | _, _, _ => none

end

end RawValue

end Harvest
