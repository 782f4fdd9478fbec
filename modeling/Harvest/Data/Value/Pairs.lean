import Harvest.Data.Fault
import Harvest.Data.Value

/-!
# Objects from other values

Where an object is expected, a list of pairs does as well, and a pair may be anything with two parts: a
pair as such, a list, a text of two characters, or the keys of an object. `Value.parts` gives the parts
of a value, `Value.toMembers` the object.
-/

namespace Harvest.Value

def partsInView : Value → Except Fault (List Value)
  | .list xs => .ok xs
  | .set es => .ok (es.map .atom)
  | .pair a b => .ok [a, b]
  | .object ms => .ok (ms.map fun m => .atom m.1)
  | .atom (.str s) => .ok (s.toList.map fun c => .str c.toString)
  | .atom (.bytes bs) => .ok (bs.map fun b => .int b.toNat)
  | _ => .error .kind

/-- The parts that a value consists of: items, keys, elements, characters or bytes. -/
def parts (v : Value) : Except Fault (List Value) := v.opened.partsInView

def toMember (v : Value) : Except Fault (Atom × Value) := do
  match ← v.parts with
  | [.atom k, w] => return (k, w)
  | [_, _] => .error .kind
  | _ => .error .content

def toMembers (v : Value) : Except Fault Members :=
  match v.opened with
  | .object ms => .ok ms
  | v => do return Members.ofList (← (← v.partsInView).mapM toMember)

@[simp] theorem toMembers_object (ms : Members) : toMembers (.object ms) = .ok ms := rfl

/-- The empty list denotes the empty object. -/
@[simp] theorem toMembers_nil : toMembers (.list []) = .ok [] := rfl

end Harvest.Value
