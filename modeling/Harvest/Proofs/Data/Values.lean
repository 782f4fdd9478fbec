import Harvest.Data.Value

/-!
# The identity of values

`Value.same` compares values as documents do: `1` and `1.0` are the same, and an object does not depend on
the order of its members. `Value.isExactly` tells whether two values are one, member by member, so that
this can be computed.

The check is by recursion over both values, with lists and members as its mutual parts; `isExactly_iff` says
that it is equality. It gives values decidable equality, by which closed facts about them are settled by
computing.
-/

namespace Harvest.Value

mutual

/-- Whether two values are the same in every part. -/
def isExactly : Value → Value → Bool
  | .atom a, .atom b => a == b
  | .list xs, .list ys => areExactly xs ys
  | .object ms, .object ns => membersExactly ms ns
  | .set es, .set fs => es == fs
  | .pair a b, .pair c d => isExactly a c && isExactly b d
  | .anchored l v, .anchored m w => l == m && isExactly v w
  | .reference l, .reference m => l == m
  | _, _ => false

/-- Whether two lists of values are the same in every part. -/
def areExactly : List Value → List Value → Bool
  | [], [] => true
  | x :: xs, y :: ys => isExactly x y && areExactly xs ys
  | _, _ => false

/-- Whether two lists of members are the same in every part. -/
def membersExactly : List (Atom × Value) → List (Atom × Value) → Bool
  | [], [] => true
  | (k, v) :: ms, (l, w) :: ns => k == l && isExactly v w && membersExactly ms ns
  | _, _ => false

end

mutual

theorem isExactly_iff (v w : Value) : isExactly v w = true ↔ v = w := by
  cases v with
  | atom a => cases w <;> simp [isExactly]
  | list xs => cases w <;> simp [isExactly, areExactly_iff xs]
  | object ms => cases w <;> simp [isExactly, membersExactly_iff ms]
  | set es => cases w <;> simp [isExactly]
  | pair a b => cases w <;> simp [isExactly, isExactly_iff a, isExactly_iff b]
  | anchored l v => cases w <;> simp [isExactly, isExactly_iff v]
  | reference l => cases w <;> simp [isExactly]

theorem areExactly_iff (xs ys : List Value) : areExactly xs ys = true ↔ xs = ys := by
  cases xs with
  | nil => cases ys <;> simp [areExactly]
  | cons x xs => cases ys <;> simp [areExactly, isExactly_iff x, areExactly_iff xs]

theorem membersExactly_iff (ms ns : List (Atom × Value)) : membersExactly ms ns = true ↔ ms = ns := by
  cases ms with
  | nil => cases ns <;> simp [membersExactly]
  | cons m ms =>
      obtain ⟨k, v⟩ := m
      cases ns with
      | nil => simp [membersExactly]
      | cons n ns => simp [membersExactly, Prod.ext_iff, isExactly_iff v, membersExactly_iff ms]

end

instance : DecidableEq Value := fun v w => decidable_of_iff _ (isExactly_iff v w)

end Harvest.Value
