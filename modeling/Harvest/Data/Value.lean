import Harvest.Data.Double

/-!
# Dynamic data

`Value` is what a JSON or YAML document holds: atoms, lists, and objects whose members keep the order
in which they were written. A key is an atom; in data read from JSON it is always a text. Within one
object no two keys are equal, because members are added by `Members.insert` only: a repeated key keeps
its first place and takes the new value.

YAML has sets and pairs too, and a collection may occur within itself. Such a collection is `anchored`
by a number, and a `reference` to that number below it is the collection itself; `Value.opened` puts it
there, one level at a time.
-/

namespace Harvest

structure Date where
  year : Nat
  month : Nat
  day : Nat
  deriving DecidableEq, Repr, Inhabited

/-- A point in time, with its distance from universal time in minutes if one was given. -/
structure Timestamp where
  date : Date
  hour : Nat
  minute : Nat
  second : Nat
  microsecond : Nat
  zone : Option Int
  deriving DecidableEq, Repr, Inhabited

/-- The number of days from the first day of the first year to a day. -/
def Date.number (d : Date) : Nat :=
  let y := if d.month ≤ 2 then d.year - 1 else d.year
  let m := if d.month ≤ 2 then d.month + 9 else d.month - 3
  365 * y + y / 4 - y / 100 + y / 400 + (153 * m + 2) / 5 + d.day

/-- A point in time with a zone as microseconds of universal time. -/
def Timestamp.instant? (t : Timestamp) : Option Int :=
  t.zone.map fun z =>
    let minutes : Int := (t.date.number * 24 + t.hour) * 60 + t.minute - z
    (minutes * 60 + t.second) * 1000000 + t.microsecond

/-- A value without parts. -/
inductive Atom where
  | null
  | bool (b : Bool)
  | int (i : Int)
  | float (x : Double)
  | str (s : String)
  | bytes (data : List UInt8)
  | date (d : Date)
  | time (t : Timestamp)
  deriving DecidableEq, Repr, Inhabited

/-- A value of a JSON or YAML document. -/
inductive Value where
  | atom (a : Atom)
  | list (items : List Value)
  | object (members : List (Atom × Value))
  | set (elements : List Atom)
  | pair (first second : Value)
  | anchored (label : Nat) (body : Value)
  | reference (label : Nat)
  deriving Repr, Inhabited

abbrev Members := List (Atom × Value)

namespace Value

@[match_pattern] abbrev null : Value := .atom .null
@[match_pattern] abbrev bool (b : Bool) : Value := .atom (.bool b)
@[match_pattern] abbrev int (i : Int) : Value := .atom (.int i)
@[match_pattern] abbrev float (x : Double) : Value := .atom (.float x)
@[match_pattern] abbrev str (s : String) : Value := .atom (.str s)

end Value

namespace Atom

/-- The numeric value of a number or truth value, as an integer if it is one. -/
def asInt? : Atom → Option Int
  | .bool b => some b.toNat
  | .int i => some i
  | .float x => if x.isIntegral then x.truncate? else none
  | _ => none

/-- Equality of atoms, under which numbers are compared by value: `1`, `1.0` and `true` are one key.
Points in time with a zone are equal if they are the same instant. -/
def same (a b : Atom) : Bool :=
  match a.asInt?, b.asInt? with
  | some i, some j => i == j
  | none, none =>
    match a, b with
    | .float x, .float y => x.same y
    | .time t, .time u =>
      match t.instant?, u.instant? with
      | some i, some j => i == j
      | _, _ => t == u
    | _, _ => a == b
  | _, _ => false

/-- Whether two atoms are one key: as such even what is not a number equals itself. -/
def sameKey (a b : Atom) : Bool := a.same b || (a == .float .nan && b == .float .nan)

/-- Texts are the same atom only if they are equal. -/
@[simp] theorem same_str (s t : String) : same (.str s) (.str t) = (s == t) := by
  simp only [same, asInt?, BEq.beq, Atom.str.injEq]

end Atom

namespace Members

def get? (ms : Members) (key : Atom) : Option Value :=
  (ms.find? fun m => m.1.sameKey key).map (·.2)

def field? (ms : Members) (key : String) : Option Value := get? ms (.str key)

/-- The value of the member with a text as its key, null when there is none. -/
def field (ms : Members) (key : String) : Value := (field? ms key).getD .null

/-- Sets a member: in its place if there is one, else at the end. -/
def insert (key : Atom) (value : Value) : Members → Members
  | [] => [(key, value)]
  | (k, v) :: rest =>
    if k.sameKey key then (k, value) :: rest else (k, v) :: insert key value rest

/-- The members of a list of pairs, later pairs overriding earlier ones. -/
def ofList (pairs : List (Atom × Value)) : Members :=
  pairs.foldl (fun ms p => insert p.1 p.2 ms) []

def keys (ms : Members) : List Atom := ms.map (·.1)

end Members

namespace Value

mutual

/-- A value with another in place of an alias. -/
def substitute (label : Nat) (w : Value) : Value → Value
  | .list xs => .list (substituteItems label w xs)
  | .object ms => .object (substituteMembers label w ms)
  | .pair a b => .pair (substitute label w a) (substitute label w b)
  | .anchored l v => if l = label then .anchored l v else .anchored l (substitute label w v)
  | .reference l => if l = label then w else .reference l
  | v => v

/-- Items with another value in place of an alias. -/
def substituteItems (label : Nat) (w : Value) : List Value → List Value
  | [] => []
  | x :: xs => substitute label w x :: substituteItems label w xs

/-- Members with another value in place of an alias. -/
def substituteMembers (label : Nat) (w : Value) : List (Atom × Value) → List (Atom × Value)
  | [] => []
  | (k, v) :: ms => (k, substitute label w v) :: substituteMembers label w ms

end

/-- The value with its parts in view: where a collection occurs within itself, it is put there. -/
def opened : Value → Value
  | .anchored l v => substitute l (.anchored l v) v
  | v => v

/-- The items of a value that counts as a list: a set and a pair do as well. -/
def items? (v : Value) : Option (List Value) :=
  match v.opened with
  | .list xs => some xs
  | .set es => some (es.map .atom)
  | .pair a b => some [a, b]
  | _ => none

mutual

/-- Whether every alias stands below its anchor. -/
def isClosed (anchors : List Nat) : Value → Bool
  | .list xs => areClosed anchors xs
  | .object ms => membersClosed anchors ms
  | .pair a b => isClosed anchors a && isClosed anchors b
  | .anchored l v => isClosed (l :: anchors) v
  | .reference l => anchors.contains l
  | .atom _ => true
  | .set _ => true

/-- Whether every alias among items stands below its anchor. -/
def areClosed (anchors : List Nat) : List Value → Bool
  | [] => true
  | x :: xs => isClosed anchors x && areClosed anchors xs

/-- Whether every alias among members stands below its anchor. -/
def membersClosed (anchors : List Nat) : List (Atom × Value) → Bool
  | [] => true
  | (_, v) :: ms => isClosed anchors v && membersClosed anchors ms

end

/-- An object with texts as keys, which are taken to be distinct. -/
def record (fields : List (String × Value)) : Value :=
  .object (fields.map fun f => (.str f.1, f.2))

/-- The member of an object with a text as its key; nothing for any other value. -/
def field? : Value → String → Option Value
  | .object ms, key => Members.field? ms key
  | _, _ => none

def field (v : Value) (key : String) : Value := (v.field? key).getD .null

def isNull : Value → Bool
  | .null => true
  | _ => false

/-- Whether a value counts as present: null, `false`, zero and everything empty do not. -/
def isTruthy : Value → Bool
  | .atom a =>
    match a with
    | .null => false
    | .bool b => b
    | .int i => i != 0
    | .float x => !x.isZero
    | .str s => s != ""
    | .bytes bs => !bs.isEmpty
    | .date _ => true
    | .time _ => true
  | .list items => !items.isEmpty
  | .object ms => !ms.isEmpty
  | .set es => !es.isEmpty
  | _ => true

mutual

/-- Equality of values: numbers by value, lists and pairs item by item, objects and sets whatever the
order of their members. -/
def same : Value → Value → Bool
  | .atom a, .atom b => a.same b
  | .list xs, .list ys => sameItems xs ys
  | .object ms, .object ns => ms.length == ns.length && sameMembers ms ns
  | .set es, .set fs => es.length == fs.length && es.all fun e => fs.any e.same
  | .pair a b, .pair c d => same a c && same b d
  | .anchored _ v, .anchored _ w => same v w
  | .reference l, .reference m => l == m
  | _, _ => false

def sameItems : List Value → List Value → Bool
  | [], [] => true
  | x :: xs, y :: ys => same x y && sameItems xs ys
  | _, _ => false

/-- Whether every member of the first object is in the second. -/
def sameMembers : List (Atom × Value) → List (Atom × Value) → Bool
  | [], _ => true
  | (k, v) :: ms, ns =>
    (match Members.get? ns k with
      | some w => same v w
      | none => false) && sameMembers ms ns

end

/-- Follows a path of keys through nested objects; null on any gap. -/
def follow : Value → List String → Value
  | v, [] => v
  | .object ms, key :: rest => follow ((Members.field? ms key).getD .null) rest
  | _, _ :: _ => .null

def pathKeys (path : String) : List String := (path.toList.splitOn '.').map String.ofList

/-- The value at a dotted path such as `entityLanguage.id`; null on any gap. -/
def atPath (v : Value) (path : String) : Value := v.follow (pathKeys path)

@[simp] theorem follow_nil (v : Value) : v.follow [] = v := by cases v <;> rfl

@[simp] theorem follow_object (ms : Members) (key : String) (rest : List String) :
    follow (.object ms) (key :: rest) = follow ((Members.field? ms key).getD .null) rest := rfl

end Value

end Harvest
