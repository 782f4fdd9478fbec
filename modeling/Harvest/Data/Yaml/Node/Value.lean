import Harvest.Data.Double.Arithmetic
import Harvest.Data.Number
import Harvest.Data.Yaml.Base64
import Harvest.Data.Yaml.Node.Resolution

/-!
# The value of a YAML tree

`Node.value` reads the value that a tree stands for. Mappings under a merge key come first, so that
what a mapping says itself overrides them. Collections are read level by level: of several problems
the one nearest to the root is reported, and of those on one level the first. A collection that is read
within itself becomes an alias.
-/

namespace Harvest.Yaml

namespace Scalar

/-! ### Numbers -/

/-- Whether a text has a minus sign, and the text without its sign; nothing for an empty text. -/
def splitSign? : List Char → Option (Bool × List Char)
  | [] => none
  | c :: cs => some (c = '-', if c = '-' || c = '+' then cs else c :: cs)

def digitIn? (base : Nat) (c : Char) : Option Nat :=
  let d := match Text.digitValue? c with
    | some d => some d
    | none => if c.isAlpha then some (c.toLower.toNat - 87) else none
  d.filter (· < base)

/-- A text without the mark of its base. -/
def dropMark (mark : Char) : List Char → List Char
  | '0' :: c :: cs => if c.toLower = mark then cs else '0' :: c :: cs
  | cs => cs

/-- The integer that a text denotes in a base, which may be marked. -/
def inBase (base : Nat) (mark : Char) (cs : List Char) : Except Fault Int :=
  let (negative, cs) := Numeral.splitSign (Numeral.trim cs)
  match (dropMark mark cs).mapM (digitIn? base) with
  | some (d :: ds) => .ok (Double.signed negative ((d :: ds).foldl (fun n d => n * base + d) 0))
  | _ => .error .content

/-- The integer that a text denotes in base ten. -/
def inBaseTen (cs : List Char) : Except Fault Int := (Value.str (String.ofList cs)).toInt

/-- An integer. Its base follows from how it starts. -/
def int (text : String) : Except Fault Int :=
  match splitSign? (text.toList.filter (· ≠ '_')) with
  | none => .error .position
  | some (negative, cs) => do
    let magnitude ← match cs with
      | ['0'] => pure 0
      | '0' :: 'b' :: ds => inBase 2 'b' ds
      | '0' :: 'x' :: ds => inBase 16 'x' ds
      | '0' :: _ => inBase 8 'o' cs
      | [] => .error .position
      | _ =>
        if cs.contains ':' then do
          let parts ← (colonParts cs).mapM inBaseTen
          pure (parts.foldl (fun n d => n * 60 + d) 0)
        else inBaseTen cs
    return if negative then -magnitude else magnitude

/-- The sum of numbers in base sixty, the last one first. -/
def sumSixties : Double → Nat → List Double → Except Fault Double
  | total, _, [] => .ok total
  | total, base, d :: ds =>
    match Double.ofInt? base with
    | some b => sumSixties (total.add (d.mul b)) (base * 60) ds
    | none => .error .range

def float (text : String) : Except Fault Double :=
  let lower := (text.toList.filter (· ≠ '_')).map Char.toLower
  match splitSign? lower with
  | none => .error .position
  | some (negative, cs) => do
    let ofText (cs : List Char) : Except Fault Double := (Value.str (String.ofList cs)).toDouble
    let word := String.ofList cs
    if word = ".nan" then return .nan
    else
      let magnitude ←
        if word = ".inf" then pure (.infinity false)
        else if cs.contains ':' then do
          let parts ← (colonParts cs).mapM ofText
          sumSixties (Double.zero false) 1 parts.reverse
        else ofText cs
      return if negative then magnitude.neg else magnitude

/-! ### Truth values -/

def bool (text : String) : Except Fault Bool :=
  let word := String.ofList (text.toList.map Char.toLower)
  if ["yes", "true", "on"].contains word then .ok true
  else if ["no", "false", "off"].contains word then .ok false
  else .error .entry

/-! ### Points in time -/

def daysOf (year month : Nat) : Nat :=
  if month = 2 then
    if year % 4 = 0 ∧ (year % 100 ≠ 0 ∨ year % 400 = 0) then 29 else 28
  else if month = 4 ∨ month = 6 ∨ month = 9 ∨ month = 11 then 30 else 31

def isDay (year month day : Nat) : Bool :=
  1 ≤ year && 1 ≤ month && month ≤ 12 && 1 ≤ day && day ≤ daysOf year month

def microseconds (digits : List Char) : Nat :=
  Moment.number ((digits ++ List.replicate 6 '0').take 6)

/-- A day, or a point in time. -/
def timestamp (text : String) : Except Fault Atom :=
  let cs := text.toList
  match Moment.ofText? (if cs.getLast? = some '\n' then cs.dropLast else cs) with
  | none => .error .part
  | some m =>
    let date : Date := { year := m.year, month := m.month, day := m.day }
    match m.time with
    | none => if isDay m.year m.month m.day then .ok (.date date) else .error .content
    | some (hour, minute, second, fraction) =>
      let zone : Option Int := m.zone.map fun (negative, hours, minutes) =>
        Double.signed negative (hours * 60 + minutes)
      if isDay m.year m.month m.day && hour < 24 && minute < 60 && second < 60
          && (zone.getD 0).natAbs < 1440 then
        .ok (.time { date, hour, minute, second, microsecond := microseconds fraction, zone })
      else .error .content

end Scalar

namespace Node

/-! ### Scalars -/

/-- The text of a scalar, or of the default value of a mapping. -/
def text? : Node → Option String
  | scalar _ text => some text
  | mapping _ _ entries => ofEntries entries
  | _ => none
where
  /-- The text of the default value. -/
  ofEntries : List (Node × Node) → Option String
    | [] => none
    | (k, v) :: rest => if k.tag = .value then text? v else ofEntries rest

/-- The result of an operation that can meet faults. -/
def lift {α : Type} (r : Except Fault α) : Except Problem α :=
  match r with
  | .ok a => .ok a
  | .error f => .error (.fault f)

def atom (n : Node) (text : String) : Except Problem Atom :=
  match n.tag with
  | .null => .ok .null
  | .bool => (lift (Scalar.bool text)).map .bool
  | .int => (lift (Scalar.int text)).map .int
  | .float => (lift (Scalar.float text)).map .float
  | .binary =>
    if text.toList.all (·.toNat < 128) then
      match Base64.decode? text.toList with
      | some bytes => .ok (.bytes bytes)
      | none => .error .malformed
    else .error .malformed
  | .timestamp =>
    match n with
    | scalar .. => lift (Scalar.timestamp text)
    | _ => .error (.fault .kind)
  | .str => .ok (.str text)
  | _ => .error .malformed

/-! ### Merging -/

/-- The key of a default value is an ordinary key of a mapping. -/
def asKey : Node → Node
  | scalar .value text => scalar .str text
  | n => n

/-- The entries of mappings, or the reason why there are none. -/
abbrev Merged := Except Problem (List (Node × Node))

/-- The mappings that are being merged, the innermost first: each with its number and the entries that
are left of it without the merge keys that have been followed. -/
abbrev Underway := List (Nat × List (Node × Node))

/-- The entries of a mapping: those merged into it, and its own. `merged` gives what a value under a merge
key stands for, and `before` are own entries that came earlier. -/
def mergedEntries (merged : Underway → Node → Merged) (underway : Underway) (number : Nat)
    (before : List (Node × Node)) :
    List (Node × Node) → Except Problem (List (Node × Node) × List (Node × Node))
  | [] => .ok ([], before)
  | (k, v) :: rest =>
    if k.tag = .merge then do
      let more ← merged ((number, before ++ rest) :: underway) v
      let (others, own) ← mergedEntries merged underway number before rest
      return (more ++ others, own)
    else mergedEntries merged underway number (before ++ [(k.asKey, v)]) rest

/-- What a value under a merge key stands for: the entries of a mapping, or those of several of which the
first has precedence. A mapping that is merged into itself gives what is left of it. The fuel bounds the
number of merge keys on the way. -/
def merged (root : Node) : Nat → Underway → Node → Merged
  | 0, _, _ => .error .malformed
  | fuel + 1, underway, v =>
    let entriesOf (n : Node) : Merged :=
      match root.target n with
      | mapping number _ entries => do
        let left := (underway.lookup number).getD entries
        let (others, own) ← mergedEntries (merged root fuel) underway number [] left
        return others ++ own
      | _ => .error .malformed
    match root.target v with
    | sequence _ _ items => do
      let parts ← items.mapM entriesOf
      return parts.reverse.flatten
    | n => entriesOf n

/-! ### Collections -/

/-- Problems, each with the number of collections around it. -/
abbrev Problems := List (Nat × Problem)

/-- What a part of a tree stands for, and the problems in it. -/
abbrev Reading (α : Type) := α × Problems

/-- The members of an object of entries that have been read; a key must be an atom. -/
def members (level : Nat) : List (Reading Value × Reading Value) → Reading Members
  | [] => ([], [])
  | ((.atom k, ps), (v, qs)) :: rest =>
    let (ms, rs) := members level rest
    ((k, v) :: ms, ps ++ qs ++ rs)
  | ((_, ps), (_, qs)) :: rest =>
    let (ms, rs) := members level rest
    (ms, ps ++ [(level, .malformed)] ++ qs ++ rs)

/-- The list of values that have been read. -/
def items (rs : List (Reading Value)) : Reading (List Value) :=
  (rs.map (·.1), rs.flatMap (·.2))

/-- A problem in place of a value. -/
def problem (level : Nat) (p : Problem) : Reading Value := (.null, [(level, p)])

/-- The number of places that a set has for its elements: eight, or for more than four elements the
least power of two above twice their number. -/
def places (count : Nat) : Nat := if count ≤ 4 then 8 else Nat.pow 2 ((2 * count).log2 + 1)

/-- The elements of a set in the order in which it lists them: whole numbers by their place, which is
their remainder, and any others as they were written. -/
def listed (es : List Atom) : List Atom :=
  let whole? (a : Atom) : Option Nat := a.asInt?.bind fun i => if 0 ≤ i then some i.toNat else none
  if es.all fun e => (whole? e).isSome then
    let place (a : Atom) : Nat := ((whole? a).getD 0) % places es.length
    es.mergeSort fun a b => place a ≤ place b
  else es

/-- A collection with its number. It is anchored if it occurs within itself, or lies within a
collection that does so there. -/
def numbered (number : Nat) (v : Value) : Value :=
  if v.isClosed [] then v else .anchored number v

/-- Reads a list of mappings with one entry each as pairs; `part` reads their keys and values. -/
def pairs (root : Node) (part : Node → Reading Value) (level number : Nat) (xs : List Node) :
    Reading Value :=
  let (vs, ps) := items (xs.map fun x =>
    match root.target x with
    | mapping inside _ [(k, v)] =>
      let (first, ps) := part k
      let (second, qs) := part v
      (numbered inside (.pair first second), ps ++ qs)
    | _ => problem level .malformed)
  (numbered number (.list vs), ps)

/-- Reads a node of a tree within collections with these numbers. -/
def read (root : Node) : Nat → List Nat → Node → Reading Value
  | 0, around, _ => problem around.length .malformed
  | fuel + 1, around, n =>
    let level := around.length
    let inner := level + 1
    let object (number : Nat) (entries : List (Node × Node)) : Reading Members :=
      match mergedEntries (merged root root.size) [] number [] entries with
      | .error p => ([], [(inner, p)])
      | .ok (others, own) =>
        let part := read root fuel (number :: around)
        let (ms, ps) := members inner ((others ++ own).map fun e => (part e.1, part e.2))
        (Members.ofList ms, ps)
    match root.target n with
    | scalar tag text =>
      if tag.isCollection then problem inner .malformed else leaf level (scalar tag text)
    | sequence number tag xs =>
      if around.contains number then (.reference number, [])
      else
        match tag with
        | .seq =>
          let (vs, ps) := items (xs.map (read root fuel (number :: around)))
          (numbered number (.list vs), ps)
        | .orderedMap => pairs root (read root fuel (number :: around)) inner number xs
        | .pairs => pairs root (read root fuel (number :: around)) inner number xs
        | .map => problem inner .malformed
        | .set => problem inner .malformed
        | tag => leaf level (sequence number tag xs)
    | mapping number tag entries =>
      if around.contains number then (.reference number, [])
      else
        match tag with
        | .map =>
          let (ms, ps) := object number entries
          (numbered number (.object ms), ps)
        | .set =>
          let (ms, ps) := object number entries
          (.set (listed ms.keys), ps)
        | .seq => problem inner .malformed
        | .orderedMap => problem inner .malformed
        | .pairs => problem inner .malformed
        | tag => leaf level (mapping number tag entries)
    | reference _ => problem level .malformed
where
  /-- Reads a node that stands for an atom. -/
  leaf (level : Nat) (n : Node) : Reading Value :=
    match n.text? with
    | none => problem level .malformed
    | some text =>
      match atom n text with
      | .ok a => (.atom a, [])
      | .error p => problem level p

/-- The problem to report: the first of those within the fewest collections. -/
def foremost : Problems → Option Problem
  | [] => none
  | p :: ps => some (ps.foldl (fun best q => if q.1 < best.1 then q else best) p).2

/-- The value that a tree stands for. Collections that lie within each other have different numbers, so
the size of the tree bounds their nesting. -/
def value (n : Node) : Except Problem Value :=
  let (v, ps) := read n (n.size + 1) [] n
  match foremost ps with
  | none => .ok v
  | some p => .error p

end Node

end Harvest.Yaml
