import Harvest.Data.Yaml.Token

/-!
# The tree of a YAML text

A node is a scalar, a sequence or a mapping. Its tag says what it denotes; where the text gives none,
the tag of a collection follows from its form and that of a scalar from its characters. An alias has
been replaced by what it stands for, unless that is a collection around it: then it gives the number of
the collection.
-/

namespace Harvest.Yaml

inductive TagName where
  | null
  | bool
  | int
  | float
  | binary
  | timestamp
  | orderedMap
  | pairs
  | set
  | str
  | seq
  | map
  /-- The key under which another mapping is merged into one. -/
  | merge
  /-- The key of the default value of a mapping. -/
  | value
  /-- A tag without meaning. -/
  | unknown
  deriving DecidableEq, Repr, Inhabited

namespace TagName

/-- What the names of all known tags begin with. -/
def space : String := "tag:yaml.org,2002:"

/-- The names of the known tags, without the common beginning. -/
def names : List (String × TagName) := [
  ("null", null), ("bool", bool), ("int", int), ("float", float), ("binary", binary),
  ("timestamp", timestamp), ("omap", orderedMap), ("pairs", pairs), ("set", set), ("str", str),
  ("seq", seq), ("map", map), ("merge", merge), ("value", value)]

def ofName (name : String) : TagName :=
  ((names.find? fun n => space ++ n.1 == name).map (·.2)).getD unknown

def isCollection : TagName → Bool
  | seq => true
  | map => true
  | set => true
  | orderedMap => true
  | pairs => true
  | _ => false

end TagName

/-- A node. Collections are numbered in a document. -/
inductive Node where
  | scalar (tag : TagName) (text : String)
  | sequence (number : Nat) (tag : TagName) (items : List Node)
  | mapping (number : Nat) (tag : TagName) (entries : List (Node × Node))
  | reference (number : Nat)
  deriving Repr, Inhabited

namespace Node

def tag : Node → TagName
  | scalar t _ => t
  | sequence _ t _ => t
  | mapping _ t _ => t
  | reference _ => .unknown

/-- The node that stands where a text has none. -/
def empty : Node := scalar .null ""

mutual

def size : Node → Nat
  | scalar .. => 1
  | sequence _ _ xs => itemsSize xs + 1
  | mapping _ _ es => entriesSize es + 1
  | reference _ => 1

def itemsSize : List Node → Nat
  | [] => 0
  | x :: xs => size x + itemsSize xs

def entriesSize : List (Node × Node) → Nat
  | [] => 0
  | (k, v) :: es => size k + size v + entriesSize es

end

mutual

def find? (number : Nat) : Node → Option Node
  | sequence n t xs => if n = number then some (sequence n t xs) else findInItems? number xs
  | mapping n t es => if n = number then some (mapping n t es) else findInEntries? number es
  | _ => none

/-- The collection with a number among items and below them. -/
def findInItems? (number : Nat) : List Node → Option Node
  | [] => none
  | x :: xs => (find? number x).or (findInItems? number xs)

/-- The collection with a number among keys and values and below them. -/
def findInEntries? (number : Nat) : List (Node × Node) → Option Node
  | [] => none
  | (k, v) :: es => ((find? number k).or (find? number v)).or (findInEntries? number es)

end

/-- The collection that an alias stands for; any other node stands for itself. -/
def target (root : Node) : Node → Node
  | reference n => (root.find? n).getD (reference n)
  | n => n

end Node

end Harvest.Yaml
