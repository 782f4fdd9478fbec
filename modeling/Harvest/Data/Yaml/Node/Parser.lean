import Harvest.Data.Yaml.Node.Resolution
import Harvest.Data.Yaml.Token.Lexer

/-!
# Building the tree of a YAML text

`Node.parse?` gives the tree of a text that holds one document, or no node when it holds none. An
anchor names a node from its start on, so that a collection can contain itself.
-/

namespace Harvest.Yaml

/-- What an anchor names: a node that is complete, or the number of a collection that is not. -/
inductive Anchored where
  | complete (n : Node)
  | begun (number : Nat)

/-- How far tokens have been put into a tree. -/
structure Composition where
  tokens : List Token
  /-- The abbreviations of tags, with what they stand for. -/
  handles : List (String × String)
  anchors : List (String × Anchored)
  /-- The number of the next collection. -/
  next : Nat

/-- A reader of a part of the tokens. -/
abbrev Composer (α : Type) := StateT Composition (Except Problem) α

inductive Place where
  /-- Within a flow collection. -/
  | flow
  /-- In a document or as an entry of a block sequence. -/
  | block
  /-- As a key or value of a block mapping, where a sequence needs no indentation. -/
  | member
  deriving DecidableEq, Repr

namespace Composer

def peek : Composer Token := return (← get).tokens.headD .streamEnd

def skip : Composer Unit := modify fun s => { s with tokens := s.tokens.tail }

/-- Passes over the next token if it is the given one, and says whether it is. -/
def accept (t : Token) : Composer Bool := do
  if (← peek) = t then
    skip
    return true
  else return false

def refuse {α : Type} : Composer α := do
  match ← peek with
  | .unreadable p => throw p
  | _ => throw .malformed

def fail {α : Type} : Composer α := throw .malformed

def skipAll (t : Token) : Composer Unit :=
  modify fun s => { s with tokens := s.tokens.dropWhile (· = t) }

/-- Passes over the comma before an entry of a flow collection, and says whether one may follow. The
first entry has no comma before it. -/
def separator (first : Bool) : Composer Bool := if first then return true else accept .flowEntry

/-- Refuses the next token if it cannot be read. -/
def demand : Composer Unit := do
  match ← peek with
  | .unreadable p => throw p
  | _ => return

def fresh : Composer Nat := do
  let n := (← get).next
  modify fun s => { s with next := n + 1 }
  return n

/-! ### Properties of nodes -/

/-- Reads the anchor and the tag before a node, in any order. After the first of them the next token is
read before anything is made of it. -/
def properties : Composer (Option String × Option (Option String × String)) := do
  match ← peek with
  | .anchor name =>
    skip
    demand
    match ← peek with
    | .tag handle suffix =>
      skip
      return (some name, some (handle, suffix))
    | _ => return (some name, none)
  | .tag handle suffix =>
    skip
    demand
    match ← peek with
    | .anchor name =>
      skip
      return (some name, some (handle, suffix))
    | _ => return (none, some (handle, suffix))
  | _ => return (none, none)

def fullName : Option (Option String × String) → Composer (Option String)
  | none => return none
  | some (none, suffix) => return some suffix
  | some (some handle, suffix) => do
    match (← get).handles.lookup handle with
    | some expansion => return some (expansion ++ suffix)
    | none => fail

def openAnchor (number : Nat) : Option String → Composer Unit
  | none => return
  | some name => do
    if ((← get).anchors.lookup name).isSome then fail
    else modify fun s => { s with anchors := (name, .begun number) :: s.anchors }

def closeAnchor (anchor : Option String) (n : Node) : Composer Unit :=
  match anchor with
  | none => return
  | some name => modify fun s => { s with anchors := (name, .complete n) :: s.anchors }

def named (name : String) : Composer Node := do
  match (← get).anchors.lookup name with
  | some (.complete n) => return n
  | some (.begun number) => return .reference number
  | none => fail

def scalarTag (name : Option String) (text : String) (plain : Bool) : TagName :=
  match name with
  | none => if plain then .ofText text else .str
  | some name => if name = "!" then .ofText text else .ofName name

def collectionTag (name : Option String) (usual : TagName) : TagName :=
  match name with
  | none => usual
  | some name => if name = "!" then usual else .ofName name

/-! ### Nodes -/

mutual

/-- Reads a node, or none before one of the given tokens. -/
def nodeBefore : Nat → Place → List Token → Composer Node
  | 0, _, _ => refuse
  | fuel + 1, place, ends => do
    if ends.contains (← peek) then return .empty else node fuel place

/-- Reads a node. -/
def node : Nat → Place → Composer Node
  | 0, _ => refuse
  | fuel + 1, place => do
    match ← peek with
    | .reference name =>
      skip
      named name
    | _ =>
      let (anchor, tag) ← properties
      let name ← fullName tag
      demand
      let number ← fresh
      openAnchor number anchor
      let n ← content fuel place number name (anchor.isSome || tag.isSome)
      closeAnchor anchor n
      return n

/-- Reads a node after its properties; a node may be empty if it has some. -/
def content : Nat → Place → Nat → Option String → Bool → Composer Node
  | 0, _, _, _, _ => refuse
  | fuel + 1, place, number, name, hasProperties => do
    let missing : Composer Node :=
      if hasProperties then return .scalar (scalarTag name "" true) "" else refuse
    match ← peek with
    | .scalar text plain =>
      skip
      return .scalar (scalarTag name text plain) text
    | .flowSequenceStart =>
      skip
      return .sequence number (collectionTag name .seq) (← flowItems fuel true)
    | .flowMappingStart =>
      skip
      return .mapping number (collectionTag name .map) (← flowEntries fuel true)
    | .blockSequenceStart =>
      if place = .flow then missing
      else
        skip
        return .sequence number (collectionTag name .seq) (← blockItems fuel)
    | .blockMappingStart =>
      if place = .flow then missing
      else
        skip
        return .mapping number (collectionTag name .map) (← blockEntries fuel)
    | .blockEntry =>
      if place = .member then
        return .sequence number (collectionTag name .seq) (← dashedItems fuel)
      else missing
    | _ => missing

def blockItems : Nat → Composer (List Node)
  | 0 => refuse
  | fuel + 1 => do
    match ← peek with
    | .blockEntry =>
      skip
      let item ← nodeBefore fuel .block [.blockEntry, .blockEnd]
      return item :: (← blockItems fuel)
    | .blockEnd =>
      skip
      return []
    | _ => refuse

def dashedItems : Nat → Composer (List Node)
  | 0 => refuse
  | fuel + 1 => do
    if ← accept .blockEntry then
      let item ← nodeBefore fuel .block [.blockEntry, .key, .value, .blockEnd]
      return item :: (← dashedItems fuel)
    else return []

def blockEntries : Nat → Composer (List (Node × Node))
  | 0 => refuse
  | fuel + 1 => do
    match ← peek with
    | .key =>
      skip
      let k ← nodeBefore fuel .member [.key, .value, .blockEnd]
      let v ← if ← accept .value then nodeBefore fuel .member [.key, .value, .blockEnd]
        else pure .empty
      return (k, v) :: (← blockEntries fuel)
    | .blockEnd =>
      skip
      return []
    | _ => refuse

def flowItems : Nat → Bool → Composer (List Node)
  | 0, _ => refuse
  | fuel + 1, first => do
    if ← accept .flowSequenceEnd then return []
    else if ← separator first then
      match ← peek with
      | .key =>
        skip
        let number ← fresh
        let k ← nodeBefore fuel .flow [.value, .flowEntry, .flowSequenceEnd]
        let v ← if ← accept .value then nodeBefore fuel .flow [.flowEntry, .flowSequenceEnd]
          else pure .empty
        return .mapping number .map [(k, v)] :: (← flowItems fuel false)
      | .flowSequenceEnd =>
        skip
        return []
      | _ =>
        let item ← node fuel .flow
        return item :: (← flowItems fuel false)
    else refuse

def flowEntries : Nat → Bool → Composer (List (Node × Node))
  | 0, _ => refuse
  | fuel + 1, first => do
    if ← accept .flowMappingEnd then return []
    else if ← separator first then
      match ← peek with
      | .key =>
        skip
        let k ← nodeBefore fuel .flow [.value, .flowEntry, .flowMappingEnd]
        let v ← if ← accept .value then nodeBefore fuel .flow [.flowEntry, .flowMappingEnd]
          else pure .empty
        return (k, v) :: (← flowEntries fuel false)
      | .flowMappingEnd =>
        skip
        return []
      | _ =>
        let k ← node fuel .flow
        return (k, .empty) :: (← flowEntries fuel false)
    else refuse

end

/-! ### Documents -/

/-- The abbreviations of tags that every document has. -/
def usualHandles : List (String × String) := [("!", "!"), ("!!", TagName.space)]

/-- Reads directives, and says whether one gives the version. -/
def directives : Nat → Bool → List (String × String) → Composer (List (String × String))
  | 0, _, _ => refuse
  | fuel + 1, versioned, handles => do
    match ← peek with
    | .version major =>
      skip
      if versioned || major ≠ 1 then fail else directives fuel true handles
    | .tagHandle short long =>
      skip
      if (handles.lookup short).isSome then fail
      else directives fuel versioned ((short, long) :: handles)
    | .otherDirective =>
      skip
      directives fuel versioned handles
    | _ => return handles ++ usualHandles

/-- Reads a document that starts with its marker, if there is one. -/
def markedDocument (fuel : Nat) : Composer (Option Node) := do
  skipAll .documentEnd
  if (← peek) = .streamEnd then return none
  else
    let handles ← directives fuel false []
    modify fun s => { s with handles }
    if ← accept .documentStart then
      let t ← peek
      if t.isDirective || t = .documentStart || t = .documentEnd || t = .streamEnd then
        return some .empty
      else return some (← node fuel .block)
    else refuse

def document (fuel : Nat) : Composer (Option Node) := do
  let t ← peek
  let root ←
    if t.isDirective || t = .documentStart || t = .streamEnd then markedDocument fuel
    else pure (some (← node fuel .block))
  skipAll .documentEnd
  if (← peek) = .streamEnd then return root else refuse

end Composer

/-- The tree of a text. -/
def Node.parse? (cs : List Char) : Except Problem (Option Node) :=
  let tokens := Token.scan cs
  let state : Composition := { tokens, handles := Composer.usualHandles, anchors := [], next := 0 }
  (Composer.document (4 * tokens.length + 8)).run' state

end Harvest.Yaml
