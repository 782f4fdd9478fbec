import Harvest.Data.Json.Printer
import Harvest.Entity.CompiledDocument
import Harvest.Entity.Record
import Harvest.Storage.Disk

/-!
# Nodes as lines of JSON

The records of a run, one JSON object per line of a file:

    {"type": "DrupalNodeArticle", "id": "NodeArticle:1:en", "data": {...}}

The file is opened by the first type that is declared, the first record, or at the latest when it is
closed. Opening it makes the directories on the way to it and removes what it held. Characters outside
ASCII stand for themselves in a line, so that a record with half of a pair in one of its texts has none.
-/

namespace Harvest

structure NodeLines where
  path : DiskPath
  declared : Keyed NodeDefinition
  /-- The place of the file while it is open. -/
  openAt : Option DiskPath
  /-- Whether the file has been closed at least once. -/
  isClosed : Bool
  deriving Repr, Inhabited

namespace NodeLines

/-- The file at a path, before anything is done with it. -/
def atPath (path : String) : NodeLines :=
  { path := .ofString path, declared := .empty, openAt := none, isClosed := false }

def line (d : NodeDefinition) (r : EntityRecord) : String :=
  Json.print .line (.record
    [("type", .str d.nodeType), ("id", .str r.nodeId), ("data", .object r.data)]) ++ "\n"

def isOpen (l : NodeLines) : Bool := l.openAt.isSome

/-- Opens the file, unless it is open. Directories that were made for it stay, whatever happens then. -/
def opened (l : NodeLines) (disk : Disk) : Except Fault DiskPath × NodeLines × Disk :=
  match l.openAt with
  | some place => (.ok place, l, disk)
  | none =>
    match disk.makeDirectories l.path.parent with
    | (.error f, disk) => (.error f, l, disk)
    | (.ok _, disk) =>
      match disk.create l.path with
      | .error f => (.error f, l, disk)
      | .ok (place, disk) => (.ok place, { l with openAt := some place }, disk)

def declare (l : NodeLines) (disk : Disk) (d : NodeDefinition) : Except Fault Unit × NodeLines × Disk :=
  match { l with declared := l.declared.insert d.typeName d }.opened disk with
  | (.ok _, l, disk) => (.ok (), l, disk)
  | (.error f, l, disk) => (.error f, l, disk)

def append (disk : Disk) (place : DiskPath) (text : String) : Disk :=
  disk.set place ((disk.text? place).getD "" ++ text)

def emit (l : NodeLines) (disk : Disk) (d : NodeDefinition) (r : EntityRecord) :
    Except Fault Unit × NodeLines × Disk :=
  match l.opened disk with
  | (.ok place, l, disk) => (.ok (), l, append disk place (line d r))
  | (.error f, l, disk) => (.error f, l, disk)

/-- Adds the line of a raw record. The texts of a record are in its line, so that a line with a text that
has no bytes cannot be written; the file is open when that is found. -/
def emitRaw (l : NodeLines) (disk : Disk) (d : NodeDefinition) (r : RawRecord) :
    Except Fault Unit × NodeLines × Disk :=
  match r.record? with
  | some r => l.emit disk d r
  | none =>
    match l.opened disk with
    | (.ok _, l, disk) => (.error .unencodable, l, disk)
    | (.error f, l, disk) => (.error f, l, disk)

/-- Closes the file, the first time that it is asked for. -/
def close (l : NodeLines) (disk : Disk) : Except Fault Unit × NodeLines × Disk :=
  if l.isClosed then (.ok (), l, disk)
  else
    match l.opened disk with
    | (.ok _, l, disk) => (.ok (), { l with openAt := none, isClosed := true }, disk)
    | (.error f, l, disk) => (.error f, l, disk)

/-- An open file stays as it is. -/
@[simp] theorem opened_of_openAt {l : NodeLines} {place : DiskPath} (disk : Disk)
    (h : l.openAt = some place) : l.opened disk = (.ok place, l, disk) := by simp [opened, h]

end NodeLines

end Harvest
