import Harvest.Data.Keyed
import Harvest.Storage.Disk
import Harvest.Text.RawText

/-!
# Stores of fragment texts

A fragment store keeps the text of one fragment per entity type: in memory, or in a directory with a
file for each type. Both are maps from names to texts; a directory gives texts back with their line
ends unified. Any kind of texts may be kept (`FileText`), and texts of characters are meant where none is
named. Of the others a directory keeps only an empty file.
-/

namespace Harvest

/-- The ending of the names of files that hold fragments or documents. -/
def fragmentSuffix : String := ".graphql"

/-- Where the texts of fragments are kept. -/
inductive FragmentStore (τ : Type := String) where
  | memory (texts : Keyed τ)
  | directory (path : DiskPath)
  deriving Repr, Inhabited

namespace FragmentStore

variable {τ : Type}

/-- The store for a directory name; without a name texts are kept in memory. -/
def ofName (name : String) : FragmentStore τ :=
  if name = "" then .memory .empty else .directory (.ofString name)

def file (path : DiskPath) (typeName : String) : DiskPath := path.child (typeName ++ fragmentSuffix)

def read [FileText τ] (store : FragmentStore τ) (disk : Disk) (typeName : String) :
    Except Fault (Option τ) :=
  match store with
  | .memory texts => .ok (texts.get? typeName)
  | .directory path =>
    do
      if ← disk.pathExists (file path typeName) then
        (disk.read (file path typeName)).map fun text => some (FileText.ofString text)
      else return none

/-- Keeps the text of a type. A directory that was made for it stays, whatever happens then, and so does
the file of a text that turns out to have no bytes: it is opened, and empty, when that is found. -/
def write [FileText τ] (store : FragmentStore τ) (disk : Disk) (typeName : String) (text : τ) :
    Except Fault (FragmentStore τ) × Disk :=
  match store with
  | .memory texts => (.ok (.memory (texts.insert typeName text)), disk)
  | .directory path =>
    match disk.makeDirectories path with
    | (.error f, disk) => (.error f, disk)
    | (.ok _, disk) =>
      match disk.write (file path typeName) (FileText.kept text) with
      | .ok disk =>
        (if FileText.isWritable text then .ok (.directory path) else .error .unencodable, disk)
      | .error f => (.error f, disk)

/-- The name of a file without its last suffix. A dot at the front or the end starts no suffix. -/
def stem (fileName : String) : String :=
  let cs := fileName.toList
  let tail := cs.reverse.takeWhile (· ≠ '.')
  let front := cs.take (cs.length - tail.length - 1)
  if tail.isEmpty ∨ tail.length = cs.length ∨ front.isEmpty then fileName
  else String.ofList front

/-- The names in the directory at a path that end like those of fragments, without that ending. Where
there is no directory, there are none. -/
def namesIn (disk : Disk) (path : DiskPath) : Except Fault (List String) :=
  match disk.locate path with
  | .ok place =>
    .ok <| if disk.isDirectory place then
        ((disk.entriesIn place).filter fun n => fragmentSuffix.toList.isSuffixOf n.toList).map stem
      else []
  | .error .overlong => .error .overlong
  | .error _ => .ok []

/-- The names of the types with a text, sorted. In a directory, whatever has a name like the file of a
fragment counts. -/
def names (store : FragmentStore τ) (disk : Disk) : Except Fault (List String) :=
  let found : Except Fault (List String) := match store with
    | .memory texts => .ok texts.keys
    | .directory path => namesIn disk path
  found.map fun ns => ns.mergeSort fun a b => decide (a ≤ b)

end FragmentStore

/-- Writes a file for every named text into a directory. -/
def writeFiles (path : DiskPath) (disk : Disk) : List (String × String) → Except Fault Unit × Disk
  | [] => (.ok (), disk)
  | (name, text) :: rest =>
    match disk.write (FragmentStore.file path name) text with
    | .ok disk => writeFiles path disk rest
    | .error f => (.error f, disk)

/-- Writes a file for every named text into a directory, which is made if need be, and gives the paths
written. What was written before a fault stays. -/
def writeTexts (disk : Disk) (directory : String) (texts : List (String × String)) :
    Except Fault (List DiskPath) × Disk :=
  let path := DiskPath.ofString directory
  match disk.makeDirectories path with
  | (.error f, disk) => (.error f, disk)
  | (.ok _, disk) =>
    match writeFiles path disk texts with
    | (.ok _, disk) => (.ok (texts.map fun t => FragmentStore.file path t.1), disk)
    | (.error f, disk) => (.error f, disk)

end Harvest
