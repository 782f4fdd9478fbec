import Harvest.Data.Fault

/-!
# A disk

Files and directories under one working directory, as a value. A path is a list of names, and two dots
among them lead back from a directory: `Disk.locate` walks along a path to the place that it names. What
reads and writes go through is stated by `text?`, the text of the file at a place.
-/

namespace Harvest

/-- A path: the names on the way, from the working directory unless it is absolute. -/
structure DiskPath where
  absolute : Bool
  names : List String
  deriving DecidableEq, Repr, Inhabited

namespace DiskPath

/-- Reads a path. Empty names and single dots mean nothing. -/
def ofString (s : String) : DiskPath :=
  { absolute := s.toList.head? = some '/'
    names := ((s.toList.splitOn '/').map String.ofList).filter fun n => n ≠ "" ∧ n ≠ "." }

def display (p : DiskPath) : String :=
  match p.absolute, p.names with
  | true, ns => "/" ++ "/".intercalate ns
  | false, [] => "."
  | false, ns => "/".intercalate ns

/-- The path of an entry of a directory; the entry may itself be a path. -/
def child (p : DiskPath) (entry : String) : DiskPath :=
  let e := ofString entry
  if e.absolute then e else { p with names := p.names ++ e.names }

def parent (p : DiskPath) : DiskPath := { p with names := p.names.dropLast }

def last (p : DiskPath) : String := p.names.getLast?.getD ""

/-- The name that leads from a directory to the one that holds it. -/
def upward : String := ".."

/-- The place that one name leads to. At the working directory and above it, a step back is kept as it
is; nothing is above the root. -/
def enter (p : DiskPath) (name : String) : DiskPath :=
  if name ≠ upward then { p with names := p.names ++ [name] }
  else if p.names.getLast?.all (· == upward) then
    if p.absolute then p else { p with names := p.names ++ [upward] }
  else p.parent

/-- Whether a place is the working directory, or lies straight above it. -/
def isOrigin (p : DiskPath) : Bool := p.names.all (· == upward)

end DiskPath

/-- The order of two lists of texts, entry by entry. -/
def namesBefore : List String → List String → Bool
  | [], _ => true
  | _ :: _, [] => false
  | a :: as, b :: bs => if a = b then namesBefore as bs else decide (a < b)

/-- What a disk holds: the text of every file, and the directories, each under its place. -/
structure Disk where
  files : List (DiskPath × String)
  directories : List DiskPath
  deriving Repr, Inhabited

namespace Disk

def empty : Disk := ⟨[], []⟩

def nameLimit : Nat := 255

/-- A path has fewer bytes than this. -/
def pathLimit : Nat := 4096

def text? (d : Disk) (p : DiskPath) : Option String := (d.files.find? (·.1 == p)).map (·.2)

def isDirectory (d : Disk) (p : DiskPath) : Bool := p.isOrigin || d.directories.contains p

/-- The place that names lead to from another one. All places on the way have to be directories. -/
def walk (d : Disk) (place : DiskPath) : List String → Except Fault DiskPath
  | [] => .ok place
  | name :: rest =>
    if !d.isDirectory place then
      .error (if (d.text? place).isSome then .notDirectory else .missingFile)
    else if nameLimit < name.utf8ByteSize then .error .overlong
    else d.walk (place.enter name) rest

/-- The place that a path leads to, whether there is anything or not. -/
def locate (d : Disk) (p : DiskPath) : Except Fault DiskPath :=
  if p.names.any fun n => n.toList.contains '\x00' then .error .content
  else if pathLimit ≤ p.display.utf8ByteSize then .error .overlong
  else d.walk { p with names := [] } p.names

def pathExists (d : Disk) (p : DiskPath) : Except Fault Bool :=
  match d.locate p with
  | .ok place => .ok ((d.text? place).isSome || d.isDirectory place)
  | .error .overlong => .error .overlong
  | .error _ => .ok false

def putFile (p : DiskPath) (text : String) : List (DiskPath × String) → List (DiskPath × String)
  | [] => [(p, text)]
  | (q, t) :: rest => if q = p then (p, text) :: rest else (q, t) :: putFile p text rest

def set (d : Disk) (p : DiskPath) (text : String) : Disk := { d with files := putFile p text d.files }

/-- A text with every line ended by a line feed. -/
def unifyLineEnds : List Char → List Char
  | '\r' :: '\n' :: cs => '\n' :: unifyLineEnds cs
  | '\r' :: cs => '\n' :: unifyLineEnds cs
  | c :: cs => c :: unifyLineEnds cs
  | [] => []

/-- Reads a file as text: every line end becomes a line feed. -/
def read (d : Disk) (p : DiskPath) : Except Fault String := do
  let place ← d.locate p
  if d.isDirectory place then throw .directory
  match d.text? place with
  | some t => return String.ofList (unifyLineEnds t.toList)
  | none => throw .missingFile

/-- Opens a file for writing in a directory that exists: the file holds nothing then. Gives its place. -/
def create (d : Disk) (p : DiskPath) : Except Fault (DiskPath × Disk) := do
  let place ← d.locate p
  if d.isDirectory place then throw .directory
  return (place, d.set place "")

def write (d : Disk) (p : DiskPath) (text : String) : Except Fault Disk := do
  let (place, d) ← d.create p
  return d.set place text

/-- Makes a directory in one that exists, unless it is there already. -/
def makeDirectory (d : Disk) (p : DiskPath) : Except Fault Disk := do
  let place ← d.locate p
  if d.isDirectory place then return d
  if (d.text? place).isSome then throw .occupied
  return { d with directories := d.directories ++ [place] }

/-- Makes the directory to which names lead, the last one first, and before it those on the way that
are missing. What was made before a fault stays. -/
def makeBelow (d : Disk) (absolute : Bool) : List String → Except Fault Unit × Disk
  | [] => (.ok (), d)
  | name :: before =>
    let p : DiskPath := ⟨absolute, (name :: before).reverse⟩
    match d.makeDirectory p with
    | .ok d => (.ok (), d)
    | .error .missingFile =>
      match d.makeBelow absolute before with
      | (.ok _, d) =>
        match d.makeDirectory p with
        | .ok d => (.ok (), d)
        | .error f => (.error f, d)
      | (.error f, d) => (.error f, d)
    | .error f => (.error f, d)

/-- Makes a directory and all directories on the way to it. What was made before a fault stays. -/
def makeDirectories (d : Disk) (p : DiskPath) : Except Fault Unit × Disk :=
  d.makeBelow p.absolute p.names.reverse

/-- The names of the files and directories in the directory at a place. -/
def entriesIn (d : Disk) (place : DiskPath) : List String :=
  ((d.files.map (·.1) ++ d.directories).filter fun q =>
    q.parent == place && !q.isOrigin).map DiskPath.last

/-- All files below the working directory, sorted by path. -/
def listing (d : Disk) : List (DiskPath × String) :=
  (d.files.filter fun f => !f.1.absolute && f.1.names.head? != some DiskPath.upward).mergeSort
    fun a b => namesBefore a.1.names b.1.names

/-- The disk on which files with the given paths and texts have been placed. -/
def ofFiles (files : List (String × String)) : Disk :=
  files.foldl (fun d f =>
    let p := DiskPath.ofString f.1
    let d := (d.makeDirectories p.parent).2
    (d.write p f.2).toOption.getD d) empty

@[simp] theorem text?_set (d : Disk) (p q : DiskPath) (text : String) :
    (d.set p text).text? q = if q = p then some text else d.text? q := by
  obtain ⟨fs, ds⟩ := d
  simp only [set, text?]
  induction fs with
  | nil =>
    by_cases h : p = q
    · subst h
      simp [putFile]
    · have h' : q ≠ p := fun e => h e.symm
      simp [putFile, h, h']
  | cons f fs ih =>
    obtain ⟨r, t⟩ := f
    by_cases hr : r = p
    · subst hr
      by_cases h : r = q
      · subst h
        simp [putFile]
      · have h' : q ≠ r := fun e => h e.symm
        simp [putFile, h, h']
    · by_cases h : r = q
      · subst h
        simp [putFile, hr]
      · simp [putFile, hr, h, ih]

end Disk

end Harvest
