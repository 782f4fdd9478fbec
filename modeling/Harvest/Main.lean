import Harvest.Command
import Harvest.Data.Json.Parser
import Harvest.Remote.Http

/-!
# The program

The program works on the files below the working directory. It opens no connections itself: every
request is written to standard error as a line of JSON with the address, the headers and the body, and
its answer is read from standard input as another one, either `{"status": 200, "body": "..."}` or
`{"unreachable": "..."}`.
-/

namespace Harvest.Program

/-- Answers that have come, and the first request without one. -/
structure Exchange where
  answers : List HttpAnswer
  pending : Option Value

def valueOf (m : HttpMessage) : Value :=
  .record [("url", .str m.url.display), ("body", m.body),
    ("headers", .list (m.headers.map fun h => .list [.str h.1, .str h.2]))]

/-- Takes the next answer, if it has come. -/
def post (m : HttpMessage) : StateM Exchange HttpAnswer := do
  let e ← get
  match e.answers with
  | a :: rest =>
    set { e with answers := rest }
    return a
  | [] =>
    set { e with pending := e.pending.or (some (valueOf m)) }
    return .unreachable ""

/-- The remote that a configuration leads to. -/
def connect (c : Config) : Executor Exchange :=
  match Http.connect c.url c.headers with
  | .ok endpoint => Http.executor endpoint post
  | .error f => fun _ => return .broken f

def answerOf (line : String) : HttpAnswer :=
  match (Json.parse? line).getD .null with
  | .object ms =>
    match Members.field ms "status", Members.field ms "body", Members.field ms "unreachable" with
    | .int status, .str body, _ => .response status body
    | _, _, .str text => .unreachable text
    | _, _, _ => .unreachable "no answer"
  | _ => .unreachable "no answer"

def fuel : Nat := 1000000000

def urlVariable : String := "DRUPAL_GRAPHQL_URL"

/-- Carries out a command with the answers that have come so far. -/
def attempt (url : Option String) (words : List String) (disk : Disk) (answers : List HttpAnswer) :
    Command.Result (Disk × Exchange) :=
  Command.run { connect, environmentUrl := url, pace := ⟨false, fuel⟩ } words disk ⟨answers, none⟩

/-- The names in a directory, each with whether it is a directory itself. Hidden names are left out. -/
def entriesOf (directory : String) : IO (List (String × Bool)) := do
  let here ← IO.FS.realPath directory
  let entries ← here.readDir
  let entries := entries.toList.filter fun e => !e.fileName.startsWith "."
  entries.mapM fun e => do return (e.fileName, ← e.path.isDir)

/-- Puts the files below a directory on a disk. Files that are no text are left out. -/
partial def load (directory : String) (path : DiskPath) (disk : Disk) : IO Disk := do
  let mut disk := disk
  for (name, isDirectory) in ← entriesOf directory do
    let inner := path.child name
    if isDirectory then
      disk := (disk.makeDirectories inner).2
      disk ← load s!"{directory}/{name}" inner disk
    else
      try disk := disk.set inner (← IO.FS.readFile s!"{directory}/{name}") catch _ => pure ()
  return disk

def save (before after : Disk) : IO Unit := do
  for (path, text) in after.files do
    if before.text? path ≠ some text then
      IO.FS.createDirAll path.parent.display
      IO.FS.writeFile path.display text

/-- Carries out a command, asking for one answer after the other. -/
partial def perform (url : Option String) (words : List String) (disk : Disk)
    (answers : List HttpAnswer) : IO (Command.Result (Disk × Exchange)) := do
  let r := attempt url words disk answers
  match r.state.2.pending with
  | none => return r
  | some m =>
    IO.eprintln (Json.print .compact m)
    perform url words disk (answers ++ [answerOf (← (← IO.getStdin).getLine)])

end Harvest.Program

open Harvest Harvest.Program in
/-- Carries out the command line. -/
def main (words : List String) : IO UInt32 := do
  let disk ← load "." (.ofString "") .empty
  let r ← perform (← IO.getEnv urlVariable) words disk []
  save disk r.state.1
  IO.print r.output
  match r.ending with
  | .code n => return n.toUInt32
  | .exit n => return n.toUInt32
  | .failed e =>
    IO.eprintln s!"Failed: {e.message}"
    return 1
