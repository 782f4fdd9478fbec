import Harvest.Config
import Harvest.Data.Yaml.Node.Parser
import Harvest.Data.Yaml.Node.Value
import Harvest.Data.Yaml.Printer
import Harvest.Storage.Disk

/-!
# Configuration files

A configuration is kept in a file as a YAML mapping. A file that does not exist holds none.
-/

namespace Harvest

/-- The value of a YAML text, null if it holds nothing. -/
def Yaml.parse (text : String) : Except Failure Value :=
  let result := do
    match ← Yaml.Node.parse? text.toList with
    | some n => n.value
    | none => return .null
  match result with
  | .ok v => .ok v
  | .error .malformed => .error .unreadable
  | .error (.fault f) => .error (.fault f)

namespace Config

/-- The file of a configuration if none is named. -/
def defaultPath : String := "graphsource.yaml"

/-- A result that can only fail by a fault. -/
def orFault {α : Type} : Except Fault α → Except Failure α
  | .ok a => .ok a
  | .error f => .error (.fault f)

/-- The configuration in a text; the path is for messages. -/
def ofText (path : DiskPath) (text : String) : Except Failure Config := do
  let v ← Yaml.parse text
  match if v.isTruthy then v.opened else .object [] with
  | .object ms => orFault (ofMembers ms)
  | _ => throw (.configuration (.noMapping path.display))

def load (disk : Disk) (path : String) : Except Failure (Option Config) := do
  let p := DiskPath.ofString path
  if ← orFault (disk.pathExists p) then
    let text ← orFault (disk.read p)
    return some (← ofText p text)
  else return none

def save (c : Config) (disk : Disk) (path : String) : Except Failure Disk :=
  orFault (disk.write (DiskPath.ofString path) (Yaml.render c.toMembers))

end Config

end Harvest
