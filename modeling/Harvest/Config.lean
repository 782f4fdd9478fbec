import Harvest.Data.Number
import Harvest.Data.Value.Pairs
import Harvest.Failure

/-!
# Configurations

A configuration says what is sourced and how. `Config.ofMembers` reads one from an object, in which any
member may be absent; `Config.check` tells whether a run can be started with it. Names and the address
are kept as they were given: a run uses them, this module does not.
-/

namespace Harvest

/-- The configuration of a run. -/
structure Config where
  url : Value
  languages : List String
  /-- What the names of node types begin with. -/
  typePrefix : Value
  fragmentsDir : Value
  /-- Where compiled documents are written, if they are. -/
  debugDir : Value
  headers : Members
  /-- The time in seconds after which a request is given up. -/
  timeout : Double
  /-- The number of types that are sourced at a time. -/
  concurrency : Int
  pageSize : Int
  /-- How deep a default fragment goes. -/
  fragmentDepth : Int
  /-- The filter of each type that has one. -/
  filters : Members
  deriving Repr, Inhabited

namespace Config

/-- The languages of a configuration that names none. -/
def defaultLanguages : List String := ["EN"]

/-- What the names of node types begin with by default. -/
def defaultPrefix : String := "Drupal"

/-- The time after which a request is given up by default. -/
def defaultTimeout : Double := Double.ofDecimal false 30 0

/-- The configuration without any settings. -/
def standard : Config :=
  { url := .null, languages := defaultLanguages, typePrefix := .str defaultPrefix
    fragmentsDir := .null, debugDir := .null, headers := [], timeout := defaultTimeout
    concurrency := 1, pageSize := 100, fragmentDepth := 2, filters := [] }

/-- The languages that a value lists; a single text is one language. -/
def languagesOf : Value → Except Fault (List String)
  | .null => .ok defaultLanguages
  | .str s => .ok [s]
  | v => do return (← v.parts).map Value.display

/-- The object that a value denotes, empty if there is nothing. -/
def objectOf (v : Value) : Except Fault Members := if v.isTruthy then v.toMembers else .ok []

/-- Reads a setting, where the default stands for one that is absent. -/
def setting {α : Type} (ms : Members) (key : String) (standard : α)
    (read : Value → Except Fault α) : Except Fault α :=
  match Members.field? ms key with
  | some v => read v
  | none => .ok standard

def ofMembers (ms : Members) : Except Fault Config := do
  let languages ← languagesOf (Members.field ms "languages")
  let headers ← objectOf (Members.field ms "headers")
  let timeout ← setting ms "timeout" standard.timeout Value.toDouble
  let concurrency ← setting ms "concurrency" standard.concurrency Value.toInt
  let pageSize ← setting ms "page_size" standard.pageSize Value.toInt
  let fragmentDepth ← setting ms "fragment_depth" standard.fragmentDepth Value.toInt
  let filters ← objectOf (Members.field ms "filters")
  return {
    url := Members.field ms "url"
    languages
    typePrefix := (Members.field? ms "type_prefix").getD standard.typePrefix
    fragmentsDir := Members.field ms "fragments_dir"
    debugDir := Members.field ms "debug_dir"
    headers, timeout, concurrency, pageSize, fragmentDepth, filters }

def ofValue (v : Value) : Except Fault Config :=
  match v.opened with
  | .object ms => ofMembers ms
  | _ => .error .part

/-- All settings as an object. -/
def toMembers (c : Config) : Members := [
  (.str "url", c.url),
  (.str "languages", .list (c.languages.map .str)),
  (.str "type_prefix", c.typePrefix),
  (.str "fragments_dir", c.fragmentsDir),
  (.str "debug_dir", c.debugDir),
  (.str "headers", .object c.headers),
  (.str "timeout", .float c.timeout),
  (.str "concurrency", .int c.concurrency),
  (.str "page_size", .int c.pageSize),
  (.str "fragment_depth", .int c.fragmentDepth),
  (.str "filters", .object c.filters)]

/-- Whether two configurations have equal settings. -/
def same (c d : Config) : Bool := (Value.object c.toMembers).same (.object d.toMembers)

/-- The first problem that keeps a configuration from being used. -/
def problem? (c : Config) : Option ConfigurationProblem :=
  if !c.url.isTruthy then some .missingUrl
  else if c.languages.isEmpty then some .noLanguages
  else if c.concurrency < 1 then some .concurrency
  else if c.pageSize < 1 then some .pageSize
  else if c.fragmentDepth < 0 then some .fragmentDepth
  else none

def check (c : Config) : Except Failure Unit :=
  match c.problem? with
  | some p => .error (.configuration p)
  | none => .ok ()

/-- A configuration passes exactly if all of its settings can be used. -/
theorem problem?_eq_none_iff (c : Config) :
    c.problem? = none ↔
      c.url.isTruthy = true ∧ c.languages ≠ [] ∧ 1 ≤ c.concurrency ∧ 1 ≤ c.pageSize
        ∧ 0 ≤ c.fragmentDepth := by
  unfold problem?
  cases h : c.url.isTruthy <;> cases hl : c.languages <;> simp
  split <;> (try split) <;> (try split) <;> simp <;> omega

end Config

end Harvest
