import Harvest.Command.Options
import Harvest.Config.File
import Harvest.Sourcing
import Harvest.Storage.NodeLines

/-!
# Commands

There are three commands: `init` writes a configuration, `compile` writes the documents of all types
without asking for entities, and `source` writes all entities into a file. A command prints lines and
ends with a code. Failures of sourcing are printed; all others end the program.
-/

namespace Harvest

def programVersion : String := "graphsource 0.1.0"

namespace Command

def defaultDebugDir : String := ".cache/compiled-graphql-queries"

/-- Where a new configuration keeps fragments. -/
def defaultFragmentsDir : String := "src/drupal-fragments"

/-- The file of nodes by default. -/
def defaultOutput : String := "nodes.jsonl"

inductive Ending where
  | code (n : Nat)
  /-- The command line ended the program before any command began. -/
  | exit (n : Nat)
  /-- A failure ended the program. -/
  | failed (e : Failure)
  deriving Repr

/-- What a command leaves behind: how it ended, what it printed and what it worked on. -/
structure Result (σ : Type) where
  ending : Ending
  output : String
  state : σ

/-- What commands work on: a disk with the cache of fragments, the file of nodes and a remote. -/
structure Bench (ρ : Type) where
  cache : FragmentCache
  lines : NodeLines
  remote : ρ

namespace Bench

variable {ρ : Type}

def withDisk (b : Bench ρ) (disk : Disk) : Bench ρ := { b with cache := { b.cache with disk } }

def ask (remote : Executor ρ) : Executor (Bench ρ) := fun r b =>
  let (a, next) := remote r b.remote
  (a, { b with remote := next })

/-- The site of a run that writes records to the file of nodes. -/
def site (remote : Executor ρ) : Site (Bench ρ) :=
  { ask := ask remote
    cancelled := fun _ => false
    declare := fun d b =>
      let (r, lines, disk) := b.lines.declare b.cache.disk d
      (r, { b with lines }.withDisk disk)
    emit := fun d r b =>
      let (_, lines, disk) := b.lines.emit b.cache.disk d r
      { b with lines }.withDisk disk
    cache := Bench.cache
    keep := fun cache b => { b with cache } }

end Bench

/-- What surrounds commands. -/
structure Surroundings (ρ : Type) where
  /-- The remote that a configuration leads to. -/
  connect : Config → Executor ρ
  /-- The address that the environment names. -/
  environmentUrl : Option String
  pace : Sourcing.Pace

def nonempty? (s : Option String) : Option String := s.filter (· ≠ "")

/-- A text as a value, null if there is none. -/
def valueOf (s : Option String) : Value := (s.map Value.str).getD .null

def configPath (c : CommandLine) : String := (c.value? .config).getD Config.defaultPath

/-- The configuration of a command: the file, over which the command line has precedence, and an
address from the environment if there is no other. -/
def configuration (environmentUrl : Option String) (c : CommandLine) (disk : Disk) :
    Except Failure Config := do
  let config := (← Config.load disk (configPath c)).getD .standard
  let config :=
    match nonempty? (c.value? .url) with
    | some url => { config with url := .str url }
    | none => if config.url.isTruthy then config else { config with url := valueOf environmentUrl }
  let languages := c.values .language
  return if languages.isEmpty then config else { config with languages }

def storeOf (config : Config) : Except Fault FragmentStore :=
  if config.fragmentsDir.isTruthy then (Plan.directoryName config.fragmentsDir).map .ofName
  else .ok (.memory .empty)

def printed (lines : List String) : String := String.join (lines.map (· ++ "\n"))

/-- How a command ends after a failure, and what it prints about it. -/
def afterFailure (e : Failure) : Ending × String :=
  if e.isReported then (.code 1, printed [s!"Error: {e.message}"]) else (.failed e, "")

variable {ρ : Type}

def init (c : CommandLine) (b : Bench ρ) : Result (Bench ρ) :=
  let path := DiskPath.ofString (configPath c)
  match b.cache.disk.pathExists path with
  | .error f => { ending := .failed (.fault f), state := b, output := "" }
  | .ok isThere =>
  if isThere && !c.has .force then
    { ending := .code 1, state := b
      output := printed [s!"Error: {path.display} already exists. Use --force to overwrite."] }
  else
    let languages := c.values .language
    let config : Config :=
      { Config.standard with
        url := valueOf (c.value? .url)
        languages := if languages.isEmpty then Config.defaultLanguages else languages
        fragmentsDir := .str defaultFragmentsDir
        debugDir := .str defaultDebugDir }
    match config.save b.cache.disk (configPath c) with
    | .ok disk =>
      { ending := .code 0, state := b.withDisk disk, output := printed [s!"Created {path.display}"] }
    | .error e => { ending := .failed e, state := b, output := "" }

/-- The directory that compiled documents are written to. -/
def outputDir (c : CommandLine) (config : Config) : Value :=
  match nonempty? (c.value? .outputDir) with
  | some d => .str d
  | none => if config.debugDir.isTruthy then config.debugDir else .str defaultDebugDir

def writePlan (dir : Value) (p : Plan) (b : Bench ρ) : Result (Bench ρ) :=
  match Plan.directoryName dir with
  | .error f => { ending := .failed (.fault f), state := b, output := "" }
  | .ok name =>
    match writeTexts b.cache.disk name (p.documents.map CompiledDocument.text).entries with
    | (.error f, disk) => { ending := .failed (.fault f), state := b.withDisk disk, output := "" }
    | (.ok written, disk) =>
      { ending := .code 0, state := b.withDisk disk
        output := printed (s!"Compiled {written.length} documents into {dir.display}"
          :: p.skipped.map fun s => s!"  skipped {s.1}: {s.2}") }

def compile (around : Surroundings ρ) (c : CommandLine) (config : Config) (b : Bench ρ) :
    Result (Bench ρ) :=
  match Plan.prepare (Bench.site (around.connect config)) (.ofConfig config) b with
  | (.error e, b) =>
    let (ending, output) := afterFailure e
    { ending, output, state := b }
  | (.ok p, b) => writePlan (outputDir c config) p b

/-- Writes all entities into the file of nodes, which is closed in any case. -/
def source (around : Surroundings ρ) (config : Config) (b : Bench ρ) : Result (Bench ρ) :=
  let (outcome, b) := Sourcing.run (Bench.site (around.connect config)) around.pace (.ofConfig config) b
  let (ending, output) : Ending × String :=
    match outcome.result with
    | some (.error e) => afterFailure e
    | some (.ok report) => (.code 0, printed [report.summary])
    | none => (.code 0, "")
  let (closed, lines, disk) := b.lines.close b.cache.disk
  let b := { b with lines }.withDisk disk
  match closed with
  | .ok _ => { ending, output, state := b }
  | .error f =>
    { ending := .failed (.fault f), state := b
      output := match outcome.result with
        | some (.error _) => output
        | _ => "" }

/-- The configuration with the number of types that the command line asks for. -/
def withConcurrency (c : CommandLine) (config : Config) : Config :=
  match (c.value? .concurrency).bind Numeral.int? with
  | some n => if n = 0 then config else { config with concurrency := n }
  | none => config

/-- Carries out a command that needs a configuration. -/
def configured (around : Surroundings ρ) (c : CommandLine) (b : Bench ρ)
    (act : Config → Bench ρ → Result (Bench ρ)) : Result (Bench ρ) :=
  let prepared : Except Failure (Config × FragmentStore) := do
    let config ← configuration around.environmentUrl c b.cache.disk
    return (config, ← Config.orFault (storeOf config))
  match prepared with
  | .error e => { ending := .failed e, state := b, output := "" }
  | .ok (config, store) => act config { b with cache := { b.cache with store } }

def perform (around : Surroundings ρ) (c : CommandLine) (b : Bench ρ) : Result (Bench ρ) :=
  match c.verb with
  | none => { ending := .code 0, state := b, output := printed [Level.program.usage] }
  | some .init => init c b
  | some .compile => configured around c b fun config b => compile around c config b
  | some .source =>
    let b := { b with lines := NodeLines.atPath ((c.value? .output).getD defaultOutput) }
    configured around c b fun config b => source around (withConcurrency c config) b

/-- Carries out the command that some words make up, on a disk and with a remote. -/
def run (around : Surroundings ρ) (words : List String) (disk : Disk) (remote : ρ) :
    Result (Disk × ρ) :=
  let b : Bench ρ := { cache := ⟨.memory .empty, disk⟩, lines := .atPath defaultOutput, remote }
  match CommandLine.parse words with
  | .error .misused => { ending := .exit 2, output := "", state := (disk, remote) }
  | .error (.help level) => { ending := .exit 0, output := printed [level.usage], state := (disk, remote) }
  | .error .version => { ending := .exit 0, output := printed [programVersion], state := (disk, remote) }
  | .ok c =>
    let r := perform around c b
    { ending := r.ending, output := r.output, state := (r.state.cache.disk, r.state.remote) }

end Command

end Harvest
