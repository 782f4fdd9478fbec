import Harvest.Proofs.Command.FatalFailure

/-!
# Failures that end a command

The commands `compile` and `source` are to print a failure of sourcing and to end with the code 1. They do
so for whatever is met in preparing and in sourcing, but the configuration is read before anything is
prepared to print a failure: one that is no mapping ends the program (`Sample.listed_configuration_fails`).
`run_reports` says that this is the only failure of sourcing that gets away.

Failures of the program and failures of sourcing are of one type, `Failure`, and `Failure.isReported` tells
those that a command is to print. In reading a configuration all but one failure is a fault, which is not
for printing; `Config.load_isReported_iff` singles out the one. After that a command runs under a handler
that prints what is reported, and only faults get through it.

The theorem on whole commands is by the command that was asked for, and within it by how far the command
comes: to its configuration, to its store, or to what it is there for.
-/

namespace Harvest

/-! ## Reading the configuration

A file is looked for, read, parsed and taken for a mapping. Each step may fail, and only the last one by a
failure that is to be printed. -/

namespace Config

variable {disk : Disk} {path : String} {e : Failure}

/-- Whether the file at a path holds a value that counts as present, but is no mapping. -/
def Unmapped (disk : Disk) (path : String) : Prop :=
  disk.pathExists (.ofString path) = .ok true ∧ ∃ text v, disk.read (.ofString path) = .ok text
    ∧ Yaml.parse text = .ok v ∧ v.isTruthy = true ∧ ∀ ms, v.opened ≠ .object ms

/-- What fails by a fault is not printed. -/
theorem orFault_error {α : Type} {x : Except Fault α} (h : orFault x = .error e) :
    e.isReported = false := by
  cases x with
  | ok a => cases h
  | error f =>
      cases h
      rfl

theorem orFault_ok {α : Type} {x : Except Fault α} {a : α} (h : orFault x = .ok a) : x = .ok a := by
  cases x with
  | ok b =>
      cases h
      rfl
  | error f => cases h

/-- A text that is no YAML is a fault of the reader. -/
theorem parse_error {text : String} (h : Yaml.parse text = .error e) : e.isReported = false := by
  unfold Yaml.parse at h
  dsimp only at h
  split at h
  next => cases h
  next =>
    cases h
    rfl
  next =>
    cases h
    rfl

/-- A value that is no mapping is refused with the path of the file. -/
theorem load_unmapped (h : Unmapped disk path) :
    load disk path = .error (.configuration (.noMapping (DiskPath.ofString path).display)) := by
  obtain ⟨hthere, text, v, hread, hparse, htruthy, hopened⟩ := h
  simp only [load, ofText, hthere, hread, hparse, htruthy, orFault, bind, Except.bind, if_true]
  rfl

/-- There is only one reason for which the text of a file is refused with a message: it is no mapping. -/
theorem ofText_isReported {p : DiskPath} {text : String} (h : ofText p text = .error e)
    (he : e.isReported = true) :
    ∃ v, Yaml.parse text = .ok v ∧ v.isTruthy = true ∧ ∀ ms, v.opened ≠ .object ms := by
  rcases bind_error h with h | ⟨v, hv, h⟩
  · cases he.symm.trans (parse_error h)
  · refine ⟨v, hv, ?_⟩
    cases htruthy : v.isTruthy with
    | false =>
        rw [htruthy] at h
        cases he.symm.trans (orFault_error h)
    | true =>
        rw [htruthy, if_pos rfl] at h
        split at h
        next ms _ => cases he.symm.trans (orFault_error h)
        next hopened => exact ⟨rfl, hopened⟩

/-- A failure that is to be printed tells that the file holds no mapping. -/
theorem unmapped_of_load (h : load disk path = .error e) (he : e.isReported = true) :
    Unmapped disk path := by
  rcases bind_error h with h | ⟨isThere, hthere, h⟩
  · cases he.symm.trans (orFault_error h)
  · cases isThere with
    | false => cases h
    | true =>
        rw [if_pos rfl] at h
        rcases bind_error h with h | ⟨text, hread, h⟩
        · cases he.symm.trans (orFault_error h)
        · rcases bind_error h with h | ⟨config, -, h⟩
          · exact ⟨orFault_ok hthere, text, (ofText_isReported h he).imp fun v hv => ⟨orFault_ok hread, hv⟩⟩
          · cases h

/-- **The only failure of sourcing in reading a configuration** is that there is no mapping. -/
theorem load_isReported_iff (he : e.isReported = true) :
    load disk path = .error e ↔ Unmapped disk path
      ∧ e = .configuration (.noMapping (DiskPath.ofString path).display) := by
  constructor
  · intro h
    have hun := unmapped_of_load h he
    exact ⟨hun, Except.error.inj (h.symm.trans (load_unmapped hun))⟩
  · rintro ⟨hun, rfl⟩
    exact load_unmapped hun

end Config

/-! ## Commands that are configured

The configuration and the store come before the command itself and outside of its handler. -/

namespace Command

variable {ρ : Type} {around : Surroundings ρ} {c : CommandLine} {config : Config} {b : Bench ρ}
  {act : Config → Bench ρ → Result (Bench ρ)} {e : Failure}

/-- A configuration fails where its file does. -/
theorem configuration_error (environmentUrl : Option String) {disk : Disk} :
    configuration environmentUrl c disk = .error e ↔ Config.load disk (configPath c) = .error e := by
  rw [configuration]
  cases Config.load disk (configPath c) with
  | ok config => constructor <;> rintro ⟨⟩
  | error e' =>
      constructor
      · rintro ⟨⟩
        rfl
      · rintro ⟨⟩
        rfl

theorem configured_failed (h : configuration around.environmentUrl c b.cache.disk = .error e) :
    configured around c b act = { ending := .failed e, output := "", state := b } := by
  rw [configured, h]
  rfl

theorem configured_unstored {f : Fault} (h : configuration around.environmentUrl c b.cache.disk = .ok config)
    (hs : storeOf config = .error f) :
    configured around c b act = { ending := .failed (.fault f), output := "", state := b } := by
  rw [configured, h]
  dsimp only [bind, Except.bind]
  rw [hs]
  rfl

/-- With a configuration and a store the command does its work. -/
theorem configured_stored {store : FragmentStore}
    (h : configuration around.environmentUrl c b.cache.disk = .ok config) (hs : storeOf config = .ok store) :
    configured around c b act = act config { b with cache := { b.cache with store } } := by
  rw [configured, h]
  dsimp only [bind, Except.bind]
  rw [hs]
  rfl

/-- A command whose action does not end with a failure of sourcing ends with one in its configuration only. -/
theorem configured_failed_iff (act : Config → Bench ρ → Result (Bench ρ))
    (hact : ∀ config b e, (act config b).ending = .failed e → e.isReported = false)
    (he : e.isReported = true) :
    (configured around c b act).ending = .failed e
      ↔ configuration around.environmentUrl c b.cache.disk = .error e := by
  constructor
  · intro h
    cases hconfig : configuration around.environmentUrl c b.cache.disk with
    | error e' =>
        rw [configured_failed hconfig] at h
        cases h
        rfl
    | ok config =>
        cases hstore : storeOf config with
        | error f =>
            rw [configured_unstored hconfig hstore] at h
            cases h
            cases he
        | ok store =>
            rw [configured_stored hconfig hstore] at h
            cases he.symm.trans (hact _ _ _ h)
  · intro h
    rw [configured_failed h]

/-! ### Failures of the work

A failure that has a message is printed, and the command ends with a code. Whatever else a command ends with
is a fault, which has none. -/

theorem afterFailure_reported (he : e.isReported = true) :
    afterFailure e = (.code 1, printed [s!"Error: {e.message}"]) := if_pos he

theorem afterFailure_failed {e' : Failure} (h : (afterFailure e').1 = .failed e) : e.isReported = false := by
  unfold afterFailure at h
  split at h
  next => cases h
  next hne =>
    cases h
    exact Bool.not_eq_true _ ▸ hne

/-- What ends the writing of documents is a fault. -/
theorem writePlan_failed {dir : Value} {p : Plan} (h : (writePlan dir p b).ending = .failed e) :
    e.isReported = false := by
  unfold writePlan at h
  split at h
  next =>
    cases h
    rfl
  next =>
    split at h
    next =>
      cases h
      rfl
    next => cases h

/-- What ends `compile` otherwise than with a code is no failure that should have been printed. -/
theorem compile_failed (h : (compile around c config b).ending = .failed e) : e.isReported = false := by
  unfold compile at h
  split at h
  next => exact afterFailure_failed h
  next => exact writePlan_failed h

/-- What ends `source` otherwise than with a code is no failure that should have been printed. -/
theorem source_failed (h : (source around config b).ending = .failed e) : e.isReported = false := by
  unfold source at h
  dsimp only at h
  split at h
  next =>
    split at h
    next => exact afterFailure_failed h
    next => cases h
    next => cases h
  next =>
    cases h
    rfl

/-! ## Whole commands

From the words of the command line to the ending of the program. -/

variable {words : List String} {disk : Disk} {remote : ρ}

/-- Where the command `source` writes to. -/
def outputOf (c : CommandLine) : String := (c.value? .output).getD defaultOutput

/-- Whether a command that has its configuration meets a failure, in preparing or in sourcing, and what it
works on is left in a state then. -/
inductive Meets (around : Surroundings ρ) (c : CommandLine) (disk : Disk) (remote : ρ) :
    Failure → Bench ρ → Prop
  | preparing {config : Config} {store : FragmentStore} {e : Failure} {b : Bench ρ}
      (hverb : c.verb = some .compile) (hconfig : configuration around.environmentUrl c disk = .ok config)
      (hstore : storeOf config = .ok store)
      (h : Plan.prepare (Bench.site (around.connect config)) (.ofConfig config)
        ⟨⟨store, disk⟩, .atPath defaultOutput, remote⟩ = (.error e, b)) :
      Meets around c disk remote e b
  | sourcing {config : Config} {store : FragmentStore} {e : Failure} {outcome : Sourcing.Outcome Report}
      {b : Bench ρ} (hverb : c.verb = some .source)
      (hconfig : configuration around.environmentUrl c disk = .ok config)
      (hstore : storeOf config = .ok store)
      (h : Sourcing.run (Bench.site (around.connect (withConcurrency c config))) around.pace
        (.ofConfig (withConcurrency c config)) ⟨⟨store, disk⟩, .atPath (outputOf c), remote⟩ = (outcome, b))
      (hresult : outcome.result = some (.error e)) : Meets around c disk remote e b

/-- What a command works on at first, with a file of nodes at a path. -/
def benchAt (path : String) (disk : Disk) (remote : ρ) : Bench ρ :=
  ⟨⟨.memory .empty, disk⟩, .atPath path, remote⟩

/-- What is left of what a command worked on. -/
def left (r : Result (Bench ρ)) : Result (Disk × ρ) :=
  { ending := r.ending, output := r.output, state := (r.state.cache.disk, r.state.remote) }

@[simp] theorem left_ending (r : Result (Bench ρ)) : (left r).ending = r.ending := rfl

/-! ### Words and commands

Whatever the words were, a command that could be parsed does what `configured` does with its action. -/

/-- The words of `compile` run that command on its configuration. -/
theorem run_compile (hparse : CommandLine.parse words = .ok c) (hverb : c.verb = some .compile) :
    run around words disk remote
      = left (configured around c (benchAt defaultOutput disk remote)
          fun config b => compile around c config b) := by
  rw [run, hparse]
  dsimp only
  rw [perform, hverb]
  rfl

/-- The words of `source` run that command with its output and its concurrency. -/
theorem run_source (hparse : CommandLine.parse words = .ok c) (hverb : c.verb = some .source) :
    run around words disk remote
      = left (configured around c (benchAt (outputOf c) disk remote)
          fun config b => source around (withConcurrency c config) b) := by
  rw [run, hparse]
  dsimp only
  rw [perform, hverb]
  rfl

/-- What is met in sourcing is printed. The code 1 is for a file of nodes that can be closed. -/
theorem source_reports {path : String} (hlines : b.lines = .atPath path) {outcome : Sourcing.Outcome Report}
    {b' : Bench ρ}
    (h : Sourcing.run (Bench.site (around.connect config)) around.pace (.ofConfig config) b = (outcome, b'))
    (hresult : outcome.result = some (.error e)) (he : e.isReported = true) :
    (source around config b).output = printed [s!"Error: {e.message}"]
      ∧ ((source around config b).ending = .code 1
        ∨ ∃ f, ((NodeLines.atPath path).close b'.cache.disk).1 = .error f
          ∧ (source around config b).ending = .failed (.fault f)) := by
  have hfailed := Sourcing.run_isReported (o := .ofConfig config) rfl (by rw [h]; exact hresult) he
  -- No plan was made, so the file is still as the command line named it.
  have hlines' : b'.lines = .atPath path := by
    rw [← hlines, ← lines_prepare (around.connect config) (.ofConfig config) b, ← hfailed.2, h]
  obtain ⟨⟨closed, lines, disk⟩, hclose⟩ : ∃ x, (NodeLines.atPath path).close b'.cache.disk = x := ⟨_, rfl⟩
  rw [source, h]
  dsimp only
  rw [hlines', hclose, hresult]
  dsimp only
  rw [afterFailure_reported he]
  cases closed with
  | ok _ => exact ⟨rfl, .inl rfl⟩
  | error f => exact ⟨rfl, .inr ⟨f, rfl, rfl⟩⟩

/-- **Failures of sourcing are reported**, whatever the words, the environment, the disk and the remote,
with one exception: a configuration that is no mapping ends the program, and nothing is printed. What is met
in preparing or in sourcing is printed, and the command ends with the code 1, unless it cannot even close
the file of nodes. -/
theorem run_reports (around : Surroundings ρ) {words : List String} (disk : Disk) (remote : ρ)
    {c : CommandLine} (hparse : CommandLine.parse words = .ok c)
    (hverb : c.verb = some .compile ∨ c.verb = some .source) :
    (∀ e, e.isReported = true → ((run around words disk remote).ending = .failed e ↔
        Config.Unmapped disk (configPath c)
          ∧ e = .configuration (.noMapping (DiskPath.ofString (configPath c)).display)))
      ∧ (Config.Unmapped disk (configPath c) → (run around words disk remote).output = ""
        ∧ (run around words disk remote).state = (disk, remote))
      ∧ ∀ e b, Meets around c disk remote e b → e.isReported = true →
        (run around words disk remote).output = printed [s!"Error: {e.message}"]
          ∧ ((run around words disk remote).ending = .code 1
            ∨ (c.verb = some .source
              ∧ ∃ f, ((NodeLines.atPath (outputOf c)).close b.cache.disk).1 = .error f
                ∧ (run around words disk remote).ending = .failed (.fault f))) := by
  refine ⟨fun e he => ?_, fun h => ?_, fun e b h he => ?_⟩
  -- a reported failure leaves a run only from the loading of its configuration, before anything could print it
  · rw [← Config.load_isReported_iff he, ← configuration_error around.environmentUrl]
    rcases hverb with hverb | hverb
    · rw [run_compile hparse hverb, left_ending]
      exact configured_failed_iff (compile around c) (fun _ _ _ => compile_failed) he
    · rw [run_source hparse hverb, left_ending]
      exact configured_failed_iff (fun config => source around (withConcurrency c config))
        (fun _ _ _ => source_failed) he
  · have hconfig := (configuration_error around.environmentUrl).mpr (Config.load_unmapped h)
    rcases hverb with hverb | hverb
    · rw [run_compile hparse hverb, configured_failed (b := benchAt defaultOutput disk remote) hconfig]
      exact ⟨rfl, rfl⟩
    · rw [run_source hparse hverb, configured_failed (b := benchAt (outputOf c) disk remote) hconfig]
      exact ⟨rfl, rfl⟩
  -- what was met while preparing or sourcing is printed; only closing the output file may still fail
  · cases h with
    | preparing hverb hconfig hstore h =>
        rw [run_compile hparse hverb,
          configured_stored (b := benchAt defaultOutput disk remote) hconfig hstore, compile, benchAt, h]
        dsimp only
        rw [afterFailure_reported he]
        exact ⟨rfl, .inl rfl⟩
    | sourcing hverb hconfig hstore h hresult =>
        rw [run_source hparse hverb,
          configured_stored (b := benchAt (outputOf c) disk remote) hconfig hstore]
        obtain ⟨houtput, hending⟩ := source_reports rfl h hresult he
        exact ⟨houtput, hending.imp_right fun hf => ⟨hverb, hf⟩⟩

end Command

/-! ## A configuration that is a list -/

namespace Sample

open Command

/-- The words of a command that names its configuration. -/
def compileWords : List String := ["--config", "c", "compile"]

/-- What these words stand for. -/
def compileLine : CommandLine := ⟨[(.config, "c")], some .compile⟩

/-- A disk with a configuration that is a list of an empty list. -/
def listed : Disk := ⟨[(⟨false, ["c"]⟩, "[[]]")], []⟩

theorem parse_listed : Yaml.parse "[[]]" = .ok (.list [.list []]) := by
  have htree : Yaml.Node.parse? "[[]]".toList = .ok (some (.sequence 0 .seq [.sequence 1 .seq []])) := rfl
  have hvalue : (Yaml.Node.sequence 0 .seq [.sequence 1 .seq []]).value = .ok (.list [.list []]) := by cbv
  rw [Yaml.parse, htree]
  dsimp only [bind, Except.bind]
  rw [hvalue]

theorem unmapped_listed : Config.Unmapped listed "c" := by
  have hpath : DiskPath.ofString "c" = ⟨false, ["c"]⟩ := by cbv
  refine ⟨?_, "[[]]", .list [.list []], ?_, parse_listed, rfl, ?_⟩
  · rw [hpath]
    rfl
  · rw [hpath]
    rfl
  · rintro _ ⟨⟩

/-- The failure ends the program. It should have been printed. -/
theorem listed_configuration_fails :
    ∃ e : Failure, e.isReported = true ∧ (run nowhere compileWords listed ()).ending = .failed e
      ∧ (run nowhere compileWords listed ()).output = "" := by
  have hparse : CommandLine.parse compileWords = .ok compileLine := rfl
  have hpath : configPath compileLine = "c" := rfl
  obtain ⟨hfailed, hsilent, -⟩ := run_reports nowhere listed () hparse (.inl rfl)
  rw [hpath] at hsilent
  refine ⟨_, rfl, (hfailed _ rfl).mpr ⟨?_, rfl⟩, (hsilent unmapped_listed).1⟩
  rw [hpath]
  exact unmapped_listed

end Sample

end Harvest
