import Harvest.Command
import Harvest.Proofs.Sourcing.Progress
import Harvest.Proofs.Storage.Places

/-!
# Fatal failures

When the command `source` ends with the code 1, no plan was made: nothing was announced, no page was
asked for and no record was handed over. The file of nodes is closed all the same, and a file that was
never opened is opened for that. `fatal_failure_empties` says what this leaves behind: an empty file,
whatever was there before.

The argument is by what is touched. Making a plan asks the remote and keeps fragments; it touches no file of
nodes, which is an invariant of the site of the command (`lines_prepare`). A failure that ends the command
with the code 1 comes before there is a plan, since a plan that is carried out ends by a fault or with a
report (`run_isReported`). So the file is closed in the state in which it was made, and closing it opens it.
-/

namespace Harvest

/-! ## Files that are opened

Opening for writing empties a file, whatever it is opened for. -/

namespace Disk

variable {d : Disk} {place : DiskPath}

/-- A file that was opened for writing is there and holds nothing. -/
theorem create_empties {p : DiskPath} {d' : Disk} (h : d.create p = .ok (place, d')) :
    d'.locate p = .ok place ∧ d'.text? place = some "" := by
  obtain ⟨hl, -, rfl⟩ := create_ok h
  refine ⟨locate_set place "" hl, ?_⟩
  rw [text?_set, if_pos rfl]

end Disk

namespace NodeLines

variable {path : String} {disk disk' : Disk} {l : NodeLines}

theorem opened_empties {place : DiskPath}
    (h : (atPath path).opened disk = (.ok place, l, disk')) :
    disk'.locate (.ofString path) = .ok place ∧ disk'.text? place = some "" := by
  rw [opened] at h
  split at h
  next hopen => cases hopen
  next =>
    split at h
    next => cases h
    next d₁ hmade =>
      split at h
      next => cases h
      next place' d₂ hcreated =>
        cases h
        exact Disk.create_empties hcreated

/-- Closing a file of nodes that was not opened leaves an empty file behind. -/
theorem close_empties (h : (atPath path).close disk = (.ok (), l, disk')) :
    ∃ place, disk'.locate (.ofString path) = .ok place ∧ disk'.text? place = some "" := by
  rw [close, if_neg (show ¬ (atPath path).isClosed = true from Bool.false_ne_true)] at h
  split at h
  next place l' d ho =>
    cases h
    exact ⟨place, opened_empties ho⟩
  next => cases h

end NodeLines

/-! ## What making a plan touches

A property of the surroundings that asking and keeping leave alone is left alone by the plan. -/

namespace Plan

variable {σ : Type} {site : Site σ} {o : Order} {P : σ → Prop} {s : σ}

theorem ofSchema_preserves (hkeep : ∀ c s, P s → P (site.keep c s)) (schema : GraphQL.Schema)
    (h : P s) : P (ofSchema site o schema s).2 := by
  have hs := hkeep (fragmentsOf site o schema s).2 s h
  cases hl : listingsOf o schema (entityTypes schema o.config.languages) with
  | error e =>
      rw [ofSchema_unlisted hl]
      exact h
  | ok listings =>
      cases hf : (fragmentsOf site o schema s).1 with
      | error e =>
          rw [ofSchema_unresolved hl hf]
          exact hs
      | ok found =>
          cases hc : complete o schema (entityTypes schema o.config.languages) listings found with
          | error e =>
              rw [ofSchema_uncompiled hl hf hc]
              exact hs
          | ok plan =>
              obtain ⟨x, cache, hx, -⟩ := ofSchema_complete hl hf hc
              rw [hx]
              exact hkeep cache _ hs

/-- **Making a plan asks the remote and keeps fragments**, and has no other effect. -/
theorem prepare_preserves (hask : ∀ r s, P s → P (site.ask r s).2)
    (hkeep : ∀ c s, P s → P (site.keep c s)) (h : P s) : P (prepare site o s).2 := by
  have hs : P (loadSchema site.ask s).2 := hask introspectionRequest s h
  cases hp : o.preflight with
  | error e =>
      rw [prepare_refused hp]
      exact h
  | ok _ =>
      cases hschema : (loadSchema site.ask s).1 with
      | error e =>
          rw [prepare_unknown hp hschema]
          exact hs
      | ok schema =>
          rw [prepare_known hp hschema]
          exact ofSchema_preserves hkeep schema hs

/-- A plan is made only from a configuration that can be used. -/
theorem problem?_of_prepare {p : Plan} (h : (prepare site o s).1 = .ok p) :
    o.config.problem? = none := by
  cases hp : o.config.problem? with
  | none => rfl
  | some problem =>
      have hpreflight : o.preflight = .error (.configuration problem) := by
        rw [Order.preflight, Config.check, hp]
        rfl
      rw [prepare_refused hpreflight] at h
      cases h

end Plan

/-! ## Failures after a plan was made

Types that are refused, and answers that are misused: both are faults. -/

namespace Sourcing

variable {σ : Type} {site : Site σ} {o : Order} {s s' : σ} {e : Failure}

/-- What ends a plan that is carried out is a fault. -/
theorem Ends.error_isFault {p : Plan} {n : Nat} (hp : p.Coherent) (hn : 0 < n)
    (hw : o.walking = .bySize n) (h : Ends site o p s (.error e) s') : ∃ f, e = .fault f := by
  cases h with
  | refused => exact ⟨_, rfl⟩
  | crashed _ hr hc =>
      obtain ⟨i, t, ht, hf⟩ := hc
      rw [hr, hw] at ht
      obtain ⟨d, -, es, hst⟩ := hp.stands_of_order site _ _ _ hn t (List.mem_of_getElem? ht)
      obtain ⟨-, -, -, f, -, -, -, rfl, -⟩ := hst.of_crashed hf
      exact ⟨f, rfl⟩

/-- **A failure of sourcing that ends a run ends it before there is a plan.** -/
theorem run_isReported {pace : Pace} (hpaging : o.paging = none)
    (h : (run site pace o s).1.result = some (.error e)) (he : e.isReported = true) :
    (Plan.prepare site o s).1 = .error e ∧ (run site pace o s).2 = (Plan.prepare site o s).2 := by
  obtain ⟨⟨x, s₁⟩, hx⟩ : ∃ x, Plan.prepare site o s = x := ⟨_, rfl⟩
  rw [run, hx] at h ⊢
  cases x with
  | error e' =>
      cases h
      exact ⟨rfl, rfl⟩
  | ok p =>
      -- From here on only faults can end the run, and they are not failures of sourcing.
      have hprepare : (Plan.prepare site o s).1 = .ok p := congrArg Prod.fst hx
      obtain ⟨-, -, hconcurrency, hsize, -⟩ :=
        (Config.problem?_eq_none_iff _).mp (Plan.problem?_of_prepare hprepare)
      have hw : o.walking = .bySize o.config.pageSize.toNat :=
        Order.walking_eq hpaging (Int.toNat_of_nonneg (by omega)).symm
      obtain ⟨f, rfl⟩ := (source_ends hconcurrency h).error_isFault (Plan.prepare_coherent hprepare)
        (by omega) hw
      cases he

end Sourcing

/-! ## The command

The command is followed from its configuration to its code. -/

namespace Command

variable {ρ : Type}

/-- Making a plan does not touch the file of nodes. -/
theorem lines_prepare (remote : Executor ρ) (o : Order) (b : Bench ρ) :
    (Plan.prepare (Bench.site remote) o b).2.lines = b.lines :=
  Plan.prepare_preserves (P := fun s : Bench ρ => s.lines = b.lines) (fun _ _ h => h) (fun _ _ h => h) rfl

/-! ### Closing at the end

Whether or not anything was sourced, the file of nodes is closed at the end, and closing opens it first if it
was not open. -/

/-- A run that ends with the code 1 leaves an empty file behind. -/
theorem source_empties {around : Surroundings ρ} {config : Config} {b : Bench ρ} {path : String}
    (hlines : b.lines = .atPath path) (h : (source around config b).ending = .code 1) :
    (∃ e : Failure, e.isReported = true
        ∧ (source around config b).output = printed [s!"Error: {e.message}"])
      ∧ ∃ place, (source around config b).state.cache.disk.locate (.ofString path) = .ok place
        ∧ (source around config b).state.cache.disk.text? place = some "" := by
  obtain ⟨⟨outcome, b₁⟩, hrun⟩ :
    ∃ x, Sourcing.run (Bench.site (around.connect config)) around.pace (.ofConfig config) b = x :=
      ⟨_, rfl⟩
  obtain ⟨⟨closed, lines, disk⟩, hclose⟩ : ∃ x, b₁.lines.close b₁.cache.disk = x := ⟨_, rfl⟩
  rw [source, hrun] at h ⊢
  dsimp only at h ⊢
  rw [hclose] at h ⊢
  cases closed with
  | error f => cases h
  | ok _ =>
      dsimp only at h ⊢
      cases hresult : outcome.result with
      | none =>
          rw [hresult] at h
          cases h
      | some x =>
          cases x with
          | ok report =>
              rw [hresult] at h
              cases h
          | error e =>
              rw [hresult] at h
              dsimp only at h
              cases he : e.isReported with
              | false =>
                  rw [afterFailure, he] at h
                  cases h
              | true =>
                  have hfailed := Sourcing.run_isReported (o := .ofConfig config) rfl
                    (by rw [hrun]; exact hresult) he
                  -- No plan was made, so the file is still as the command line named it.
                  have hlines₁ : b₁.lines = .atPath path := by
                    rw [← hlines, ← lines_prepare (around.connect config) (.ofConfig config) b,
                      ← hfailed.2, hrun]
                  rw [hlines₁] at hclose
                  refine ⟨⟨e, he, ?_⟩, NodeLines.close_empties hclose⟩
                  show (afterFailure e).2 = _
                  rw [afterFailure, he]
                  rfl

/-- **A fatal failure empties the output.** Whenever the command `source` ends with the code 1, there is
an empty file at the path of the output afterwards; so what was there before is left alone only if it
was an empty file. -/
theorem fatal_failure_empties {around : Surroundings ρ} {words : List String} {disk : Disk} {remote : ρ}
    {c : CommandLine} (hparse : CommandLine.parse words = .ok c) (hverb : c.verb = some .source)
    (hcode : (run around words disk remote).ending = .code 1) :
    (∃ e : Failure, e.isReported = true
        ∧ (run around words disk remote).output = printed [s!"Error: {e.message}"])
      ∧ ∃ place,
        (run around words disk remote).state.1.locate
            (.ofString ((c.value? .output).getD defaultOutput)) = .ok place
          ∧ (run around words disk remote).state.1.text? place = some ""
          ∧ ((run around words disk remote).state.1.text? place = disk.text? place
            ↔ disk.text? place = some "") := by
  rw [run, hparse] at hcode ⊢
  dsimp only at hcode ⊢
  rw [perform, hverb] at hcode ⊢
  dsimp only at hcode ⊢
  rw [configured] at hcode ⊢
  dsimp only at hcode ⊢
  split at hcode
  next => cases hcode
  next config store _ =>
    obtain ⟨he, place, hplace, htext⟩ := source_empties rfl hcode
    refine ⟨he, place, hplace, htext, ?_⟩
    rw [htext]
    exact eq_comm

end Command

/-! ## A command without an address -/

namespace Sample

open Command

/-- The words of a command that names its files and no address. -/
def words : List String := ["--config", "c", "source", "-o", "n"]

/-- What these words stand for. -/
def commandLine : CommandLine := ⟨[(.config, "c"), (.output, "n")], some .source⟩

/-- No environment, and a remote that knows nothing. -/
def nowhere : Command.Surroundings Unit :=
  { connect := fun _ _ => return .data .null, environmentUrl := none, pace := ⟨false, 0⟩ }

/-- A disk with the nodes of an earlier run. -/
def earlier : Disk := ⟨[(⟨false, ["n"]⟩, "old\n")], []⟩

theorem parse_words : CommandLine.parse words = .ok commandLine := rfl

theorem ofString_n : DiskPath.ofString "n" = ⟨false, ["n"]⟩ := by cbv

theorem configuration_earlier : configuration none commandLine earlier = .ok .standard := by
  have hpath : DiskPath.ofString "c" = ⟨false, ["c"]⟩ := by cbv
  have hload : Config.load earlier "c" = .ok none := by
    rw [Config.load, hpath]
    rfl
  rw [configuration, show configPath commandLine = "c" from rfl, hload]
  rfl

theorem run_nowhere :
    run nowhere words earlier ()
      = { ending := .code 1
          output := printed ["Error: Missing `url` option"]
          state := (⟨[(⟨false, ["n"]⟩, "")], []⟩, ()) } := by
  have houtput : (commandLine.value? .output).getD defaultOutput = "n" := rfl
  have hconfig : configuration nowhere.environmentUrl commandLine earlier = .ok .standard :=
    configuration_earlier
  rw [run, parse_words]
  dsimp only
  rw [perform, show commandLine.verb = some .source from rfl]
  dsimp only
  rw [configured, hconfig, houtput, NodeLines.atPath, ofString_n]
  rfl

/-- The nodes of the earlier run are lost. -/
theorem nodes_lost :
    earlier.text? ⟨false, ["n"]⟩ = some "old\n"
      ∧ (run nowhere words earlier ()).state.1.text? ⟨false, ["n"]⟩ = some "" := by
  have hcode : (run nowhere words earlier ()).ending = .code 1 := by rw [run_nowhere]
  obtain ⟨-, place, hplace, htext, -⟩ := fatal_failure_empties parse_words rfl hcode
  have houtput : (commandLine.value? .output).getD defaultOutput = "n" := rfl
  rw [run_nowhere, houtput, ofString_n] at hplace
  cases hplace
  exact ⟨rfl, htext⟩

end Sample

end Harvest
