import Harvest.Proofs.Data.Json
import Harvest.Proofs.Storage.Places
import Harvest.Storage.NodeLines
import Mathlib.Data.List.TakeWhile

/-!
# What a file of nodes holds

A file of nodes gets its calls in any order. What one call does to the text of the file is said once
(`NodeLines.Usable.act`): it opens the file unless that is open, which removes what it held, and adds
its own line. From this follows what the file holds after any number of calls.

Closed once and for all the file is not: a type or a record that comes after the file was closed opens it
again, and everything written before is gone (`NodeLines.run_outcome`).

The text of the file after some calls has one of two forms. If a call among them opened the file, the text
is made of the lines from the last such call on; if none did, the lines are added to what was there.
`NodeLines.Acted` says this of one call and `NodeLines.Written` of many, up to the first one that closes the
file. What comes after that is treated by cutting the calls there (`NodeLines.fromClose`).

Whether a file can be opened at all is settled once: if the directories on the way to it are there or can be
made, then every later opening works as well (`Disk.Reopens`), since nothing but the file itself is written.
-/

namespace Harvest

namespace Disk

variable {d d' : Disk} {p place : DiskPath}

/-- A file that was opened once can be opened again, at the same place and with no directory to make. -/
structure Reopens (d : Disk) (p place : DiskPath) : Prop where
  directory : d.HasDirectory p.parent
  locates : d.locate p = .ok place
  isFile : d.isDirectory place = false

/-- Writing files takes no directory away. -/
theorem Reopens.set (h : d.Reopens p place) (q : DiskPath) (text : String) :
    (d.set q text).Reopens p place where
  directory := h.directory.set q text
  locates := locate_set q text h.locates
  isFile := h.isFile

/-- A file can be opened: the directories on the way to it are there or can be made. -/
def Opens (d : Disk) (p place : DiskPath) : Prop :=
  ∃ made, d.makeDirectories p.parent = (.ok (), made) ∧ made.Reopens p place

theorem Reopens.opens (h : d.Reopens p place) : d.Opens p place :=
  ⟨d, h.directory.makeDirectories, h⟩

end Disk

namespace NodeLines

variable {l l' : NodeLines} {disk disk' : Disk} {place : DiskPath}

/-! ## Calls

Three of them: a type is declared, a record is handed over, the file is closed. The first two need the file
open. -/

/-- What a file of nodes is asked for. -/
inductive Call where
  | declare (d : NodeDefinition)
  | emit (d : NodeDefinition) (r : EntityRecord)
  | close

namespace Call

def act : Call → NodeLines → Disk → Except Fault Unit × NodeLines × Disk
  | .declare d, l, disk => l.declare disk d
  | .emit d r, l, disk => l.emit disk d r
  | .close, l, disk => l.close disk

/-- Whether a call needs the file open. -/
def isOpening : Call → Bool
  | .close => false
  | _ => true

/-- The line that a call adds to the file. -/
def line : Call → String
  | .emit d r => NodeLines.line d r
  | _ => ""

/-- A call that does not need the file writes no line. -/
theorem line_of_not_isOpening {c : Call} (h : c.isOpening = false) : c.line = "" := by
  cases c with
  | close => rfl
  | declare d => cases h
  | emit d r => cases h

/-! ### Runs of calls

The calls are made one after the other, each on the file that the one before has left. Besides the text it is
counted how often the file is emptied on the way. -/

/-- Whether a call opens the file, and so removes what it held: every call does while the file is not
open, but for closing it once more. -/
def truncates (l : NodeLines) (c : Call) : Bool := !l.isOpen && (c.isOpening || !l.isClosed)

end Call

/-- The results of a number of calls, and what is left after them. -/
def run (l : NodeLines) (disk : Disk) : List Call → List (Except Fault Unit) × NodeLines × Disk
  | [] => ([], l, disk)
  | c :: calls =>
    let (result, l, disk) := c.act l disk
    let (results, l, disk) := run l disk calls
    (result :: results, l, disk)

/-- How often a number of calls removes what the file held. -/
def truncations (l : NodeLines) (disk : Disk) : List Call → Nat
  | [] => 0
  | c :: calls =>
    let (_, l', disk') := c.act l disk
    (c.truncates l).toNat + truncations l' disk' calls

/-- The lines that calls add to the file. -/
def linesOf (calls : List Call) : String := String.join (calls.map Call.line)

@[simp] theorem linesOf_nil : linesOf [] = "" := rfl

@[simp] theorem linesOf_cons (c : Call) (calls : List Call) :
    linesOf (c :: calls) = c.line ++ linesOf calls := by
  simp [linesOf, String.join_cons]

/-! ## One call

A file is open at its place, or opening it would work. Both are kept by every call. -/

/-- The file is open, or opening it works. -/
inductive Usable (place : DiskPath) (l : NodeLines) (disk : Disk) : Prop
  | shut (hopen : l.openAt = none) (hopens : disk.Opens l.path place)
  | standing (hopen : l.openAt = some place) (hreopens : disk.Reopens l.path place)
      (htext : (disk.text? place).isSome)

/-- If opening the file worked, the file can be opened. -/
theorem opens_of_opened (hopen : l.openAt = none) (h : (l.opened disk).1 = .ok place) :
    disk.Opens l.path place := by
  unfold opened at h
  rw [hopen] at h
  cases hmade : disk.makeDirectories l.path.parent with
  | mk result made =>
      cases result with
      | error f =>
          simp only [hmade] at h
          cases h
      | ok u =>
          simp only [hmade] at h
          cases hcreated : made.create l.path with
          | error f =>
              simp only [hcreated] at h
              cases h
          | ok created =>
              obtain ⟨q, emptied⟩ := created
              simp only [hcreated] at h
              cases h
              obtain ⟨hl, hd, -⟩ := Disk.create_ok hcreated
              exact ⟨made, hmade, Disk.makeDirectories_ok hmade, hl, hd⟩

/-- Opening a file that is not open makes the directories on the way to it and empties it. -/
theorem opened_of_opens (hopen : l.openAt = none) (h : disk.Opens l.path place) :
    ∃ disk', l.opened disk = (.ok place, { l with openAt := some place }, disk') ∧
      disk'.Reopens l.path place ∧ disk'.text? place = some "" := by
  obtain ⟨made, hmade, hreopens⟩ := h
  refine ⟨made.set place "", ?_, hreopens.set place "", ?_⟩
  · unfold opened
    rw [hopen]
    simp only [hmade, Disk.create_of_locate hreopens.locates hreopens.isFile]
  · rw [Disk.text?_set, if_pos rfl]

/-- An opened file is at its place. What it holds is what it held, if it was open, and nothing else. -/
theorem Usable.opened (h : Usable place l disk) :
    ∃ disk', l.opened disk = (.ok place, { l with openAt := some place }, disk') ∧
      disk'.Reopens l.path place ∧
      disk'.text? place = some (if l.isOpen then (disk.text? place).getD "" else "") := by
  cases h with
  | shut hopen hopens =>
      obtain ⟨disk', hopened, hreopens, htext⟩ := opened_of_opens hopen hopens
      exact ⟨disk', hopened, hreopens, by simp [isOpen, hopen, htext]⟩
  | standing hopen hreopens htext =>
      have hsame : { l with openAt := some place } = l := by
        rw [← hopen]
      obtain ⟨text, htext⟩ := Option.isSome_iff_exists.mp htext
      refine ⟨disk, ?_, hreopens, by simp [isOpen, hopen, htext]⟩
      rw [hsame]
      exact opened_of_openAt disk hopen

/-- What a call does: its line is added to what the file held, or to nothing if the call opens it. -/
structure Acted (place : DiskPath) (c : Call) (l : NodeLines) (disk : Disk) (l' : NodeLines)
    (disk' : Disk) : Prop where
  usable : Usable place l' disk'
  path : l'.path = l.path
  isClosed : l'.isClosed = (l.isClosed || !c.isOpening)
  isOpen : l'.isOpen = (c.isOpening || (l.isOpen && l.isClosed))
  text : disk'.text? place =
    if c.truncates l then some c.line else (disk.text? place).map (· ++ c.line)

/-- The text of a file that a call has opened and then added its line to. -/
theorem Usable.text_of_opening (h : Usable place l disk) {c : Call} (hc : c.isOpening = true) :
    some ((if l.isOpen then (disk.text? place).getD "" else "") ++ c.line) =
      if c.truncates l then some c.line else (disk.text? place).map (· ++ c.line) := by
  cases h with
  | shut hopen _ => simp [Call.truncates, isOpen, hopen, hc]
  | standing hopen _ htext =>
      obtain ⟨text, htext⟩ := Option.isSome_iff_exists.mp htext
      simp [Call.truncates, isOpen, hopen, htext]

/-- Every call goes through. -/
theorem Usable.act (h : Usable place l disk) (c : Call) :
    ∃ l' disk', c.act l disk = (.ok (), l', disk') ∧ Acted place c l disk l' disk' := by
  cases c with
  | declare d =>
      have h' : Usable place { l with declared := l.declared.insert d.typeName d } disk := by
        cases h with
        | shut hopen hopens => exact .shut hopen hopens
        | standing hopen hreopens htext => exact .standing hopen hreopens htext
      obtain ⟨disk', hopened, hreopens, htext⟩ := h'.opened
      have hline : (Call.declare d).line = "" := rfl
      refine ⟨_, disk', by simp only [Call.act, NodeLines.declare, hopened]; rfl, ?_⟩
      exact {
        usable := .standing rfl hreopens (by simp [htext])
        path := rfl
        isClosed := by simp [Call.isOpening]
        isOpen := by simp [NodeLines.isOpen, Call.isOpening]
        text := by
          rw [htext, ← h.text_of_opening rfl, hline, String.append_empty]
          rfl }
  | emit d r =>
      obtain ⟨disk', hopened, hreopens, htext⟩ := h.opened
      refine ⟨_, append disk' place (line d r),
        by simp only [Call.act, NodeLines.emit, hopened]; rfl, ?_⟩
      exact {
        usable := .standing rfl (hreopens.set _ _) (by simp [append])
        path := rfl
        isClosed := by simp [Call.isOpening]
        isOpen := by simp [NodeLines.isOpen, Call.isOpening]
        text := by
          rw [append, Disk.text?_set, if_pos rfl, htext, Option.getD_some, ← h.text_of_opening rfl]
          rfl }
  | close =>
      cases hclosed : l.isClosed with
      | true =>
          -- the file stays as it is, and an open one stays open
          refine ⟨l, disk, by simp [Call.act, NodeLines.close, hclosed], ?_⟩
          exact {
            usable := h
            path := rfl
            isClosed := by simp [hclosed]
            isOpen := by simp [hclosed, Call.isOpening]
            text := by simp [Call.truncates, Call.isOpening, Call.line, hclosed] }
      | false =>
          obtain ⟨disk', hopened, hreopens, htext⟩ := h.opened
          refine ⟨{ l with openAt := none, isClosed := true }, disk',
            by simp [Call.act, NodeLines.close, hclosed, hopened], ?_⟩
          exact {
            usable := .shut rfl hreopens.opens
            path := rfl
            isClosed := by simp [Call.isOpening]
            isOpen := by simp [NodeLines.isOpen, Call.isOpening, hclosed]
            text := by
              cases h with
              | shut hopen _ => simp [htext, Call.truncates, isOpen, hopen, hclosed, Call.line]
              | standing hopen _ hsome =>
                  obtain ⟨text, hheld⟩ := Option.isSome_iff_exists.mp hsome
                  simp [htext, Call.truncates, isOpen, hopen, hheld, Call.line] }

/-! ## Many calls

The induction is on the calls. As long as none closes the file, at most the first one opens it. -/

theorem run_cons {c : Call} (hact : c.act l disk = (.ok (), l', disk')) (calls : List Call) :
    l.run disk (c :: calls) = (.ok () :: (l'.run disk' calls).1, (l'.run disk' calls).2) := by
  simp only [run, hact]

theorem truncations_cons {c : Call} (hact : c.act l disk = (.ok (), l', disk')) (calls : List Call) :
    l.truncations disk (c :: calls) = (c.truncates l).toNat + l'.truncations disk' calls := by
  simp only [truncations, hact]

/-- What a number of calls leaves behind if the file is not closed by them, because it was closed before
or because none of them asks for it: the file is opened at most once, by the first call that needs it. -/
structure Written (place : DiskPath) (calls : List Call) (l : NodeLines) (disk : Disk)
    (l' : NodeLines) (disk' : Disk) : Prop where
  run : l.run disk calls = (List.replicate calls.length (.ok ()), l', disk')
  usable : Usable place l' disk'
  isClosed : l'.isClosed = l.isClosed
  isOpen : l'.isOpen = (l.isOpen || calls.any Call.isOpening)
  truncations : l.truncations disk calls = (!l.isOpen && calls.any Call.isOpening).toNat
  text : disk'.text? place =
    if !l.isOpen && calls.any Call.isOpening then some (linesOf calls)
    else (disk.text? place).map (· ++ linesOf calls)

/-- What the calls leave behind, with one more call in front of them. -/
theorem Written.cons {c : Call} {calls : List Call} {l₁ : NodeLines} {disk₁ : Disk}
    (hstays : l.isClosed = true ∨ c.isOpening = true)
    (hact : c.act l disk = (.ok (), l₁, disk₁)) (hacted : Acted place c l disk l₁ disk₁)
    (h : Written place calls l₁ disk₁ l' disk') : Written place (c :: calls) l disk l' disk' := by
  have htruncates : c.truncates l = (!l.isOpen && c.isOpening) := by
    rcases hstays with hstays | hstays <;> simp [Call.truncates, hstays]
  have hopen : l₁.isOpen = (c.isOpening || l.isOpen) := by
    rw [hacted.isOpen]
    rcases hstays with hstays | hstays <;> simp [hstays]
  have htext := hacted.text
  rw [htruncates] at htext
  exact {
    run := by rw [run_cons hact, h.run, List.length_cons, List.replicate_succ]
    usable := h.usable
    isClosed := by
      rw [h.isClosed, hacted.isClosed]
      rcases hstays with hstays | hstays <;> simp [hstays]
    isOpen := by
      rw [h.isOpen, hopen, List.any_cons]
      cases l.isOpen <;> cases c.isOpening <;> rfl
    truncations := by
      rw [truncations_cons hact, h.truncations, htruncates, hopen, List.any_cons]
      cases l.isOpen <;> cases c.isOpening <;> simp
    text := by
      rw [h.text, htext, hopen, List.any_cons, linesOf_cons]
      cases hopens : c.isOpening with
      | true => cases l.isOpen <;> simp [Function.comp_def, String.append_assoc]
      | false => cases l.isOpen <;> simp [Call.line_of_not_isOpening hopens] }

/-- **Calls that do not close the file**, one after the other. -/
theorem Usable.run {calls : List Call} (h : Usable place l disk)
    (hstays : l.isClosed = true ∨ ∀ c ∈ calls, c.isOpening = true) :
    ∃ l' disk', Written place calls l disk l' disk' := by
  induction calls generalizing l disk with
  | nil =>
      refine ⟨l, disk, ?_⟩
      exact {
        run := rfl
        usable := h
        isClosed := rfl
        isOpen := by simp
        truncations := by simp [truncations]
        text := by simp }
  | cons c calls ih =>
      obtain ⟨l₁, disk₁, hact, hacted⟩ := h.act c
      have hhere : l.isClosed = true ∨ c.isOpening = true :=
        hstays.imp_right fun hall => hall c (List.mem_cons_self ..)
      have hthere : l₁.isClosed = true ∨ ∀ c ∈ calls, c.isOpening = true := by
        rcases hstays with hclosed | hall
        · exact .inl (by simp [hacted.isClosed, hclosed])
        · exact .inr fun c hc => hall c (List.mem_cons_of_mem _ hc)
      obtain ⟨l', disk', hwritten⟩ := ih hacted.usable hthere
      exact ⟨l', disk', hwritten.cons hhere hact hacted⟩

/-! ### Closing in between

A closing cuts the calls into two runs. The first leaves the file with its lines, and the second finds it
closed, so that it is the text before for it. -/

/-- Calls may be cut into two, of which the second part goes on from where the first has stopped. -/
theorem run_append (calls more : List Call) :
    l.run disk (calls ++ more) =
      let (results, l, disk) := l.run disk calls
      (results ++ (l.run disk more).1, (l.run disk more).2) := by
  induction calls generalizing l disk with
  | nil => rfl
  | cons c calls ih => simp only [List.cons_append, NodeLines.run, ih]

/-- Openings are counted in both parts. -/
theorem truncations_append (calls more : List Call) :
    l.truncations disk (calls ++ more) =
      l.truncations disk calls + (l.run disk calls).2.1.truncations (l.run disk calls).2.2 more := by
  induction calls generalizing l disk with
  | nil => simp [truncations, NodeLines.run]
  | cons c calls ih => simp only [List.cons_append, truncations, NodeLines.run, ih, Nat.add_assoc]

/-- A file that is closed for the first time holds the lines of the calls before, whatever it held. -/
theorem run_close {path : String} (hopens : ((atPath path).opened disk).1 = .ok place)
    {before : List Call} (hbefore : ∀ c ∈ before, c.isOpening = true) :
    ∃ l' disk', (atPath path).run disk (before ++ [Call.close]) =
        (List.replicate (before ++ [Call.close]).length (.ok ()), l', disk') ∧
      (atPath path).truncations disk (before ++ [Call.close]) = 1 ∧
      Usable place l' disk' ∧ l'.isClosed = true ∧ l'.isOpen = false ∧
      disk'.text? place = some (linesOf before) := by
  have husable : Usable place (atPath path) disk := .shut rfl (opens_of_opened rfl hopens)
  obtain ⟨l₁, disk₁, hwritten⟩ := husable.run (.inr hbefore)
  obtain ⟨l₂, disk₂, hact, hacted⟩ := hwritten.usable.act .close
  have hclosed : l₁.isClosed = false := hwritten.isClosed
  have hstart : (atPath path).isOpen = false := rfl
  have hopen : l₁.isOpen = before.any Call.isOpening := by
    rw [hwritten.isOpen, hstart, Bool.false_or]
  have htruncates : Call.close.truncates l₁ = !before.any Call.isOpening := by
    simp [Call.truncates, hclosed, hopen]
  have htext : disk₁.text? place =
      if before.any Call.isOpening then some (linesOf before)
      else (disk.text? place).map (· ++ linesOf before) := by
    rw [hwritten.text, hstart, Bool.not_false, Bool.true_and]
  refine ⟨l₂, disk₂, ?_, ?_, hacted.usable, ?_, ?_, ?_⟩
  · rw [run_append, hwritten.run]
    simp [NodeLines.run, hact, List.replicate_succ']
  · rw [truncations_append, hwritten.truncations, hwritten.run, hstart]
    simp only [truncations, htruncates]
    cases before.any Call.isOpening <;> rfl
  · simp [hacted.isClosed, Call.isOpening]
  · simp [hacted.isOpen, Call.isOpening, hclosed]
  · rw [hacted.text, htruncates, htext]
    cases hany : before.any Call.isOpening with
    | true => simp [Call.line]
    | false =>
        -- no call needed the file, so there is none: closing it has opened it
        have hnil : before = [] := by
          cases before with
          | nil => rfl
          | cons c before => simp [hbefore c (List.mem_cons_self ..)] at hany
        simp [hnil, Call.line]

/-- A line without its end. -/
def body (d : NodeDefinition) (r : EntityRecord) : String :=
  Json.print .line (.record
    [("type", .str d.nodeType), ("id", .str r.nodeId), ("data", .object r.data)])

theorem line_eq (d : NodeDefinition) (r : EntityRecord) : line d r = body d r ++ "\n" := rfl

end NodeLines

namespace Sample

open NodeLines (Call)

/-- The file of an earlier run. -/
def shelf : Disk := ⟨[(⟨false, ["n"]⟩, "old\n")], []⟩

/-- The file of the sample opens at its place. -/
theorem opened_shelf : ((NodeLines.atPath "n").opened shelf).1 = .ok ⟨false, ["n"]⟩ := by
  have hpath : DiskPath.ofString "n" = ⟨false, ["n"]⟩ :=
    DiskPath.ofString_of_notMem (by decide) (by decide) (by decide)
  rw [NodeLines.atPath, hpath]
  rfl

def notes : NodeDefinition := { (default : NodeDefinition) with nodeType := "DrupalNote" }

/-- A note with a text that has to be escaped. -/
def note (id : Int) : EntityRecord :=
  { typeName := "Note"
    language := "EN"
    data := [(.str "__typename", .str "Note"), (.str "entityId", .int id),
      (.str "text", .str "a \"quote\"\nand \\ more"),
      (.str "tags", .list [.null, .bool true, .object [(.str "é", .int (-12))]])] }

end Sample

namespace NodeLines

/-! ## The file is opened again

A call after the one that closes the file opens it anew, if it needs the file, and so removes all lines
before. -/

/-- The calls from the first one on that closes the file. -/
def fromClose (calls : List Call) : List Call := calls.dropWhile Call.isOpening

/-- Whether a call that needs the file comes after one that closes it. -/
def reopens (calls : List Call) : Bool := (fromClose calls).any Call.isOpening

/-! ### Calls by their lines -/

theorem line_ne_empty (d : NodeDefinition) (r : EntityRecord) : line d r ≠ "" := by
  rw [line_eq]
  simp

theorem linesOf_append (calls more : List Call) :
    linesOf (calls ++ more) = linesOf calls ++ linesOf more := by
  simp [linesOf]

/-- Calls have no lines exactly if no record is among them. -/
theorem linesOf_eq_empty_iff (calls : List Call) :
    linesOf calls = "" ↔ ∀ d r, Call.emit d r ∉ calls := by
  induction calls with
  | nil => simp
  | cons c calls ih =>
      cases c with
      | emit d r =>
          refine iff_of_false ?_ fun h => h d r (List.mem_cons_self ..)
          simp [Call.line, line_ne_empty]
      | declare d => simp [Call.line, ih]
      | close => simp [Call.line, ih]

theorem isOpening_eq_false_iff (c : Call) : c.isOpening = false ↔ c = .close := by
  cases c <;> simp [Call.isOpening]

/-- Calls of which one closes the file: those before it, and those after it. -/
theorem exists_close {calls : List Call} (h : fromClose calls ≠ []) :
    ∃ before after, calls = before ++ [Call.close] ++ after ∧ (∀ c ∈ before, c.isOpening = true) ∧
      fromClose calls = .close :: after := by
  obtain ⟨c, after, hfrom⟩ := List.exists_cons_of_ne_nil h
  have hc : c.isOpening = false := by
    have hhead := List.head_dropWhile_not Call.isOpening h
    simp only [fromClose] at hfrom
    simpa [hfrom] using hhead
  rw [isOpening_eq_false_iff] at hc
  subst hc
  refine ⟨calls.takeWhile Call.isOpening, after, ?_, fun c hmem => List.mem_takeWhile_imp hmem, hfrom⟩
  rw [List.append_assoc, List.singleton_append, ← hfrom]
  exact List.takeWhile_append_dropWhile.symm

/-- Calls that all need the file need it if there is one. -/
theorem any_isOpening {calls : List Call} (h : ∀ c ∈ calls, c.isOpening = true) :
    calls.any Call.isOpening = !calls.isEmpty := by
  cases calls with
  | nil => rfl
  | cons c calls => simp [h c (List.mem_cons_self ..)]

/-! ### Calls by their closing

Either no call closes the file, or there is a first one that does; what comes after it decides whether the
file is opened again. -/

/-- Calls of which none closes the file open it once. -/
theorem run_unclosed {path : String} (hopens : ((atPath path).opened disk).1 = .ok place)
    {calls : List Call} (hcalls : ∀ c ∈ calls, c.isOpening = true) :
    ∃ l' disk', (atPath path).run disk calls = (List.replicate calls.length (.ok ()), l', disk') ∧
      (atPath path).truncations disk calls = (!calls.isEmpty).toNat ∧
      l'.isOpen = !calls.isEmpty ∧
      (calls ≠ [] → disk'.text? place = some (linesOf calls)) := by
  have husable : Usable place (atPath path) disk := .shut rfl (opens_of_opened rfl hopens)
  have hstart : (atPath path).isOpen = false := rfl
  obtain ⟨l', disk', hwritten⟩ := husable.run (.inr hcalls)
  refine ⟨l', disk', hwritten.run, ?_, ?_, ?_⟩
  · rw [hwritten.truncations, hstart, any_isOpening hcalls, Bool.not_false, Bool.true_and]
  · rw [hwritten.isOpen, hstart, any_isOpening hcalls, Bool.false_or]
  · intro hne
    rw [hwritten.text, hstart, any_isOpening hcalls]
    simp [hne]

/-- Calls after the file was closed open it again if one of them needs it. -/
theorem run_closed {path : String} (hopens : ((atPath path).opened disk).1 = .ok place)
    {before : List Call} (hbefore : ∀ c ∈ before, c.isOpening = true) (after : List Call) :
    ∃ l' disk', (atPath path).run disk (before ++ [Call.close] ++ after) =
        (List.replicate (before ++ [Call.close] ++ after).length (.ok ()), l', disk') ∧
      (atPath path).truncations disk (before ++ [Call.close] ++ after) =
        1 + (after.any Call.isOpening).toNat ∧
      l'.isOpen = after.any Call.isOpening ∧
      disk'.text? place = some (linesOf (if after.any Call.isOpening then after else before ++ after)) := by
  obtain ⟨l₁, disk₁, hrun, htruncations, husable, hclosed, hshut, htext⟩ := run_close hopens hbefore
  have hstays : l₁.isClosed = true ∨ ∀ c ∈ after, c.isOpening = true := .inl hclosed
  obtain ⟨l', disk', hwritten⟩ := husable.run hstays
  refine ⟨l', disk', ?_, ?_, ?_, ?_⟩
  · rw [run_append, hrun]
    simp only [hwritten.run]
    rw [List.replicate_append_replicate, ← List.length_append]
  · rw [truncations_append, hrun, htruncations]
    simp only [hwritten.truncations, hshut]
    rfl
  · rw [hwritten.isOpen, hshut, Bool.false_or]
  · rw [hwritten.text, hshut, htext]
    cases hany : after.any Call.isOpening with
    | true => simp
    | false => simp [linesOf_append]

/-- The lines of all calls are those of the last ones exactly if the others have none. -/
theorem linesOf_fromClose (calls : List Call) :
    linesOf (fromClose calls) = linesOf calls ↔
      ∀ d r, Call.emit d r ∉ calls.takeWhile Call.isOpening := by
  have hsplit : linesOf calls =
      linesOf (calls.takeWhile Call.isOpening) ++ linesOf (fromClose calls) := by
    rw [← linesOf_append, fromClose, List.takeWhile_append_dropWhile]
  rw [← linesOf_eq_empty_iff, hsplit, eq_comm, String.append_eq_right_iff]

/-- **The file is opened again** by a type or a record that comes after it was closed: that removes the
lines of all records before, and no call closes the file any more. Without such a call, the file is opened
once, keeps all lines, and stays closed once it is. -/
theorem run_outcome {path : String} (hopens : ((atPath path).opened disk).1 = .ok place)
    (calls : List Call) :
    ∃ l' disk', (atPath path).run disk calls = (List.replicate calls.length (.ok ()), l', disk') ∧
      (atPath path).truncations disk calls = (!calls.isEmpty).toNat + (reopens calls).toNat ∧
      l'.isOpen = (if fromClose calls = [] then !calls.isEmpty else reopens calls) ∧
      (calls ≠ [] → disk'.text? place =
        some (linesOf (if reopens calls then fromClose calls else calls))) ∧
      (calls ≠ [] → (disk'.text? place = some (linesOf calls) ↔
        reopens calls = false ∨ ∀ d r, Call.emit d r ∉ calls.takeWhile Call.isOpening)) := by
  -- the last part only says when the lines written after the closing are all there were
  suffices hmain : ∃ l' disk',
      (atPath path).run disk calls = (List.replicate calls.length (.ok ()), l', disk') ∧
      (atPath path).truncations disk calls = (!calls.isEmpty).toNat + (reopens calls).toNat ∧
      l'.isOpen = (if fromClose calls = [] then !calls.isEmpty else reopens calls) ∧
      (calls ≠ [] → disk'.text? place =
        some (linesOf (if reopens calls then fromClose calls else calls))) by
    obtain ⟨l', disk', hrun, htruncations, hopen, htext⟩ := hmain
    refine ⟨l', disk', hrun, htruncations, hopen, htext, fun hne => ?_⟩
    rw [htext hne, Option.some_inj]
    cases reopens calls with
    | false => simp
    | true => simp [linesOf_fromClose]
  -- without a closing nothing is opened twice; with one the calls behind it decide
  by_cases hfrom : fromClose calls = []
  · have hall : ∀ c ∈ calls, c.isOpening = true := List.dropWhile_eq_nil_iff.mp hfrom
    have hreopens : reopens calls = false := by rw [reopens, hfrom, List.any_nil]
    obtain ⟨l', disk', hrun, htruncations, hopen, htext⟩ := run_unclosed hopens hall
    rw [hreopens, if_pos hfrom]
    exact ⟨l', disk', hrun, htruncations, hopen, htext⟩
  · obtain ⟨before, after, rfl, hbefore, hafter⟩ := exists_close hfrom
    have hreopens : reopens (before ++ [Call.close] ++ after) = after.any Call.isOpening := by
      rw [reopens, hafter]
      rfl
    obtain ⟨l', disk', hrun, htruncations, hopen, htext⟩ := run_closed hopens hbefore after
    rw [hreopens, if_neg hfrom, hafter]
    refine ⟨l', disk', hrun, ?_, hopen, fun _ => ?_⟩
    · rw [htruncations]
      cases before <;> rfl
    · rw [htext]
      cases after.any Call.isOpening <;> simp [linesOf_append, Call.line]

end NodeLines

namespace Sample

open NodeLines (Call)

/-- Two notes, and after each of them the file is closed. -/
def closedTwice : List Call := [.emit notes (note 1), .close, .emit notes (note 2), .close]

/-- The first of the two notes is lost, and the file is still open after it was closed twice. -/
theorem first_note_lost :
    ∃ l' disk', (NodeLines.atPath "n").run shelf closedTwice = (List.replicate 4 (.ok ()), l', disk') ∧
      (NodeLines.atPath "n").truncations shelf closedTwice = 2 ∧ l'.isOpen = true ∧
      disk'.text? ⟨false, ["n"]⟩ = some (NodeLines.line notes (note 2)) ∧
      disk'.text? ⟨false, ["n"]⟩ ≠
        some (NodeLines.line notes (note 1) ++ NodeLines.line notes (note 2)) := by
  obtain ⟨l', disk', hrun, htruncations, hopen, htext, hkept⟩ :=
    NodeLines.run_outcome opened_shelf closedTwice
  have hne : closedTwice ≠ [] := List.cons_ne_nil _ _
  have hfrom : NodeLines.fromClose closedTwice = [.close, .emit notes (note 2), .close] := rfl
  have hreopens : NodeLines.reopens closedTwice = true := rfl
  have hlines : NodeLines.linesOf closedTwice =
      NodeLines.line notes (note 1) ++ NodeLines.line notes (note 2) := by
    simp [closedTwice, Call.line]
  refine ⟨l', disk', hrun, htruncations, hopen, ?_, ?_⟩
  · rw [htext hne, hreopens, if_pos rfl, hfrom]
    simp [Call.line]
  · rw [← hlines]
    intro hboth
    rcases (hkept hne).mp hboth with hshut | hnone
    · rw [hreopens] at hshut
      cases hshut
    · exact hnone notes (note 1) (List.mem_cons_self ..)

end Sample

end Harvest
