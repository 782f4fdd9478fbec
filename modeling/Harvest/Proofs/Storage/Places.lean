import Harvest.Proofs.Basic
import Harvest.Storage.Disk

/-!
# Places on a disk

Where a path leads to. A path that can be followed leads to the place that its names spell out, and stays
so when texts change. Making directories and writing a file leave all other files as they are.

A path is walked name by name, and `..` goes back up. `Disk.walk` may fail on the way, at a name that is too
long, at a file where a directory should be, or where there is nothing; if it succeeds, the place that it
comes to is the one that the names spell out (`Disk.locate_eq`). So a place is known without the disk, and
what the disk decides is only whether one gets there.

Writes change texts, and making directories adds some. Both leave open every way that was open before
(`Disk.locate_mono`, `Disk.locate_set`).

The lemmas come in pairs. Those that end in `_ok` take an operation apart that has gone well, and those that
end in `_of_locate` say that it goes well where the path leads somewhere. Storing of any kind rests on these
and never looks at how a path is walked.
-/

namespace Harvest

/-! ## Names of files

Paths are absolute or start at the working directory. A name without a slash leads one step further down. -/

namespace DiskPath

/-- A name without a slash is that of an entry. -/
theorem ofString_of_notMem {s : String} (h : '/' ∉ s.toList) (hempty : s ≠ "") (hdot : s ≠ ".") :
    ofString s = ⟨false, [s]⟩ := by
  have habsolute : ¬s.toList.head? = some '/' := fun hhead => h (List.mem_of_head? hhead)
  have hkept : [s].filter (fun n => n ≠ "" ∧ n ≠ ".") = [s] :=
    List.filter_eq_self.mpr fun n hn => by
      rw [List.mem_singleton.mp hn]
      exact decide_eq_true ⟨hempty, hdot⟩
  rw [ofString, decide_eq_false habsolute, List.splitOn_eq_singleton h, List.map_singleton,
    String.ofList_toList, hkept]

/-- The place that a path names, if everything on the way is there. -/
def place (p : DiskPath) : DiskPath := p.names.foldl enter { p with names := [] }

/-- The path of a name in a directory. -/
def below (p : DiskPath) (name : String) : DiskPath := { p with names := p.names ++ [name] }

@[simp] theorem names_below (p : DiskPath) (name : String) : (p.below name).names = p.names ++ [name] :=
  rfl

theorem place_below (p : DiskPath) (name : String) : (p.below name).place = p.place.enter name :=
  List.foldl_concat ..

end DiskPath

/-! ## Places on a disk

First where paths lead, then what making a directory, opening, reading and writing do. -/

namespace Disk

variable {d d' : Disk} {p origin place : DiskPath} {names : List String} {name text : String}

/-! ### Following a path

The names of a path are walked one after the other, and each must be that of a directory, or be the last
one. A path may fail to lead anywhere, but it cannot lead to two places. -/

/-- A path that can be followed leads to the place that it names. -/
theorem walk_eq (h : d.walk origin names = .ok place) : place = names.foldl DiskPath.enter origin := by
  induction names generalizing origin with
  | nil =>
      cases h
      rfl
  | cons name names ih =>
      rw [walk] at h
      split at h
      next => cases h
      next =>
        split at h
        next => cases h
        next => exact ih h

/-- A path that leads somewhere leads to its place. -/
theorem locate_eq (h : d.locate p = .ok place) : place = p.place := by
  unfold locate at h
  split at h
  next => cases h
  next =>
    split at h
    next => cases h
    next => exact walk_eq h

/-- A path may be walked in two parts. -/
theorem walk_append (names more : List String) :
    d.walk origin (names ++ more) = d.walk origin names >>= fun q => d.walk q more := by
  induction names generalizing origin with
  | nil => rfl
  | cons name names ih =>
      rw [List.cons_append, walk, walk]
      split
      next => rfl
      next =>
        split
        next => rfl
        next => exact ih

theorem walk_below (d : Disk) (p : DiskPath) (name : String) :
    d.walk { p.below name with names := [] } (p.below name).names
      = d.walk { p with names := [] } p.names >>= fun q => d.walk q [name] := walk_append ..

/-- Whether a directory can be entered: a name in it leads to a place. -/
def Enters (d : Disk) (p : DiskPath) : Prop := ∃ name place, d.locate (p.below name) = .ok place

/-- Once a directory can be entered, every name in it leads to a place unless it is too long. -/
theorem Enters.locate (h : d.Enters p) (hname : '\x00' ∉ name.toList) :
    d.locate (p.below name) = .ok (p.place.enter name) ∨ d.locate (p.below name) = .error .overlong := by
  obtain ⟨other, place, h⟩ := h
  unfold Disk.locate at h ⊢
  split at h
  next => cases h
  next hnull =>
    split at h
    next => cases h
    next =>
      rw [DiskPath.names_below, List.any_append, Bool.or_eq_true, not_or] at hnull
      -- the name below has no null character either, so only its length can still be in the way
      have hnull' : ¬(p.below name).names.any (fun n => n.toList.contains '\x00') = true := by
        rw [DiskPath.names_below, List.any_append, Bool.or_eq_true, not_or]
        refine ⟨hnull.1, ?_⟩
        rw [List.any_cons, List.any_nil, Bool.or_false, List.contains_iff_mem]
        exact hname
      rw [if_neg hnull', walk_below]
      rw [walk_below] at h
      split
      next => exact .inr rfl
      next =>
        obtain ⟨q, hq, h⟩ := bind_ok h
        obtain rfl : q = p.place := walk_eq hq
        rw [hq]
        show walk d p.place [name] = _ ∨ walk d p.place [name] = _
        rw [walk] at h ⊢
        split at h
        next => cases h
        next hd =>
          rw [if_neg hd]
          split
          next => exact .inr rfl
          next => exact .inl rfl

/-! ### More directories

Making a directory can only open ways: what led to a place leads to the same one afterwards. -/

/-- A path leads to the same place when there are more directories. -/
theorem walk_mono (hdirs : ∀ q, d.isDirectory q = true → d'.isDirectory q = true) {names : List String}
    {origin : DiskPath} (h : d.walk origin names = .ok place) : d'.walk origin names = .ok place := by
  induction names generalizing origin with
  | nil => exact h
  | cons name rest ih =>
      rw [walk] at h ⊢
      cases hd : d.isDirectory origin with
      | false =>
          rw [hd] at h
          cases h
      | true =>
          rw [hd] at h
          rw [hdirs origin hd]
          rw [Bool.not_true, if_neg Bool.false_ne_true] at h ⊢
          split at h
          next => cases h
          next hlong =>
            rw [if_neg hlong]
            exact ih h

/-- More directories leave every way open. -/
theorem locate_mono (hdirs : ∀ q, d.isDirectory q = true → d'.isDirectory q = true)
    (h : d.locate p = .ok place) : d'.locate p = .ok place := by
  unfold locate at h ⊢
  split at h
  next => cases h
  next hnull =>
    rw [if_neg hnull]
    split at h
    next => cases h
    next hlong =>
      rw [if_neg hlong]
      exact walk_mono hdirs h

/-- A path leads to the same place after a text has changed. -/
theorem locate_set (q : DiskPath) (text : String) {p : DiskPath} (h : d.locate p = .ok place) :
    (d.set q text).locate p = .ok place :=
  locate_mono (fun r (hdir : d.isDirectory r = true) => hdir) h

/-- Whether a path leads to a directory. -/
def HasDirectory (d : Disk) (p : DiskPath) : Prop :=
  ∃ place, d.locate p = .ok place ∧ d.isDirectory place = true

theorem HasDirectory.set (h : d.HasDirectory p) (q : DiskPath) (text : String) :
    (d.set q text).HasDirectory p := by
  obtain ⟨place, hl, hdir⟩ := h
  exact ⟨place, locate_set q text hl, hdir⟩

/-! ### Making directories -/

/-- A directory that was made is there. -/
theorem makeDirectory_ok (h : d.makeDirectory p = .ok d') : d'.HasDirectory p := by
  obtain ⟨place, hl, h⟩ := bind_ok h
  split at h
  next hdir =>
    cases h
    exact ⟨place, hl, hdir⟩
  next =>
    split at h
    next => cases h
    next =>
      cases h
      refine ⟨place, locate_mono (fun q hq => ?_) hl, ?_⟩
      · rw [isDirectory, Bool.or_eq_true, List.contains_iff_mem] at hq ⊢
        exact hq.imp_right (List.mem_append_left _)
      · rw [isDirectory, Bool.or_eq_true, List.contains_iff_mem]
        exact .inr (List.mem_append_right _ (List.mem_singleton_self place))

theorem HasDirectory.makeDirectory (h : d.HasDirectory p) : d.makeDirectory p = .ok d := by
  obtain ⟨place, hl, hdir⟩ := h
  simp only [Disk.makeDirectory, hl, bind, Except.bind, hdir]
  rfl

/-- The working directory and the root are there. -/
theorem hasDirectory_nil (d : Disk) (absolute : Bool) : d.HasDirectory ⟨absolute, []⟩ := by
  refine ⟨⟨absolute, []⟩, ?_, rfl⟩
  cases absolute <;> rfl

/-- The directories on a way are there after they were made. -/
theorem makeBelow_ok {absolute : Bool} {names : List String}
    (h : d.makeBelow absolute names = (.ok (), d')) : d'.HasDirectory ⟨absolute, names.reverse⟩ := by
  cases names with
  | nil => exact hasDirectory_nil d' absolute
  | cons name before =>
      rw [makeBelow] at h
      split at h
      next hmade =>
        cases h
        exact makeDirectory_ok hmade
      next =>
        split at h
        next =>
          split at h
          next hmade =>
            cases h
            exact makeDirectory_ok hmade
          next => cases h
        next => cases h
      next => cases h

/-- Directories that were made are there. -/
theorem makeDirectories_ok (h : d.makeDirectories p = (.ok (), d')) : d'.HasDirectory p := by
  have hbelow := makeBelow_ok h
  rw [List.reverse_reverse] at hbelow
  exact hbelow

/-- Where a directory is, making it again changes nothing. -/
theorem HasDirectory.makeDirectories (h : d.HasDirectory p) : d.makeDirectories p = (.ok (), d) := by
  rw [Disk.makeDirectories]
  cases hnames : p.names.reverse with
  | nil => rfl
  | cons name before =>
      have hp : (⟨p.absolute, (name :: before).reverse⟩ : DiskPath) = p := by
        rw [← hnames, List.reverse_reverse]
      rw [makeBelow]
      simp only [hp, h.makeDirectory]

theorem makeDirectory_files (h : d.makeDirectory p = .ok d') : d'.files = d.files := by
  obtain ⟨place, -, h⟩ := bind_ok h
  split at h
  next =>
    cases h
    rfl
  next =>
    split at h
    next => cases h
    next =>
      cases h
      rfl

/-- Making directories on a way touches no file, even if it stops before the end. -/
theorem makeBelow_files (absolute : Bool) (names : List String) :
    (d.makeBelow absolute names).2.files = d.files := by
  induction names generalizing d with
  | nil => rfl
  | cons name names ih =>
      rw [makeBelow]
      split
      next d₁ hmade => exact makeDirectory_files hmade
      next =>
        split
        next d₁ hbelow =>
          have hfiles : d₁.files = d.files := (congrArg (·.2.files) hbelow).symm.trans ih
          split
          next d₂ hmade => exact (makeDirectory_files hmade).trans hfiles
          next => exact hfiles
        next d₁ hbelow => exact (congrArg (·.2.files) hbelow).symm.trans ih
      next => rfl

/-- Making directories changes no file. -/
theorem text?_makeDirectories (d : Disk) (p q : DiskPath) :
    (d.makeDirectories p).2.text? q = d.text? q := by
  rw [text?, makeDirectories, makeBelow_files, text?]

/-! ### Reading and writing files -/

/-- A file that is read is there, and its text is given with all line ends unified. -/
theorem read_ok (h : d.read p = .ok text) :
    ∃ place kept, d.locate p = .ok place ∧ d.text? place = some kept
      ∧ text = String.ofList (unifyLineEnds kept.toList) := by
  obtain ⟨place, hl, h⟩ := bind_ok h
  cases ht : d.text? place with
  | some kept =>
      refine ⟨place, kept, hl, ht, ?_⟩
      cases hd : d.isDirectory place with
      | true =>
          rw [hd] at h
          cases h
      | false =>
          simp only [hd, ht] at h
          cases h
          rfl
  | none =>
      cases hd : d.isDirectory place with
      | true =>
          rw [hd] at h
          cases h
      | false =>
          simp only [hd, ht] at h
          cases h

/-- A file that was opened for writing is at the place of its path and holds nothing. -/
theorem create_ok (h : d.create p = .ok (place, d')) :
    d.locate p = .ok place ∧ d.isDirectory place = false ∧ d' = d.set place "" := by
  obtain ⟨q, hl, h⟩ := bind_ok h
  cases hd : d.isDirectory q with
  | true =>
      rw [hd] at h
      cases h
  | false =>
      rw [hd] at h
      cases h
      exact ⟨hl, hd, rfl⟩

theorem create_of_locate (hl : d.locate p = .ok place) (hd : d.isDirectory place = false) :
    d.create p = .ok (place, d.set place "") := by
  simp only [create, hl, bind, Except.bind, hd]
  rfl

theorem pathExists_of_locate (h : d.locate p = .ok place) :
    d.pathExists p = .ok ((d.text? place).isSome || d.isDirectory place) := by
  rw [pathExists, h]

theorem read_of_locate (h : d.locate p = .ok place) (hdir : d.isDirectory place = false)
    (htext : d.text? place = some text) : d.read p = .ok (String.ofList (unifyLineEnds text.toList)) := by
  simp only [read, h, bind, Except.bind, hdir, htext]
  rfl

theorem putFile_putFile (p : DiskPath) (first second : String) (fs : List (DiskPath × String)) :
    putFile p second (putFile p first fs) = putFile p second fs := by
  induction fs with
  | nil => simp [putFile]
  | cons f fs ih =>
      obtain ⟨q, t⟩ := f
      by_cases hq : q = p <;> simp [putFile, hq, ih]

/-- Of two texts written to one file the second one is left. -/
theorem set_set (d : Disk) (p : DiskPath) (first second : String) :
    (d.set p first).set p second = d.set p second :=
  congrArg (Disk.mk · d.directories) (putFile_putFile p first second d.files)

theorem write_of_locate (h : d.locate p = .ok place) (hdir : d.isDirectory place = false) (text : String) :
    d.write p text = .ok (d.set place text) := by
  rw [write, create_of_locate h hdir]
  exact congrArg Except.ok (set_set d place "" text)

/-- Writing a file changes the one at its place. -/
theorem write_ok (h : d.write p text = .ok d') :
    ∃ place, d.locate p = .ok place ∧ d'.locate p = .ok place
      ∧ ∀ q, d'.text? q = if q = place then some text else d.text? q := by
  obtain ⟨⟨place, d₁⟩, hcreate, h⟩ := bind_ok h
  obtain ⟨hl, -, rfl⟩ := create_ok hcreate
  cases h
  refine ⟨place, hl, locate_set place text (locate_set place "" hl), fun r => ?_⟩
  rw [text?_set, text?_set]
  split <;> rfl

end Disk

end Harvest
