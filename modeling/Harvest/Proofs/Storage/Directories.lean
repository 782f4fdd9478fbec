import Harvest.Proofs.Storage.Entries
import Mathlib.Data.List.Sort

/-!
# Directories as maps

A fragment store in a directory is meant to be the same map from names to texts as one in memory. This
module compares the two call by call: `FragmentStore.run` gives a store any number of calls and writes down
what came of each.

A directory that is empty at first need not be there yet; the first text makes it. What every call keeps is
said by `FragmentStore.Follows`: the directory mirrors a map, or it is still missing and the map is empty.
From this `FragmentStore.directory_alike` follows by induction on the calls.

Two things a directory cannot do. It cannot have a file whose name is too long: such a call fails, and
nothing else comes of it. And it cannot hold a text without bytes: writing one fails as well, but only when
the file is open, so that an empty text has taken the place of what the entry was
(`Sample.refused_in_directory`).

The results, from one call to any number:

* `FragmentStore.Follows.act`: what one call does to a directory that follows a map. `Outcome` lists the
  three ways: it is answered as by the map, it finds nothing, or it fails and changes nothing.
* `FragmentStore.Follows.read_write`: a write changes the entry of no other name.
* `FragmentStore.Follows.run`: after any calls the directory still follows the map, and its log is that of
  the map up to the calls that do not fit (`Alike`).
* `FragmentStore.directory_alike`: the same for sessions that each open the directory anew, which makes no
  difference, as the store is nothing but its directory (`act_directory`).
-/

namespace Harvest

open GraphQL

/-! ## Files in a directory

What a disk has under a name of a directory, and how writing there changes it. A name that leads to a place
before a write leads to it afterwards, and the list of names grows by one name or by none. -/

namespace Disk

variable {d : Disk} {p q place : DiskPath} {name text kept : String}

theorem map_fst_putFile (p : DiskPath) (text : String) (fs : List (DiskPath × String)) :
    (putFile p text fs).map (·.1)
      = if p ∈ fs.map (·.1) then fs.map (·.1) else fs.map (·.1) ++ [p] := by
  induction fs with
  | nil => simp [putFile]
  | cons f fs ih =>
      obtain ⟨q, t⟩ := f
      by_cases hq : q = p
      · subst hq
        simp [putFile]
      · have hp : p ≠ q := fun h => hq h.symm
        by_cases hm : p ∈ fs.map (·.1) <;> simp_all [putFile]

theorem isSome_text?_iff (d : Disk) (p : DiskPath) :
    (d.text? p).isSome = true ↔ p ∈ d.files.map (·.1) := by
  rw [text?, Option.isSome_map, List.find?_isSome, List.mem_map]
  simp only [beq_iff_eq]

/-- Writing a new file straight into a directory adds its name to those in the directory. -/
theorem entriesIn_set_of_none (hparent : p.parent = place) (horigin : p.isOrigin = false)
    (h : d.text? p = none) (text : String) :
    ((d.set p text).entriesIn place).Perm (p.last :: d.entriesIn place) := by
  have hnew : p ∉ d.files.map (·.1) := by
    rw [← isSome_text?_iff, h]
    nofun
  have hfiles : (d.set p text).files.map (·.1) = d.files.map (·.1) ++ [p] := by
    rw [set, map_fst_putFile, if_neg hnew]
  have hkept : [p].filter (fun q => q.parent == place && !q.isOrigin) = [p] := by
    refine List.filter_eq_self.mpr fun q hq => ?_
    rw [List.mem_singleton.mp hq, hparent, horigin, beq_self_eq_true]
    rfl
  rw [entriesIn, hfiles, entriesIn]
  show List.Perm (((d.files.map (·.1) ++ [p] ++ d.directories).filter _).map _) _
  rw [List.append_assoc, List.filter_append, List.filter_append, List.filter_append, hkept,
    List.map_append, List.map_append, List.map_append]
  exact List.perm_middle

/-- Writing a file anew adds no name. -/
theorem entriesIn_set_of_some (h : d.text? p = some kept) (text : String) (place : DiskPath) :
    (d.set p text).entriesIn place = d.entriesIn place := by
  have hold : p ∈ d.files.map (·.1) := by
    rw [← isSome_text?_iff, h]
    rfl
  rw [entriesIn, entriesIn]
  show ((((putFile p text d.files).map (·.1) ++ d.directories).filter _).map _) = _
  rw [map_fst_putFile, if_pos hold]

/-- In a directory that is there, every name leads to its place unless it is too long. -/
theorem HasDirectory.locate_below (h : d.HasDirectory p) (hname : '\x00' ∉ name.toList) :
    d.locate (p.below name)
      = if nameLimit < name.utf8ByteSize ∨ pathLimit ≤ (p.below name).display.utf8ByteSize then
          .error .overlong
        else .ok (p.place.enter name) := by
  obtain ⟨place, hl, hdir⟩ := h
  obtain rfl := locate_eq hl
  unfold locate at hl ⊢
  split at hl
  next => cases hl
  next hnull =>
    split at hl
    next => cases hl
    next =>
      have hnull' : ¬(p.below name).names.any (fun n => n.toList.contains '\x00') = true := by
        rw [DiskPath.names_below, List.any_append, Bool.or_eq_true, not_or]
        refine ⟨hnull, ?_⟩
        rw [List.any_cons, List.any_nil, Bool.or_false, List.contains_iff_mem]
        exact hname
      rw [if_neg hnull', walk_below, hl]
      show (if _ then _ else walk d p.place [name]) = _
      rw [walk, hdir, Bool.not_true, if_neg Bool.false_ne_true, walk]
      by_cases hlong : pathLimit ≤ (p.below name).display.utf8ByteSize
      · rw [if_pos hlong, if_pos (.inr hlong)]
      · rw [if_neg hlong]
        exact if_congr (or_iff_left hlong).symm rfl rfl

/-- What leads to a name in a directory leads to the directory first, unless its path is too long. -/
theorem hasDirectory_of_below {d' : Disk} (h : d.locate (p.below name) = .ok place)
    (hshort : d'.HasDirectory p) : d.HasDirectory p := by
  obtain ⟨place', hl, -⟩ := hshort
  unfold locate at h hl
  split at hl
  next => cases hl
  next hnull =>
    split at hl
    next => cases hl
    next hlong =>
      split at h
      next => cases h
      next =>
        split at h
        next => cases h
        next =>
          rw [walk_below] at h
          obtain ⟨q, hq, h⟩ := bind_ok h
          refine ⟨q, ?_, ?_⟩
          · rw [locate, if_neg hnull, if_neg hlong]
            exact hq
          · change walk d q [name] = .ok place at h
            rw [walk] at h
            split at h
            next => cases h
            next hdir => exact not_not.mp fun hn => hdir (by rw [Bool.not_eq_true _ |>.mp hn]; rfl)

/-- Where a longer walk succeeds, no name on the way is too long. -/
theorem walk_ne_overlong {d' : Disk} {names : List String} {origin place : DiskPath}
    (h : d'.walk origin names = .ok place) : d.walk origin names ≠ .error .overlong := by
  induction names generalizing origin with
  | nil =>
      intro heq
      cases heq
  | cons name names ih =>
      rw [walk] at h ⊢
      split at h
      next => cases h
      next =>
        split at h
        next => cases h
        next hlong =>
          split
          next =>
            intro heq
            split at heq <;> cases heq
          next => exact ih h

/-- A path whose continuation leads somewhere is not too long itself. -/
theorem locate_ne_overlong {d' : Disk} (h : d'.locate p = .ok place) : d.locate p ≠ .error .overlong := by
  unfold locate at h ⊢
  split at h
  next => cases h
  next hnull =>
    split at h
    next => cases h
    next hlong =>
      rw [if_neg hnull, if_neg hlong]
      exact walk_ne_overlong h

theorem write_of_error {f : Fault} (h : d.locate p = .error f) (text : String) :
    d.write p text = .error f := by
  simp only [write, create, h, bind, Except.bind]

end Disk

/-! ## Files of types

The file of a type lies in the directory itself and is named for the type, so that the types in a directory
can be told from its names (`typesIn`). Whether there can be such a file is a matter of lengths: `fits`. -/

/-- A text as a file gives it back: as far as it could be written, with all line ends unified. -/
def FileText.fromFile {τ : Type} [FileText τ] (text : τ) : τ :=
  ofString (String.ofList (Disk.unifyLineEnds (kept text).toList))

namespace FragmentStore

variable {τ : Type} {disk made : Disk} {path : DiskPath} {texts : Keyed τ}
  {typeName other name : String}

/-- The names of the types with a file in the directory at a place. -/
def typesIn (disk : Disk) (place : DiskPath) : List String :=
  ((disk.entriesIn place).filter fun n => fragmentSuffix.toList.isSuffixOf n.toList).map stem

/-- Whether a directory can have a file for a type: neither its name nor its path is too long. -/
def fits (path : DiskPath) (typeName : String) : Bool :=
  (typeName ++ fragmentSuffix).utf8ByteSize ≤ Disk.nameLimit
    && (file path typeName).display.utf8ByteSize < Disk.pathLimit

/-- The file of a type is named so that the type can be told from it. -/
theorem stem_entryName (h : typeName ≠ "") : stem (typeName ++ fragmentSuffix) = typeName := by
  have hlist : (typeName ++ fragmentSuffix).toList = typeName.toList ++ '.' :: "graphql".toList :=
    String.toList_append
  have htail : (typeName ++ fragmentSuffix).toList.reverse.takeWhile (· ≠ '.')
      = "graphql".toList.reverse := by
    rw [hlist, List.reverse_append, List.reverse_cons, List.append_assoc]
    rfl
  have hfront : (typeName ++ fragmentSuffix).toList.take
      ((typeName ++ fragmentSuffix).toList.length - "graphql".toList.reverse.length - 1)
      = typeName.toList := by
    rw [hlist, List.length_append]
    exact List.take_left
  have hempty : typeName.toList ≠ [] := fun he => h (String.toList_eq_nil_iff.mp he)
  rw [stem, htail, hfront, if_neg, String.ofList_toList]
  rintro (hnil | hall | hnil)
  · cases hnil
  · rw [hlist, List.length_append] at hall
    have hlength : 0 < typeName.toList.length := List.length_pos_of_ne_nil hempty
    have hseven : "graphql".toList.reverse.length = 7 := rfl
    have height : ('.' :: "graphql".toList).length = 8 := rfl
    omega
  · exact hempty (List.isEmpty_iff.mp hnil)

/-- The file of a type is no directory from which paths start. -/
theorem isOrigin_entryPlace (path : DiskPath) (typeName : String) :
    (entryPlace path typeName).isOrigin = false := by
  rw [entryPlace_eq, DiskPath.isOrigin, List.all_append, List.all_cons, List.all_nil]
  have hne : (typeName ++ fragmentSuffix == DiskPath.upward) = false :=
    beq_eq_false_iff_ne.mpr (entryName_ne typeName DiskPath.upward (by decide))
  rw [hne, Bool.false_and, Bool.and_false]

theorem parent_entryPlace (path : DiskPath) (typeName : String) :
    (entryPlace path typeName).parent = path.place := by
  rw [entryPlace_eq, DiskPath.parent]
  exact congrArg (DiskPath.mk _) List.dropLast_concat

theorem last_entryPlace (path : DiskPath) (typeName : String) :
    (entryPlace path typeName).last = typeName ++ fragmentSuffix := by
  rw [entryPlace_eq, DiskPath.last, List.getLast?_append]
  rfl

theorem isSuffixOf_entryName (typeName : String) :
    fragmentSuffix.toList.isSuffixOf (typeName ++ fragmentSuffix).toList = true := by
  rw [List.isSuffixOf_iff_suffix, String.toList_append]
  exact List.suffix_append _ _

/-- A type whose place is taken, by a file or by a directory, is among those in the directory. -/
theorem mem_typesIn (h : entryPlace path typeName ∈ disk.files.map (·.1) ++ disk.directories) :
    stem (typeName ++ fragmentSuffix) ∈ typesIn disk path.place := by
  refine List.mem_map_of_mem (List.mem_filter.mpr ⟨?_, ?_⟩)
  · refine List.mem_map.mpr ⟨_, List.mem_filter.mpr ⟨h, ?_⟩, last_entryPlace path typeName⟩
    rw [parent_entryPlace, isOrigin_entryPlace, beq_self_eq_true]
    rfl
  · exact isSuffixOf_entryName typeName

/-- The first text for a type adds the type to those in the directory. -/
theorem typesIn_set_of_none (hname : typeName ≠ "") (h : disk.text? (entryPlace path typeName) = none)
    (text : String) :
    (typesIn (disk.set (entryPlace path typeName) text) path.place).Perm
      (typeName :: typesIn disk path.place) := by
  have hentries := Disk.entriesIn_set_of_none (parent_entryPlace path typeName)
    (isOrigin_entryPlace path typeName) h text
  rw [last_entryPlace] at hentries
  have htypes := (hentries.filter fun n => fragmentSuffix.toList.isSuffixOf n.toList).map stem
  rw [List.filter_cons, if_pos (isSuffixOf_entryName typeName), List.map_cons, stem_entryName hname] at htypes
  exact htypes

theorem typesIn_set_of_some {kept : String} (h : disk.text? (entryPlace path typeName) = some kept)
    (text : String) : typesIn (disk.set (entryPlace path typeName) text) path.place = typesIn disk path.place := by
  rw [typesIn, Disk.entriesIn_set_of_some h, typesIn]

/-- In a directory that is there, the file of a type is found unless its name or path is too long. -/
theorem locate_entry (h : disk.HasDirectory path) (hname : IsName typeName) :
    disk.locate (file path typeName)
      = if fits path typeName then .ok (entryPlace path typeName) else .error .overlong := by
  have hnull : '\x00' ∉ (typeName ++ fragmentSuffix).toList := fun hc =>
    (mem_entryName hname hc).elim nofun nofun
  have hfits : fits path typeName = true
      ↔ ¬(Disk.nameLimit < (typeName ++ fragmentSuffix).utf8ByteSize
        ∨ Disk.pathLimit ≤ (path.below (typeName ++ fragmentSuffix)).display.utf8ByteSize) := by
    rw [fits, file_eq path hname, Bool.and_eq_true, decide_eq_true_eq, decide_eq_true_eq, not_or,
      Nat.not_lt, Nat.not_le]
  rw [file_eq path hname, h.locate_below hnull]
  by_cases hf : fits path typeName = true
  · rw [if_pos hf, if_neg (hfits.mp hf)]
    rfl
  · rw [if_neg hf, if_pos (not_not.mp fun hn => hf (hfits.mpr hn))]

/-! ## Calls

A store is a map behind three calls. `Call.act` is what a store does, `Call.reply` and `Call.apply` are what
a map would do, and the rest of the module says how far the two agree. -/

/-- What a store is asked for. -/
inductive Call (τ : Type) where
  | write (typeName : String) (text : τ)
  | read (typeName : String)
  | names
  deriving DecidableEq, Repr

/-- What comes of a call. -/
inductive Reply (τ : Type) where
  | written
  | found (text : Option τ)
  | listed (names : List String)
  | failed (f : Fault)
  deriving DecidableEq, Repr

variable [FileText τ]

namespace Call

def act : Call τ → FragmentStore τ → Disk → Reply τ × FragmentStore τ × Disk
  | .write typeName text, store, disk =>
    match store.write disk typeName text with
    | (.ok store', disk') => (.written, store', disk')
    | (.error f, disk') => (.failed f, store, disk')
  | .read typeName, store, disk =>
    match store.read disk typeName with
    | .ok text => (.found text, store, disk)
    | .error f => (.failed f, store, disk)
  | .names, store, disk =>
    match store.names disk with
    | .ok found => (.listed found, store, disk)
    | .error f => (.failed f, store, disk)

/-- Whether a call names a type properly, if it names one. -/
def IsNamed : Call τ → Prop
  | .write typeName _ => IsName typeName
  | .read typeName => IsName typeName
  | .names => True

/-- Whether a directory can have a file for the type of a call. -/
def fits (path : DiskPath) : Call τ → Bool
  | .write typeName _ => FragmentStore.fits path typeName
  | .read typeName => FragmentStore.fits path typeName
  | .names => true

/-- What a map replies to a call. -/
def reply (texts : Keyed τ) : Call τ → Reply τ
  | .write .. => .written
  | .read typeName => .found (texts.get? typeName)
  | .names => .listed (texts.keys.mergeSort fun a b => decide (a ≤ b))

/-- The map after a call. -/
def apply (texts : Keyed τ) : Call τ → Keyed τ
  | .write typeName text => texts.insert typeName text
  | _ => texts

/-- A store in memory is the map that it holds. -/
@[simp] theorem act_memory (c : Call τ) (texts : Keyed τ) (disk : Disk) :
    c.act (.memory texts) disk = (c.reply texts, .memory (c.apply texts), disk) := by
  cases c <;> rfl

/-- What a directory replies to a call that a map replies to: a text comes back as a file gives it, and a
text that no file can hold is refused. -/
def fromFile : Call τ → Reply τ → Reply τ
  | .write _ text, _ => if FileText.isWritable text then .written else .failed .unencodable
  | _, .found text => .found (text.map FileText.fromFile)
  | _, r => r

end Call

/-- A number of calls, each with what comes of it, and what is left after them. -/
def run (store : FragmentStore τ) (disk : Disk) :
    List (Call τ) → List (Call τ × Reply τ) × FragmentStore τ × Disk
  | [] => ([], store, disk)
  | c :: calls =>
    let (reply, store, disk) := c.act store disk
    let (log, store, disk) := run store disk calls
    ((c, reply) :: log, store, disk)

/-- A number of sessions, each with a store that is opened anew for the directory of a name. -/
def reopened (name : String) (disk : Disk) : List (List (Call τ)) → List (Call τ × Reply τ) × Disk
  | [] => ([], disk)
  | calls :: sessions =>
    let (log, _, disk) := run (.ofName name) disk calls
    let (logs, disk) := reopened name disk sessions
    (log ++ logs, disk)

/-! ## One call

A directory that holds what a map holds answers like the map, and holds what the map holds after the call.
The cases are the three calls, and for each whether the name fits and whether the text can be written. -/

/-- A directory is asked for the file of a type before it is read. -/
theorem read_directory (path : DiskPath) (disk : Disk) (typeName : String) :
    (directory path : FragmentStore τ).read disk typeName
      = disk.pathExists (file path typeName) >>= fun isThere =>
          if isThere then (disk.read (file path typeName)).map fun text => some (FileText.ofString text)
          else .ok none := rfl

/-! ### A directory that is there

`Mirrors` is about every name at once, also about those that do not fit: they have no entry in the map, and
no file in the directory. -/

/-- A directory that is there and holds what a map holds, as far as files can hold it. -/
structure Mirrors (path : DiskPath) (disk : Disk) (texts : Keyed τ) : Prop where
  isThere : disk.HasDirectory path
  areFiles : ∀ typeName, disk.isDirectory (entryPlace path typeName) = false
  text : ∀ typeName, disk.text? (entryPlace path typeName) = (texts.get? typeName).map FileText.kept
  types : (typesIn disk path.place).Perm texts.keys

namespace Mirrors

/-- After a write the directory holds what the map holds, as far as a file can hold it. -/
theorem write (h : Mirrors path disk texts) (hname : typeName ≠ "") (text : τ) :
    Mirrors path (disk.set (entryPlace path typeName) (FileText.kept text))
      (texts.insert typeName text) where
  isThere := h.isThere.set _ _
  areFiles := h.areFiles
  text := by
    intro other
    rw [Disk.text?_set, Keyed.get?_insert, h.text]
    by_cases ho : other = typeName
    · rw [if_pos (congrArg _ ho), if_pos ho]
      rfl
    · rw [if_neg fun he => ho (entryPlace_inj he), if_neg ho]
  -- a new entry adds its type to the listed ones, an old one leaves them as they are
  types := by
    rw [Keyed.keys_insert]
    cases ht : disk.text? (entryPlace path typeName) with
    | none =>
        have hnew : typeName ∉ texts.keys := by
          rw [← Keyed.contains_iff_mem_keys, Keyed.contains, Option.map_eq_none_iff.mp ((h.text _).symm.trans ht)]
          exact Bool.false_ne_true
        rw [if_neg hnew]
        refine (typesIn_set_of_none hname ht _).trans ?_
        exact (h.types.cons typeName).trans (List.perm_append_singleton typeName texts.keys).symm
    | some kept =>
        have hold : typeName ∈ texts.keys := by
          obtain ⟨_, hkept, -⟩ := Option.map_eq_some_iff.mp ((h.text _).symm.trans ht)
          rw [← Keyed.contains_iff_mem_keys, Keyed.contains, hkept]
          rfl
        rw [if_pos hold, typesIn_set_of_some ht]
        exact h.types

/-- A type is looked up in the directory as in the map, unless its name is too long. -/
theorem read_eq (h : Mirrors path disk texts) (hname : IsName typeName) :
    (directory path).read disk typeName
      = if fits path typeName then .ok ((texts.get? typeName).map FileText.fromFile)
        else .error .overlong := by
  have hl := locate_entry h.isThere hname
  by_cases hf : fits path typeName = true
  · rw [if_pos hf] at hl ⊢
    have hexists := Disk.pathExists_of_locate hl
    rw [h.areFiles, Bool.or_false, h.text] at hexists
    rw [read_directory, hexists]
    cases ht : texts.get? typeName with
    | none => rfl
    | some kept =>
        show (disk.read (file path typeName)).map _ = _
        rw [Disk.read_of_locate hl (h.areFiles typeName)
          ((h.text typeName).trans (congrArg (Option.map FileText.kept) ht))]
        rfl
  · rw [if_neg hf] at hl ⊢
    rw [read_directory, Disk.pathExists, hl]
    rfl

/-- The names in the directory are the keys of the map, in alphabetical order. -/
theorem names_eq (h : Mirrors path disk texts) :
    (directory path : FragmentStore τ).names disk = .ok (texts.keys.mergeSort fun a b => decide (a ≤ b)) := by
  obtain ⟨place, hl, hdir⟩ := h.isThere
  obtain rfl := Disk.locate_eq hl
  have hfound : namesIn disk path = .ok (typesIn disk path.place) := by
    rw [namesIn, hl]
    exact congrArg Except.ok (if_pos hdir)
  show (namesIn disk path).map _ = _
  rw [hfound]
  refine congrArg Except.ok ?_
  -- the names come in different orders, but there is only one way to sort them
  exact (((List.mergeSort_perm _ _).trans h.types).trans (List.mergeSort_perm _ _).symm).eq_of_pairwise'
    (List.pairwise_mergeSort' (· ≤ ·) _) (List.pairwise_mergeSort' (· ≤ ·) _)

/-- A write is refused for a long name, with nothing done, and for a text without bytes, after the file was
emptied. -/
theorem write_eq (h : Mirrors path disk texts) (hname : IsName typeName) (text : τ) :
    (directory path).write disk typeName text
      = if fits path typeName then
          (if FileText.isWritable text then .ok (directory path) else .error .unencodable,
            disk.set (entryPlace path typeName) (FileText.kept text))
        else (.error .overlong, disk) := by
  have hl := locate_entry h.isThere hname
  rw [FragmentStore.write, h.isThere.makeDirectories]
  by_cases hf : fits path typeName = true
  · rw [if_pos hf] at hl ⊢
    simp only [Disk.write_of_locate hl (h.areFiles typeName) (FileText.kept text)]
  · rw [if_neg hf] at hl ⊢
    simp only [Disk.write_of_error hl (FileText.kept text)]

end Mirrors

/-! ### A directory that is not there yet

Until the first text is written, there is nothing to read and there are no names, as in the empty map. The
first write makes the directory on its way, whether or not its text has bytes. -/

/-- A directory that holds what a map holds, or would if it were there: it is made for the first text. -/
inductive Follows (path : DiskPath) (disk : Disk) (texts : Keyed τ) : Prop
  | standing (h : Mirrors path disk texts)
  | awaited {made : Disk} (hmissing : ¬disk.HasDirectory path)
      (hmade : disk.makeDirectories path = (.ok (), made)) (h : Mirrors path made (.empty : Keyed τ))
      (hnone : texts = .empty)

theorem ne_empty_of_isName (h : IsName typeName) : typeName ≠ "" := by
  rintro rfl
  obtain ⟨c, cs, hs, -⟩ := h
  cases hs

/-- What is read while the directory is not there. -/
theorem read_of_missing (hmissing : ¬disk.HasDirectory path) (h : Mirrors path made (.empty : Keyed τ))
    (hname : IsName typeName) :
    (directory path : FragmentStore τ).read disk typeName = .ok none
      ∨ (fits path typeName = false
        ∧ (directory path : FragmentStore τ).read disk typeName = .error .overlong) := by
  rw [read_directory]
  cases hl : disk.locate (file path typeName) with
  | ok place =>
      rw [file_eq path hname] at hl
      exact absurd (Disk.hasDirectory_of_below hl h.isThere) hmissing
  | error f =>
      rw [Disk.pathExists, hl]
      by_cases hf : f = .overlong
      · subst hf
        refine .inr ⟨?_, rfl⟩
        refine Bool.eq_false_iff.mpr fun hfits => ?_
        have hmade := locate_entry h.isThere hname
        rw [if_pos hfits] at hmade
        exact Disk.locate_ne_overlong hmade hl
      · left
        cases f <;> first | rfl | exact absurd rfl hf

/-- While the directory is not there, no names are found. -/
theorem names_of_missing (hmissing : ¬disk.HasDirectory path) (h : Mirrors path made (.empty : Keyed τ)) :
    (directory path : FragmentStore τ).names disk = .ok [] := by
  obtain ⟨place, hmade, -⟩ := h.isThere
  have hfound : namesIn disk path = .ok [] := by
    rw [namesIn]
    cases hl : disk.locate path with
    | ok place =>
        refine congrArg Except.ok (if_neg fun hdir => hmissing ⟨place, hl, hdir⟩)
    | error f =>
        cases f <;> first | rfl | exact absurd hl (Disk.locate_ne_overlong hmade)
  show (namesIn disk path).map _ = _
  rw [hfound]
  exact congrArg Except.ok List.mergeSort_nil

/-- What a call does to a directory that follows a map: it answers as the map does, as far as files go, and
goes on to follow it, or the name is too long, so that the call finds nothing or fails, and nothing
changes. -/
inductive Outcome (path : DiskPath) (texts : Keyed τ) (c : Call τ) : Reply τ → Disk → Prop
  | answered {disk : Disk} (hfits : c.fits path = true) (h : Follows path disk (c.apply texts)) :
      Outcome path texts c (c.fromFile (c.reply texts)) disk
  | refused {reply : Reply τ} {disk : Disk} (hfits : c.fits path = false)
      (hreply : reply = .failed .overlong ∨ reply = .found none) (h : Follows path disk texts) :
      Outcome path texts c reply disk

/-- One call to a directory that is there. -/
theorem Mirrors.act (h : Mirrors path disk texts) {c : Call τ} (hc : c.IsNamed) :
    ∃ reply disk', c.act (directory path) disk = (reply, directory path, disk')
      ∧ Outcome path texts c reply disk' := by
  cases c with
  | write typeName text =>
      have hw := h.write_eq hc text
      by_cases hf : fits path typeName = true
      · rw [if_pos hf] at hw
        refine ⟨(Call.write typeName text).fromFile .written, _, ?_,
          .answered hf (.standing (h.write (ne_empty_of_isName hc) text))⟩
        simp only [Call.act, hw, Call.fromFile]
        cases FileText.isWritable text <;> rfl
      · rw [if_neg hf] at hw
        refine ⟨.failed .overlong, disk, by simp only [Call.act, hw], ?_⟩
        exact .refused (Bool.eq_false_iff.mpr hf) (.inl rfl) (.standing h)
  | read typeName =>
      have hr := h.read_eq hc
      by_cases hf : fits path typeName = true
      · rw [if_pos hf] at hr
        refine ⟨_, disk, by simp only [Call.act, hr]; rfl, .answered hf (.standing h)⟩
      · rw [if_neg hf] at hr
        refine ⟨.failed .overlong, disk, by simp only [Call.act, hr], ?_⟩
        exact .refused (Bool.eq_false_iff.mpr hf) (.inl rfl) (.standing h)
  | names => exact ⟨_, disk, by simp only [Call.act, h.names_eq]; rfl, .answered rfl (.standing h)⟩

/-- **What one call does to a directory** that follows a map. Before the first text the directory may be
missing: then it is made, or nothing is found in it. -/
theorem Follows.act (h : Follows path disk texts) {c : Call τ} (hc : c.IsNamed) :
    ∃ reply disk', c.act (directory path) disk = (reply, directory path, disk')
      ∧ Outcome path texts c reply disk' := by
  cases h with
  | standing h => exact h.act hc
  | @awaited made hmissing hmade h hnone =>
      subst hnone
      cases c with
      | write typeName text =>
          obtain ⟨reply, disk', hact, houtcome⟩ := h.act hc
          refine ⟨reply, disk', ?_, houtcome⟩
          -- the directory is made first, and then it is as if it had been there
          have hsame : (directory path).write disk typeName text = (directory path).write made typeName text := by
            rw [FragmentStore.write, FragmentStore.write, hmade, h.isThere.makeDirectories]
          simp only [Call.act] at hact ⊢
          rw [hsame]
          exact hact
      | read typeName =>
          rcases read_of_missing hmissing h hc with hr | ⟨hf, hr⟩
          · refine ⟨.found none, disk, by simp only [Call.act, hr], ?_⟩
            by_cases hf : fits path typeName = true
            · exact .answered hf (.awaited hmissing hmade h rfl)
            · exact .refused (Bool.eq_false_iff.mpr hf) (.inr rfl) (.awaited hmissing hmade h rfl)
          · refine ⟨.failed .overlong, disk, by simp only [Call.act, hr], ?_⟩
            exact .refused hf (.inl rfl) (.awaited hmissing hmade h rfl)
      | names =>
          refine ⟨.listed [], disk, by simp only [Call.act, names_of_missing hmissing h], ?_⟩
          have hreply : (Call.names : Call τ).fromFile (Call.reply .empty .names) = .listed [] :=
            congrArg Reply.listed List.mergeSort_nil
          rw [← hreply]
          exact .answered rfl (.awaited hmissing hmade h rfl)

/-- What a directory gives for a name that fits is what the map holds, with its line ends unified. -/
theorem Follows.read_eq (h : Follows path disk texts) (hname : IsName typeName)
    (hf : fits path typeName = true) :
    (directory path).read disk typeName = .ok ((texts.get? typeName).map FileText.fromFile) := by
  obtain ⟨reply, disk', hact, houtcome⟩ := h.act (c := .read typeName) hname
  cases houtcome with
  | refused hfits => cases hf.symm.trans hfits
  | answered =>
      rw [Call.act] at hact
      split at hact
      next found hr =>
        rw [hr]
        exact congrArg Except.ok (Reply.found.inj (congrArg Prod.fst hact))
      next => cases congrArg Prod.fst hact

theorem act_write (store : FragmentStore τ) (disk : Disk) (typeName : String) (text : τ) :
    ((Call.write typeName text).act store disk).2.2 = (store.write disk typeName text).2 := by
  rw [Call.act]
  split
  next hw => rw [hw]
  next hw => rw [hw]

/-- **A write changes the entry of no other name.** -/
theorem Follows.read_write (h : Follows path disk texts) (hname : IsName typeName) (hother : IsName other)
    (hne : other ≠ typeName) (hf : fits path other = true) (text : τ) :
    (directory path : FragmentStore τ).read ((directory path).write disk typeName text).2 other
      = (directory path : FragmentStore τ).read disk other := by
  obtain ⟨reply, disk', hact, houtcome⟩ := h.act (c := .write typeName text) hname
  have hdisk : ((directory path).write disk typeName text).2 = disk' := by
    rw [← act_write, hact]
  rw [hdisk, h.read_eq hother hf]
  cases houtcome with
  | answered _ h' =>
      rw [h'.read_eq hother hf, Call.apply, Keyed.get?_insert, if_neg hne]
  | refused _ _ h' => exact h'.read_eq hother hf

/-! ## Any number of calls

The logs are compared call by call. A call that does not fit leaves the map as it was, so that the two maps
stay the same and the induction can go on. -/

/-- The map after a number of calls, of which only those that fit count. -/
def applyAll (path : DiskPath) (texts : Keyed τ) (calls : List (Call τ)) : Keyed τ :=
  (calls.filter (Call.fits path)).foldl Call.apply texts

/-- The log of a directory that is the same map as one in memory: every call that fits is answered as a
store in memory answers it that gets these calls only, as far as files go, and all others are refused. -/
structure Alike (path : DiskPath) (texts : Keyed τ) (calls : List (Call τ))
    (log : List (Call τ × Reply τ)) : Prop where
  complete : log.map (·.1) = calls
  answered : log.filter (fun e => e.1.fits path)
    = (run (.memory texts) .empty (calls.filter (Call.fits path))).1.map fun e => (e.1, e.1.fromFile e.2)
  refused : ∀ e ∈ log, e.1.fits path = false → e.2 = .failed .overlong ∨ e.2 = .found none

theorem run_cons (store : FragmentStore τ) (disk : Disk) (c : Call τ) (calls : List (Call τ)) :
    run store disk (c :: calls)
      = ((c, (c.act store disk).1) :: (run (c.act store disk).2.1 (c.act store disk).2.2 calls).1,
          (run (c.act store disk).2.1 (c.act store disk).2.2 calls).2) := rfl

theorem run_memory_cons (c : Call τ) (calls : List (Call τ)) (texts : Keyed τ) (disk : Disk) :
    (run (.memory texts) disk (c :: calls)).1
      = (c, c.reply texts) :: (run (.memory (c.apply texts)) disk calls).1 := by
  rw [run_cons, Call.act_memory]

/-- A call that fits is answered as by the map, in front of what comes later. -/
theorem Alike.answer {c : Call τ} {calls : List (Call τ)} {log : List (Call τ × Reply τ)}
    (hfits : c.fits path = true) (h : Alike path (c.apply texts) calls log) :
    Alike path texts (c :: calls) ((c, c.fromFile (c.reply texts)) :: log) where
  complete := congrArg (c :: ·) h.complete
  answered := by
    rw [List.filter_cons, List.filter_cons, if_pos hfits, if_pos hfits, run_memory_cons, List.map_cons]
    exact congrArg _ h.answered
  refused := List.forall_mem_cons.mpr ⟨fun hn => (Bool.eq_false_iff.mp hn hfits).elim, h.refused⟩

/-- A call that does not fit is refused, and the map does not notice. -/
theorem Alike.refuse {c : Call τ} {calls : List (Call τ)} {log : List (Call τ × Reply τ)} {reply : Reply τ}
    (hfits : c.fits path = false) (hreply : reply = .failed .overlong ∨ reply = .found none)
    (h : Alike path texts calls log) : Alike path texts (c :: calls) ((c, reply) :: log) where
  complete := congrArg (c :: ·) h.complete
  answered := by
    have hnot : ¬c.fits path = true := Bool.eq_false_iff.mp hfits
    rw [List.filter_cons, List.filter_cons, if_neg hnot, if_neg hnot]
    exact h.answered
  refused := List.forall_mem_cons.mpr ⟨fun _ => hreply, h.refused⟩

/-- **A directory follows a map through any number of calls.** The induction is on the calls. -/
theorem Follows.run (h : Follows path disk texts) {calls : List (Call τ)} (hcalls : ∀ c ∈ calls, c.IsNamed) :
    ∃ log disk', FragmentStore.run (directory path) disk calls = (log, directory path, disk')
      ∧ Alike path texts calls log ∧ Follows path disk' (applyAll path texts calls) := by
  induction calls generalizing disk texts with
  | nil => exact ⟨[], disk, rfl, ⟨rfl, rfl, nofun⟩, h⟩
  | cons c calls ih =>
      obtain ⟨hc, hcalls⟩ := List.forall_mem_cons.mp hcalls
      obtain ⟨reply, disk₁, hact, houtcome⟩ := h.act hc
      rw [run_cons, hact]
      cases houtcome with
      | answered hfits h₁ =>
          obtain ⟨log, disk₂, hrun, halike, h₂⟩ := ih h₁ hcalls
          refine ⟨_, disk₂, by dsimp only; rw [hrun], halike.answer hfits, ?_⟩
          rw [applyAll, List.filter_cons_of_pos hfits]
          exact h₂
      | refused hfits hreply h₁ =>
          obtain ⟨log, disk₂, hrun, halike, h₂⟩ := ih h₁ hcalls
          refine ⟨_, disk₂, by dsimp only; rw [hrun], halike.refuse hfits hreply, ?_⟩
          rw [applyAll, List.filter_cons_of_neg (Bool.eq_false_iff.mp hfits)]
          exact h₂

/-- A run may be cut into two, of which the second goes on from where the first has stopped. -/
theorem run_append (store : FragmentStore τ) (disk : Disk) (calls more : List (Call τ)) :
    run store disk (calls ++ more)
      = ((run store disk calls).1 ++ (run (run store disk calls).2.1 (run store disk calls).2.2 more).1,
          (run (run store disk calls).2.1 (run store disk calls).2.2 more).2) := by
  induction calls generalizing store disk with
  | nil => rfl
  | cons c calls ih =>
      rw [List.cons_append, run_cons, ih]
      rfl

/-- A store in a directory is nothing but its directory. -/
theorem act_directory (c : Call τ) (path : DiskPath) (disk : Disk) :
    (c.act (directory path) disk).2.1 = directory path := by
  cases c with
  | write typeName text =>
      rw [Call.act]
      split
      next hw =>
        rw [FragmentStore.write] at hw
        split at hw
        next => cases hw
        next =>
          split at hw
          next =>
            split at hw
            next =>
              cases hw
              rfl
            next => cases hw
          next => cases hw
      next => rfl
  | read typeName =>
      rw [Call.act]
      split <;> rfl
  | names =>
      rw [Call.act]
      split <;> rfl

theorem run_directory (path : DiskPath) (disk : Disk) (calls : List (Call τ)) :
    (run (directory path) disk calls).2.1 = directory path := by
  induction calls generalizing disk with
  | nil => rfl
  | cons c calls ih =>
      rw [run_cons, act_directory]
      exact ih _

omit [FileText τ] in
theorem ofName_eq (h : name ≠ "") : (ofName name : FragmentStore τ) = .directory (.ofString name) :=
  if_neg h

/-- Opening a store anew on its directory makes no difference. -/
theorem reopened_eq (hname : name ≠ "") (disk : Disk) (sessions : List (List (Call τ))) :
    reopened name disk sessions
      = ((run (.ofName name) disk sessions.flatten).1, (run (.ofName name) disk sessions.flatten).2.2) := by
  induction sessions generalizing disk with
  | nil => rfl
  | cons calls sessions ih =>
      have hstep : reopened name disk (calls :: sessions)
          = ((run (.ofName name) disk calls).1 ++ (reopened name (run (.ofName name) disk calls).2.2 sessions).1,
              (reopened name (run (.ofName name) disk calls).2.2 sessions).2) := rfl
      rw [hstep, ih, List.flatten_cons, ofName_eq hname, run_append, run_directory]

/-! ## Directories that are empty at first

The condition under which a store in memory and one in a directory begin alike. The directory need not be
there. -/

/-- Whether a directory is there, or can be made, and is then empty: nothing in it has a name like the file
of a fragment. -/
def IsVacant (disk : Disk) (path : DiskPath) : Prop :=
  ∃ made, disk.makeDirectories path = (.ok (), made) ∧ typesIn made path.place = []

/-- A directory with nothing in it, or none yet, follows the empty map. -/
theorem IsVacant.follows (h : IsVacant disk path) : Follows path disk (.empty : Keyed τ) := by
  obtain ⟨made, hmade, hnone⟩ := h
  have hfree (typeName : String) :
      entryPlace path typeName ∉ made.files.map (·.1) ++ made.directories := by
    intro hmem
    have hmirrors := mem_typesIn hmem
    rw [hnone] at hmirrors
    cases hmirrors
  have hmirrors : Mirrors path made (.empty : Keyed τ) := by
    refine ⟨Disk.makeDirectories_ok hmade, fun typeName => ?_, fun typeName => ?_, ?_⟩
    · rw [Disk.isDirectory, isOrigin_entryPlace, Bool.false_or]
      refine Bool.eq_false_iff.mpr fun hdir => hfree typeName (List.mem_append_right _ ?_)
      exact List.contains_iff_mem.mp hdir
    · refine Option.not_isSome_iff_eq_none.mp fun htext => hfree typeName (List.mem_append_left _ ?_)
      exact (Disk.isSome_text?_iff made _).mp htext
    · rw [hnone]
      exact .refl _
  by_cases hthere : disk.HasDirectory path
  · rw [hthere.makeDirectories] at hmade
    cases hmade
    exact .standing hmirrors
  · exact .awaited hthere hmade hmirrors rfl

/-- **A directory is the same map as a store in memory**, for texts of every kind. Whatever is asked of it,
in sessions that each open it anew: what fits is answered as in memory, but that a text is read back with
its line ends unified, and that one without bytes is refused and read back empty; what does not fit is
refused; and afterwards a write still changes the entry of no other name. -/
theorem directory_alike (hname : name ≠ "") (hvacant : IsVacant disk (.ofString name))
    {sessions : List (List (Call τ))} (hcalls : ∀ calls ∈ sessions, ∀ c ∈ calls, c.IsNamed) :
    Alike (.ofString name) .empty sessions.flatten (reopened name disk sessions).1
      ∧ ∀ (typeName other : String) (text : τ), IsName typeName → IsName other → other ≠ typeName →
          fits (.ofString name) other = true →
          (ofName name : FragmentStore τ).read
              ((ofName name).write (reopened name disk sessions).2 typeName text).2 other
            = (ofName name : FragmentStore τ).read (reopened name disk sessions).2 other := by
  have hall : ∀ c ∈ sessions.flatten, c.IsNamed := by
    intro c hc
    obtain ⟨calls, hcalls', hc⟩ := List.mem_flatten.mp hc
    exact hcalls calls hcalls' c hc
  obtain ⟨log, disk', hrun, halike, hfollows⟩ := hvacant.follows.run hall
  rw [reopened_eq hname, ofName_eq hname, hrun]
  refine ⟨halike, ?_⟩
  intro typeName other text hn ho hne hf
  exact hfollows.read_write hn ho hne hf text

end FragmentStore

/-! ## Two sessions, and what a directory refuses -/

namespace Sample

open FragmentStore

/-- Two sessions in which a text with a foreign line end is kept and one without bytes is not. -/
def keeping : List (List (Call RawText)) :=
  [[.write "A" (.ofString "a\r\nb"), .read "A"], [.names, .write "B" .half, .read "B", .read "C"]]

theorem isVacant_fragments : IsVacant .empty (.ofString "fragments") :=
  ⟨⟨[], [⟨false, ["fragments"]⟩]⟩, rfl, rfl⟩

/-- What is kept in the first session is there in the second one. Of the half of a pair an empty text is
kept. -/
theorem text_kept :
    (∀ calls ∈ keeping, ∀ c ∈ calls, c.IsNamed)
      ∧ (reopened "fragments" .empty keeping).1
        = [(.write "A" (.ofString "a\r\nb"), .written), (.read "A", .found (some (.ofString "a\nb"))),
            (.names, .listed ["A"]), (.write "B" .half, .failed .unencodable),
            (.read "B", .found (some (.ofString ""))), (.read "C", .found none)] := by
  have hnames : ∀ calls ∈ keeping, ∀ c ∈ calls, c.IsNamed := by
    have ha : IsName "A" := by decide
    have hb : IsName "B" := by decide
    have hc : IsName "C" := by decide
    simp [keeping, Call.IsNamed, ha, hb, hc]
  have hfits : ∀ c ∈ keeping.flatten, c.fits (.ofString "fragments") = true := by decide
  obtain ⟨halike, -⟩ := directory_alike (by decide) isVacant_fragments hnames
  have hall : ∀ e ∈ (reopened "fragments" .empty keeping).1, e.1.fits (.ofString "fragments") = true := by
    intro e he
    exact hfits e.1 (halike.complete ▸ List.mem_map_of_mem he)
  have hlog := halike.answered
  rw [List.filter_eq_self.mpr hall, List.filter_eq_self.mpr hfits] at hlog
  exact ⟨hnames, hlog.trans (by decide +kernel)⟩

/-- A name as long as the name of a file may be. With the ending of such names it is too long. -/
def longName : String := String.ofList (List.replicate 248 'A')

theorem utf8ByteSize_replicate (n : Nat) : (String.ofList (List.replicate n 'A')).utf8ByteSize = n := by
  induction n with
  | zero => rfl
  | succ n ih =>
      rw [List.replicate_succ, String.ofList_cons, String.utf8ByteSize_append, ih,
        String.utf8ByteSize_singleton]
      exact Nat.add_comm 1 n

theorem isName_longName : IsName longName := by
  refine ⟨'A', List.replicate 247 'A', String.toList_ofList, by decide, fun d hd => ?_⟩
  rw [List.eq_of_mem_replicate hd]
  decide

/-- The file of the long name fits into no directory. -/
theorem not_fits_longName (path : DiskPath) : fits path longName = false := by
  have hname : longName.utf8ByteSize = 248 := utf8ByteSize_replicate 248
  have hsuffix : fragmentSuffix.utf8ByteSize = 8 := rfl
  have hlong : ¬(longName ++ fragmentSuffix).utf8ByteSize ≤ Disk.nameLimit := by
    rw [String.utf8ByteSize_append, hname, hsuffix, Disk.nameLimit]
    omega
  exact Bool.and_eq_false_iff.mpr (.inl (decide_eq_false hlong))

/-- A store in memory keeps a text under a name of any length, and any text whatever. A directory keeps
neither a text under a name that is too long nor half of a pair. -/
theorem refused_in_directory :
    IsVacant .empty (.ofString "fragments")
      ∧ ∀ c ∈ [Call.write longName (.ofString "x"), Call.write "A" RawText.half], c.IsNamed
        ∧ (run (.ofName "") .empty [c]).1 = [(c, .written)]
        ∧ (run (.ofName "fragments") .empty [c]).1 ≠ [(c, .written)] := by
  refine ⟨isVacant_fragments, List.forall_mem_cons.mpr ⟨⟨isName_longName, rfl, fun hwritten => ?_⟩,
    List.forall_mem_singleton.mpr ⟨?_, rfl, ?_⟩⟩⟩
  · have hnames : ∀ c ∈ [Call.write longName (RawText.ofString "x")], c.IsNamed :=
      List.forall_mem_singleton.mpr isName_longName
    obtain ⟨log, disk, hrun, halike, -⟩ := isVacant_fragments.follows.run hnames
    rw [ofName_eq (by decide), hrun] at hwritten
    obtain rfl : log = _ := hwritten
    rcases halike.refused _ (List.mem_singleton_self _) (not_fits_longName _) with h | h <;> cases h
  · show IsName "A"
    decide
  · decide +kernel

end Sample

end Harvest
