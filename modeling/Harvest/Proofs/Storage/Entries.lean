import Harvest.Proofs.GraphQL.Names
import Harvest.Proofs.Storage.Places
import Harvest.Storage.FragmentStore

/-!
# Entries of fragment stores

A fragment store has an entry for a type if it holds a text under the name of the type: in memory the
text itself, in a directory the file of the type straight in it. `entryOf_write` says that writing an
entry leaves the others alone, and `read_eq` that what can be read is what is there.

Reading supposes that the store is accessible: its directory can be entered, or no file is in it. A path
such as `build/..` leads to no place at all before `build` is made, although the files of the
directory that it names may be there.

The entry of a type in a directory is the text at a place, which is there or not regardless of whether the
directory can be entered. Reading goes by a path, and writing makes directories first. Both agree with the
entry as long as the directory can be entered or has no file; these are the stores that `IsAccessible`
admits.
-/

namespace Harvest

open GraphQL

namespace FragmentStore

variable {store store' : FragmentStore} {disk disk' : Disk} {path : DiskPath}
  {typeName other text : String}

/-- The place of the file that a directory has for a type: straight in it. -/
def entryPlace (path : DiskPath) (typeName : String) : DiskPath :=
  path.place.enter (typeName ++ fragmentSuffix)

/-- The text that a store has for a type. -/
def entryOf (store : FragmentStore) (disk : Disk) (typeName : String) : Option String :=
  match store with
  | .memory texts => texts.get? typeName
  | .directory path => disk.text? (entryPlace path typeName)

/-- What is read of a text that a store keeps: a file gives it with all line ends unified. -/
def readBack (store : FragmentStore) (text : String) : String :=
  match store with
  | .memory _ => text
  | .directory _ => String.ofList (Disk.unifyLineEnds text.toList)

/-- Whether the directory of a store, if it has one, can be entered, or no file is in it. -/
def IsAccessible (store : FragmentStore) (disk : Disk) : Prop :=
  match store with
  | .memory _ => True
  | .directory path => disk.Enters path ∨ ∀ typeName, disk.text? (entryPlace path typeName) = none

/-! ## Places of entries

A proper name is that of no directory, and with its ending it is the name of one file, straight in the
directory of the store. -/

theorem entryName_ne (typeName text : String) (h : text.length ≤ 2) :
    typeName ++ fragmentSuffix ≠ text := by
  rintro rfl
  rw [String.length_append] at h
  have : fragmentSuffix.length = 8 := rfl
  omega

theorem entryPlace_eq (path : DiskPath) (typeName : String) :
    entryPlace path typeName
      = { path.place with names := path.place.names ++ [typeName ++ fragmentSuffix] } :=
  if_pos (entryName_ne typeName DiskPath.upward (by decide))

/-- Different types have different files. -/
theorem entryPlace_inj (h : entryPlace path typeName = entryPlace path other) : typeName = other := by
  rw [entryPlace_eq, entryPlace_eq] at h
  have hname := congrArg String.toList
    (List.singleton_inj.mp (List.append_cancel_left (congrArg DiskPath.names h)))
  rw [String.toList_append, String.toList_append] at hname
  exact String.toList_inj.mp (List.append_cancel_right hname)

theorem mem_entryName {c : Char} (h : IsName typeName) (hc : c ∈ (typeName ++ fragmentSuffix).toList) :
    isNameContinue c = true ∨ c = '.' := by
  rw [String.toList_append, List.mem_append] at hc
  rcases hc with hc | hc
  · exact .inl (h.isNameContinue hc)
  · have hsuffix :
        fragmentSuffix.toList.all (fun c => isNameContinue c || decide (c = '.')) = true := rfl
    have hall := List.all_eq_true.mp hsuffix c hc
    rwa [Bool.or_eq_true, decide_eq_true_eq] at hall

/-- The file of a type with a proper name is straight in the directory. -/
theorem file_eq (path : DiskPath) (h : IsName typeName) :
    file path typeName = path.below (typeName ++ fragmentSuffix) := by
  have hslash : '/' ∉ (typeName ++ fragmentSuffix).toList := fun hc =>
    (mem_entryName h hc).elim nofun nofun
  have he := DiskPath.ofString_of_notMem hslash (entryName_ne typeName "" (by decide))
    (entryName_ne typeName "." (by decide))
  rw [file, DiskPath.child, he]
  rfl

theorem locate_file (h : IsName typeName) {place : DiskPath}
    (hl : disk.locate (file path typeName) = .ok place) : place = entryPlace path typeName := by
  rw [Disk.locate_eq hl, file_eq path h]
  exact DiskPath.place_below path _

/-! ## Reading and writing

In an accessible store, what cannot be reached is not there, so that reading and looking agree. A write makes
the store accessible, if it was not. -/

/-- A file that cannot be reached is not there: either the directory can be entered, or it holds none. -/
theorem text?_of_unreached (hs : (directory path).IsAccessible disk) (h : IsName typeName) {f : Fault}
    (hl : disk.locate (file path typeName) = .error f) (hne : f ≠ .overlong) :
    disk.text? (entryPlace path typeName) = none := by
  rcases hs with henter | hnone
  · have hnull : '\x00' ∉ (typeName ++ fragmentSuffix).toList := fun hc =>
      (mem_entryName h hc).elim nofun nofun
    rw [file_eq path h] at hl
    rcases henter.locate hnull with hl' | hl'
    · cases hl.symm.trans hl'
    · cases hl.symm.trans hl'
      exact absurd rfl hne
  · exact hnone typeName

/-- What can be read is what is there. -/
theorem read_eq (hs : store.IsAccessible disk) (h : IsName typeName) {found : Option String}
    (hread : store.read disk typeName = .ok found) :
    found = (store.entryOf disk typeName).map store.readBack := by
  cases store with
  | memory texts =>
      cases hread
      exact Option.map_id'.symm
  | directory path =>
      show found = (disk.text? (entryPlace path typeName)).map _
      obtain ⟨there, hexists, hread⟩ := bind_ok hread
      unfold Disk.pathExists at hexists
      -- where the way to its place cannot be followed, an accessible store has no entry
      split at hexists
      next place hl =>
        obtain rfl := locate_file h hl
        cases hexists
        split at hread
        next =>
          cases hr : disk.read (file path typeName) with
          | error f =>
              rw [hr] at hread
              cases hread
          | ok text =>
              rw [hr] at hread
              cases hread
              obtain ⟨place, kept, hl', ht, rfl⟩ := Disk.read_ok hr
              obtain rfl := locate_file h hl'
              rw [ht]
              rfl
        next hnot =>
          cases hread
          rw [Bool.or_eq_true, not_or] at hnot
          rw [Option.isNone_iff_eq_none.mp (Option.isSome_eq_false_iff.mp (Bool.eq_false_iff.mpr hnot.1))]
          rfl
      next => cases hexists
      next f hne hl =>
        cases hexists
        cases hread
        rw [text?_of_unreached hs h hl hne]
        rfl

/-- **Writing an entry leaves the others alone.** -/
theorem entryOf_write (h : IsName typeName)
    (hw : store.write disk typeName text = (.ok store', disk')) :
    store'.IsAccessible disk' ∧ ∀ u, store'.entryOf disk' u
      = if u = typeName then some text else store.entryOf disk u := by
  cases store with
  | memory texts =>
      cases hw
      exact ⟨trivial, fun u => Keyed.get?_insert ..⟩
  | directory path =>
      rw [write] at hw
      split at hw
      next => cases hw
      next d₁ hmade =>
        split at hw
        next d₂ hwritten =>
          cases hw
          -- making the directory changes no file, so only the place of the entry has a new text
          obtain ⟨place, hl, hl', htext⟩ := Disk.write_ok hwritten
          obtain rfl := locate_file h hl
          rw [file_eq path h] at hl'
          refine ⟨.inl ⟨_, _, hl'⟩, fun u => ?_⟩
          show disk'.text? (entryPlace path u)
            = if u = typeName then _ else disk.text? (entryPlace path u)
          rw [htext, FileText.kept_string]
          have hsame : d₁.text? (entryPlace path u) = disk.text? (entryPlace path u) := by
            rw [← Disk.text?_makeDirectories disk path, hmade]
          by_cases hu : u = typeName
          · rw [if_pos hu, if_pos (congrArg _ hu)]
          · rw [if_neg hu, if_neg fun he => hu (entryPlace_inj he), hsame]
        next => cases hw

theorem readBack_write (hw : store.write disk typeName text = (.ok store', disk')) :
    store'.readBack = store.readBack := by
  cases store with
  | memory texts =>
      cases hw
      rfl
  | directory path =>
      rw [write] at hw
      split at hw
      next => cases hw
      next =>
        split at hw
        next =>
          cases hw
          rfl
        next => cases hw

/-- A text that could not be written changes nothing; this happens only in a directory. -/
theorem entryOf_write_error {f : Fault} (hw : store.write disk typeName text = (.error f, disk')) :
    (∃ path, store = .directory path) ∧ ∀ u, store.entryOf disk' u = store.entryOf disk u := by
  cases store with
  | memory texts => cases hw
  | directory path =>
      have hsame (u : String) : (disk.makeDirectories path).2.text? (entryPlace path u)
          = disk.text? (entryPlace path u) := Disk.text?_makeDirectories disk path _
      refine ⟨⟨path, rfl⟩, fun u => ?_⟩
      rw [write] at hw
      split at hw
      next d₁ hmade =>
        cases hw
        rw [hmade] at hsame
        exact hsame u
      next d₁ hmade =>
        split at hw
        next => cases hw
        next =>
          cases hw
          rw [hmade] at hsame
          exact hsame u

end FragmentStore

end Harvest
