import Harvest.Config.File
import Harvest.Proofs.Config.Settings
import Harvest.Proofs.Data.Rendering
import Harvest.Proofs.Data.Values
import Harvest.Proofs.GraphQL.LineEnds
import Harvest.Proofs.Storage.Places

/-!
# Saving a configuration

A configuration is saved as an object of all its settings. `Config.ofMembers_toMembers` says that it is the
configuration that this object is read as, and `Config.load_save` that loading gives it back: the file holds
what was written, as there is one kind of line end in it. What YAML itself keeps is taken as it is.

There are three steps from a configuration to a configuration: to an object, to a text in a file, and back
through both. The first is undone setting by setting. The second is undone by the disk, because the text
that is written has no carriage return. Between text and object stands YAML, whose round trip is an
assumption of the last theorem.
-/

namespace Harvest

/-- A text without carriage returns is read from a file as it was written. -/
theorem Disk.unifyLineEnds_of_notMem {cs : List Char} (h : '\r' ∉ cs) : unifyLineEnds cs = cs := by
  induction cs with
  | nil => rw [unifyLineEnds]
  | cons c cs ih =>
      obtain ⟨hc, hcs⟩ := not_or.mp (mt List.mem_cons.mpr h)
      rw [GraphQL.Token.unify_cons (Ne.symm hc), ih hcs]

/-- What is written to a file that is no directory can be read from it, whatever it held before. -/
theorem Disk.read_write {d : Disk} {p place : DiskPath} (hplace : d.locate p = .ok place)
    (hfile : d.isDirectory place = false) (text : String) :
    ∃ d', d.write p text = .ok d' ∧ d'.pathExists p = .ok true
      ∧ d'.read p = .ok (String.ofList (unifyLineEnds text.toList)) := by
  have htext : (d.set place text).text? place = some text := by rw [text?_set, if_pos rfl]
  refine ⟨d.set place text, write_of_locate hplace hfile text, ?_,
    read_of_locate (locate_set place text hplace) hfile htext⟩
  rw [pathExists_of_locate (locate_set place text hplace), htext]
  rfl

namespace Config

variable {c : Config}

/-- The languages of a configuration are texts, which are kept as they are. -/
theorem languagesOf_texts (languages : List String) :
    languagesOf (.list (languages.map .str)) = .ok languages := by
  have hdisplay : (languages.map Value.str).map Value.display = languages := by
    rw [List.map_map]
    exact List.map_id languages
  exact congrArg Except.ok hdisplay

theorem objectOf_object (ms : Members) : objectOf (.object ms) = .ok ms := by
  rw [objectOf]
  cases ms <;> rfl

/-- **A configuration is read from the object of its settings**, setting by setting. -/
theorem ofMembers_toMembers (c : Config) : ofMembers c.toMembers = .ok c :=
  ofMembers_ok_iff.mpr {
    url := rfl
    languages := languagesOf_texts c.languages
    typePrefix := rfl
    fragmentsDir := rfl
    debugDir := rfl
    headers := objectOf_object c.headers
    timeout := rfl
    concurrency := rfl
    pageSize := rfl
    fragmentDepth := rfl
    filters := objectOf_object c.filters }

/-- **Loading gives back what was saved.** Let a configuration be saved to a file, whatever the file held
before, in a directory that is there. Where YAML reads the rendered settings as they were, the
configuration that is loaded is the same in every setting, and it is accepted or refused alike. -/
theorem load_save {disk : Disk} {path : String} {place : DiskPath}
    (hplace : disk.locate (.ofString path) = .ok place) (hfile : disk.isDirectory place = false)
    (hyaml : Yaml.parse (Yaml.render c.toMembers) = .ok (.object c.toMembers)) :
    ∃ disk' loaded, c.save disk path = .ok disk' ∧ load disk' path = .ok (some loaded)
      ∧ loaded = c ∧ loaded.check = c.check := by
  obtain ⟨disk', hwrite, hexists, hread⟩ := Disk.read_write hplace hfile (Yaml.render c.toMembers)
  -- reading unifies line ends, which would change a text with carriage returns
  rw [Disk.unifyLineEnds_of_notMem (Yaml.render_ordinary c.toMembers).no_return,
    String.ofList_toList] at hread
  have htext : ofText (.ofString path) (Yaml.render c.toMembers) = .ok c := by
    rw [ofText, hyaml]
    show orFault (ofMembers c.toMembers) = .ok c
    rw [ofMembers_toMembers]
    rfl
  refine ⟨disk', c, ?_, ?_, rfl, rfl⟩
  · rw [save, hwrite]
    rfl
  · rw [load, hexists]
    show (do
      let text ← orFault (disk'.read (.ofString path))
      return some (← ofText (.ofString path) text)) = .ok (some c)
    rw [hread]
    show (do return some (← ofText (.ofString path) (Yaml.render c.toMembers))) = .ok (some c)
    rw [htext]
    rfl

end Config

/-! ## A configuration that is saved over another one -/

namespace Sample

/-- Settings as they may be written: a single language, numbers that are texts, and one that is none. -/
def writtenSettings : Members :=
  [(.str "url", .str "http://a"), (.str "languages", .str "NO"),
    (.str "timeout", .str "nan"), (.str "concurrency", .str "3"), (.str "headers", .null),
    (.str "filters", .object [(.str "N", .list [.str "1", .bool true])])]

/-- The configuration that they stand for. -/
def writtenConfig : Config :=
  { Config.standard with
    url := .str "http://a", languages := ["NO"], timeout := .nan, concurrency := 3
    filters := [(.str "N", .list [.str "1", .bool true])] }

/-- A disk with a file of settings in a directory. -/
def settingsDisk : Disk :=
  ⟨[(⟨false, ["conf", "graphsource.yaml"]⟩, "url: old\r\n")], [⟨false, ["conf"]⟩]⟩

/-- YAML keeps the settings: the language is no truth value, and the time is not a number. -/
theorem parse_render_written :
    Yaml.parse (Yaml.render writtenConfig.toMembers) = .ok (.object writtenConfig.toMembers) :=
  eq_ok_of_toOption (by decide +kernel)

theorem locate_settings :
    settingsDisk.locate (.ofString "conf/graphsource.yaml")
      = .ok ⟨false, ["conf", "graphsource.yaml"]⟩ :=
  eq_ok_of_toOption (by decide +kernel)

/-- The settings are read, saved over the file and loaded again. -/
theorem written_settings_kept :
    Config.ofMembers writtenSettings = .ok writtenConfig
      ∧ ∃ disk' loaded, writtenConfig.save settingsDisk "conf/graphsource.yaml" = .ok disk'
        ∧ Config.load disk' "conf/graphsource.yaml" = .ok (some loaded)
        ∧ loaded = writtenConfig ∧ loaded.check = writtenConfig.check :=
  ⟨rfl, Config.load_save locate_settings (by decide) parse_render_written⟩

end Sample

end Harvest
