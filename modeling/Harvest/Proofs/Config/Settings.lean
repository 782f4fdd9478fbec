import Harvest.Proofs.Data.Json
import Harvest.Proofs.Plan.Coherence

/-!
# Settings that are null

A configuration is read from an object setting by setting. `Config.Reads` says what each setting comes
from, so that two objects can be compared setting by setting. A setting that is null is not always the
default: `Config.null_outcome` tells for which keys it is, which keys are refused, and what becomes of
the names of node types.

An object with one more member, null, is compared with the object as it was. Most settings are read by a
function that treats null as absence, so they keep their value. Numbers are not: null is refused for them.
And the prefix keeps whatever it is given, so that null ends up in the names of node types.
-/

namespace Harvest

namespace Members

variable {before after : Members} {key : String}

/-- A member that is added anywhere is found under its key, and nothing else changes. -/
theorem field?_add (habsent : field? (before ++ after) key = none) (v : Value) (k : String) :
    field? (before ++ (.str key, v) :: after) k
      = if k = key then some v else field? (before ++ after) k := by
  rw [field?, get?, Option.map_eq_none_iff, List.find?_append, Option.or_eq_none_iff] at habsent
  rw [field?, field?, get?, get?, List.find?_append, List.find?_append]
  by_cases hk : k = key
  · subst hk
    have hself : Atom.sameKey (.str k) (.str k) = true := (Json.sameKey_str _ k).mpr rfl
    rw [if_pos rfl, habsent.1, Option.none_or, List.find?_cons, hself]
    rfl
  · have hother : Atom.sameKey (.str key) (.str k) = false := Bool.eq_false_iff.mpr fun h =>
      hk (Atom.str.inj ((Json.sameKey_str _ k).mp h)).symm
    rw [if_neg hk, List.find?_cons, hother]

/-- What is null reads as what is absent, unless it is asked for whether it is there. -/
theorem field_add_null (habsent : field? (before ++ after) key = none) (k : String) :
    field (before ++ (.str key, .null) :: after) k = field (before ++ after) k := by
  rw [field, field, field?_add habsent]
  split
  next hk => rw [hk, habsent]; rfl
  next => rfl

end Members

namespace Config

/-! ## What the settings are read from

One field of the structure for each setting, in the words of the reader. -/

/-- Whether an object gives the settings of a configuration, each from its own member. -/
structure Reads (ms : Members) (c : Config) : Prop where
  url : Members.field ms "url" = c.url
  languages : languagesOf (Members.field ms "languages") = .ok c.languages
  typePrefix : (Members.field? ms "type_prefix").getD standard.typePrefix = c.typePrefix
  fragmentsDir : Members.field ms "fragments_dir" = c.fragmentsDir
  debugDir : Members.field ms "debug_dir" = c.debugDir
  headers : objectOf (Members.field ms "headers") = .ok c.headers
  timeout : setting ms "timeout" standard.timeout Value.toDouble = .ok c.timeout
  concurrency : setting ms "concurrency" standard.concurrency Value.toInt = .ok c.concurrency
  pageSize : setting ms "page_size" standard.pageSize Value.toInt = .ok c.pageSize
  fragmentDepth : setting ms "fragment_depth" standard.fragmentDepth Value.toInt = .ok c.fragmentDepth
  filters : objectOf (Members.field ms "filters") = .ok c.filters

variable {ms : Members} {c : Config}

/-- **An object is read as the configuration whose settings it gives.** -/
theorem ofMembers_ok_iff : ofMembers ms = .ok c ↔ Reads ms c := by
  constructor
  · intro h
    obtain ⟨languages, hlanguages, h⟩ := bind_ok h
    obtain ⟨headers, hheaders, h⟩ := bind_ok h
    obtain ⟨timeout, htimeout, h⟩ := bind_ok h
    obtain ⟨concurrency, hconcurrency, h⟩ := bind_ok h
    obtain ⟨pageSize, hpageSize, h⟩ := bind_ok h
    obtain ⟨fragmentDepth, hfragmentDepth, h⟩ := bind_ok h
    obtain ⟨filters, hfilters, h⟩ := bind_ok h
    cases h
    exact ⟨rfl, hlanguages, rfl, rfl, rfl, hheaders, htimeout, hconcurrency, hpageSize,
      hfragmentDepth, hfilters⟩
  · intro h
    obtain ⟨url, languages, typePrefix, fragmentsDir, debugDir, headers, timeout, concurrency,
      pageSize, fragmentDepth, filters⟩ := c
    obtain ⟨rfl, hlanguages, rfl, rfl, rfl, hheaders, htimeout, hconcurrency, hpageSize,
      hfragmentDepth, hfilters⟩ := h
    rw [ofMembers, hlanguages, hheaders, htimeout, hconcurrency, hpageSize, hfragmentDepth, hfilters]
    rfl

/-! ## A setting that is null

The keys by what null does to them. -/

/-- The keys of the settings that are numbers. -/
def numericKeys : List String := ["timeout", "concurrency", "page_size", "fragment_depth"]

section Null

variable {before after : Members} {key : String}

/-! ### One setting more

Adding a member changes the one setting of its key. Where it is null, that setting reads as if it were absent,
unless it is read as a number or as the prefix. -/

theorem setting_add_null {α : Type} (habsent : Members.field? (before ++ after) key = none)
    (k : String) (standard : α) (read : Value → Except Fault α) :
    setting (before ++ (.str key, .null) :: after) k standard read
      = if k = key then read .null else setting (before ++ after) k standard read := by
  rw [setting, setting, Members.field?_add habsent]
  by_cases hk : k = key
  · rw [if_pos hk, if_pos hk]
  · rw [if_neg hk, if_neg hk]

/-- Null is no number: it is refused where one is expected. -/
theorem ofMembers_add_null_of_numeric (hc : ofMembers (before ++ after) = .ok c)
    (habsent : Members.field? (before ++ after) key = none) (hkey : key ∈ numericKeys) :
    ofMembers (before ++ (.str key, .null) :: after) = .error .kind := by
  have h := ofMembers_ok_iff.mp hc
  -- the settings before this one are read as they were, so that nothing else is refused first
  have hlanguages := h.languages
  have hheaders := h.headers
  rw [← Members.field_add_null habsent] at hlanguages hheaders
  rw [ofMembers, hlanguages, hheaders, setting_add_null habsent, setting_add_null habsent,
    setting_add_null habsent, setting_add_null habsent, h.timeout, h.concurrency, h.pageSize,
    h.fragmentDepth]
  simp only [numericKeys, List.mem_cons, List.not_mem_nil, or_false] at hkey
  obtain rfl | rfl | rfl | rfl := hkey <;> rfl

/-- Any other setting that is null is read as one that is absent, apart from the prefix. -/
theorem Reads.add_null (h : Reads (before ++ after) c)
    (habsent : Members.field? (before ++ after) key = none) (hkey : key ∉ numericKeys) :
    Reads (before ++ (.str key, .null) :: after)
      { c with typePrefix := if key = "type_prefix" then .null else c.typePrefix } := by
  have hfield := Members.field_add_null habsent
  have hsetting {k : String} (hk : k ∈ numericKeys) {α : Type} (standard : α)
      (read : Value → Except Fault α) :
      setting (before ++ (.str key, .null) :: after) k standard read
        = setting (before ++ after) k standard read := by
    rw [setting_add_null habsent, if_neg fun hsame : k = key => hkey (hsame ▸ hk)]
  refine ⟨?_, ?_, ?_, ?_, ?_, ?_, ?_, ?_, ?_, ?_, ?_⟩
  · exact (hfield _).trans h.url
  · exact (congrArg languagesOf (hfield _)).trans h.languages
  · rw [Members.field?_add habsent]
    by_cases hk : key = "type_prefix"
    · rw [if_pos hk.symm, if_pos hk]
      rfl
    · rw [if_neg (Ne.symm hk), if_neg hk]
      exact h.typePrefix
  · exact (hfield _).trans h.fragmentsDir
  · exact (hfield _).trans h.debugDir
  · exact (congrArg objectOf (hfield _)).trans h.headers
  · exact (hsetting (by decide) _ _).trans h.timeout
  · exact (hsetting (by decide) _ _).trans h.concurrency
  · exact (hsetting (by decide) _ _).trans h.pageSize
  · exact (hsetting (by decide) _ _).trans h.fragmentDepth
  · exact (congrArg objectOf (hfield _)).trans h.filters

end Null

end Config

/-! ## The names of node types

From the prefix of the configuration to the names in the plan. -/

/-- **Every node type of a plan is named by the prefix of the configuration and the name of its type.** -/
theorem Plan.nodeType_of_prepare {π σ : Type} {site : Site σ} {o : Order π} {st : σ} {p : Plan}
    (h : (prepare site o st).1 = .ok p) {e : NodeDefinition} (he : e ∈ p.nodes.values) :
    e.nodeType = o.config.typePrefix.display ++ e.typeName := by
  obtain ⟨s, found, -, -, -, listings, -, hc⟩ := prepare_completed h
  have hn : ((compilable (entityTypes s o.config.languages) found).map Descriptor.typeName).Nodup :=
    (distinctTypes_nodup _).sublist (List.filter_sublist.map Descriptor.typeName)
  obtain ⟨documents, -, hc⟩ := bind_ok hc
  cases hc
  obtain ⟨d, -, document, -, rfl⟩ := (NodeDefinition.mem_ofDocuments hn).mp he
  rfl

namespace Config

variable {before after : Members} {key : String} {c : Config}

/-- **What becomes of a setting that is null.** Let an object without a key be read as a configuration, and
add the key anywhere, with null as its value.

* Where a number is expected, the object is refused.
* Else it is read as the same configuration, only that a prefix that is null takes the place of the default
  one. So the configuration is the same if and only if the key is neither that of a number nor that of the
  prefix.
* In every plan for what was read, the names of the node types begin with the text `None` if the key is that
  of the prefix, and else as they did without the key. -/
theorem null_outcome (hc : ofMembers (before ++ after) = .ok c)
    (habsent : Members.field? (before ++ after) key = none) :
    (key ∈ numericKeys → ofMembers (before ++ (.str key, .null) :: after) = .error .kind)
      ∧ (key ∉ numericKeys → ofMembers (before ++ (.str key, .null) :: after)
          = .ok { c with typePrefix := if key = "type_prefix" then .null else c.typePrefix })
      ∧ (ofMembers (before ++ (.str key, .null) :: after) = .ok c ↔ key ∉ "type_prefix" :: numericKeys)
      ∧ ∀ {given : Config}, ofMembers (before ++ (.str key, .null) :: after) = .ok given →
          ∀ {π σ : Type} {site : Site σ} {o : Order π} {st : σ} {p : Plan}, o.config = given →
            (Plan.prepare site o st).1 = .ok p → ∀ e ∈ p.nodes.values,
              e.nodeType
                = (if key = "type_prefix" then "None" else c.typePrefix.display) ++ e.typeName := by
  -- the numbers are refused and every other option keeps its default, so all parts come from these two
  have hnumeric := ofMembers_add_null_of_numeric hc habsent
  have hother := fun hkey => ofMembers_ok_iff.mpr ((ofMembers_ok_iff.mp hc).add_null habsent hkey)
  refine ⟨hnumeric, hother, ⟨fun h => ?_, fun h => ?_⟩, ?_⟩
  · rw [List.mem_cons]
    rintro (rfl | hkey)
    · -- Where the prefix is absent it is the default one, which is not null.
      have hprefix := (ofMembers_ok_iff.mp hc).typePrefix
      rw [hother (by decide)] at h
      have hnull := congrArg typePrefix (Except.ok.inj h)
      rw [habsent, ← hnull] at hprefix
      cases hprefix
    · rw [hnumeric hkey] at h
      cases h
  · obtain ⟨hk, hkey⟩ := not_or.mp (mt List.mem_cons.mpr h)
    rw [hother hkey, if_neg hk]
  · intro given hgiven π σ site o st p ho hp e he
    have hkey : key ∉ numericKeys := fun hkey => by
      rw [hnumeric hkey] at hgiven
      cases hgiven
    rw [hother hkey] at hgiven
    rw [Plan.nodeType_of_prepare hp he, ho, ← Except.ok.inj hgiven]
    by_cases hk : key = "type_prefix"
    · rw [if_pos hk, if_pos hk]
      rfl
    · rw [if_neg hk, if_neg hk]

end Config

/-! ## Settings of the small remote that are null -/

namespace Sample

/-- The settings of the order, without the prefix and the time. -/
def settings : Members :=
  [(.str "url", .str "http://remote"), (.str "languages", .list [.str "EN", .str "DE"]),
    (.str "page_size", .int 2)]

theorem ofMembers_settings : Config.ofMembers (settings ++ []) = .ok order.config := rfl

/-- The order with a prefix that is null. -/
def unprefixed : Order := .ofConfig { order.config with typePrefix := .null }

/-- The plan of that order for the small remote. -/
def unprefixedPlan : Plan :=
  (Plan.prepare (answering fun _ => .data description) unprefixed ()).1.toOption.getD default

theorem nodeTypes_unprefixed :
    (Plan.prepare (answering fun _ => .data description) unprefixed ()).1.toOption.map
        (·.nodes.values.map (·.nodeType)) = some ["NoneNode", "NoneTerm"] := by
  decide +kernel

theorem prepare_unprefixed :
    (Plan.prepare (answering fun _ => .data description) unprefixed ()).1 = .ok unprefixedPlan := by
  apply eq_ok_of_isSome
  have ht := congrArg Option.isSome nodeTypes_unprefixed
  rwa [Option.isSome_map] at ht

/-- A time that is null is refused; a prefix that is null is read, and is in the name of every node type. -/
theorem null_time_and_prefix :
    Config.ofMembers (settings ++ [(.str "timeout", .null)]) = .error .kind
      ∧ Config.ofMembers (settings ++ [(.str "type_prefix", .null)]) = .ok unprefixed.config
      ∧ unprefixed.config ≠ order.config
      ∧ unprefixedPlan.nodes.values.map (·.nodeType) = ["NoneNode", "NoneTerm"]
      ∧ ∀ e ∈ unprefixedPlan.nodes.values, e.nodeType = "None" ++ e.typeName := by
  have htime : Members.field? (settings ++ []) "timeout" = none := rfl
  have hprefix : Members.field? (settings ++ []) "type_prefix" = none := rfl
  have hread := (Config.null_outcome ofMembers_settings hprefix).2.1 (by decide)
  have hnames := (Config.null_outcome ofMembers_settings hprefix).2.2.2 hread rfl prepare_unprefixed
  refine ⟨(Config.null_outcome ofMembers_settings htime).1 (by decide), hread, ?_, ?_, hnames⟩
  · exact fun h => nomatch congrArg Config.typePrefix h
  · have ht := nodeTypes_unprefixed
    rw [prepare_unprefixed] at ht
    exact Option.some.inj ht

end Sample

end Harvest
