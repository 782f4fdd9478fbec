import Harvest.Entity.DataFragment
import Harvest.Entity.Listing
import Harvest.Proofs.Entity.DefaultFragments
import Harvest.Proofs.Entity.Discovery
import Harvest.Proofs.GraphQL.Reading

/-!
# Texts of default fragments

A default fragment is put together from bare fields, so nothing is lost when its text is read: the data
fragment that comes of it is the fragment that was written. There is one type that no text holds a fragment
for, the one that is named as the keyword before the type of a fragment.

Bare selections have names in them and nothing else, so they can be written as soon as the names are proper,
they are read back as they are, and `Document.parse_of_spells` applies. A text with one definition is then
taken for the data fragment of its type.
-/

namespace Harvest

open GraphQL GraphQL.Schema

/-! ## Bare selections

Nothing is said here about where the selections come from. -/

/-- Whether a selection consists of fields only, without aliases, arguments and directives. -/
inductive GraphQL.Selection.IsBare : Selection → Prop
  | plain {n : String} {xs : List Selection} (hn : IsName n) (hxs : ∀ x ∈ xs, IsBare x) :
      IsBare (.field none n [] [] xs)

theorem GraphQL.Selection.IsBare.isNamed {x : Selection} (h : x.IsBare) : x.IsNamed := by
  induction h with
  | plain hn hxs ih => exact .field hn ih

/-- A bare selection holds no values, so it can be written whatever is asked of them. -/
theorem GraphQL.Selection.IsBare.isWritable {P : Literal → Prop} {x : Selection} (h : x.IsBare) :
    x.IsWritable P := by
  induction h with
  | plain hn hxs ih => exact .field nofun hn nofun nofun ih

theorem GraphQL.Selection.IsBare.reread {x : Selection} (h : x.IsBare) : x.reread = x := by
  induction h with
  | @plain n xs hn hxs ih =>
      rw [Selection.reread, rereadAll_eq, List.map_congr_left ih, List.map_id']
      rfl

theorem reread_of_bare {xs : List Selection} (h : ∀ x ∈ xs, x.IsBare) : xs.map Selection.reread = xs := by
  rw [List.map_congr_left fun x hx => (h x hx).reread, List.map_id']

/-- What identifies an entity is selected by bare selections. -/
theorem Listing.identityFragment_bare (typeName : String) :
    ∀ x ∈ (identityFragment typeName).selections, x.IsBare := by
  have hleaf {n : String} (hn : IsName n) : (Selection.plain n []).IsBare := .plain hn nofun
  refine List.forall_mem_cons.mpr ⟨hleaf (by decide +kernel), List.forall_mem_cons.mpr
    ⟨hleaf (by decide +kernel), List.forall_mem_singleton.mpr ?_⟩⟩
  exact .plain (by decide +kernel) (List.forall_mem_singleton.mpr (hleaf (by decide +kernel)))

/-! ## Bare fragments

Nothing in a bare fragment can change when it is read back, and so the text of one holds it. -/

/-- Whether a fragment consists of bare selections and nothing else. -/
structure GraphQL.Fragment.IsBare (f : Fragment) : Prop where
  description : f.description = none
  name : IsName f.name
  on : IsName f.on
  directives : f.directives = []
  selects : f.selections ≠ []
  selections : ∀ x ∈ f.selections, x.IsBare

namespace GraphQL.Fragment.IsBare

variable {P : Literal → Prop} {f : Fragment}

theorem isWritable (h : f.IsBare) : f.IsWritable P where
  description := h.description
  name := h.name
  on := h.on
  directives := by
    rw [h.directives]
    nofun
  selects := h.selects
  selections := fun x hx => (h.selections x hx).isWritable

theorem reread (h : f.IsBare) : f.reread = f := by
  rw [Fragment.reread, h.directives, reread_of_bare h.selections, List.map_nil, ← h.directives]

/-- From a text that spells a fragment the fragment is read, unless it goes by the one name that none may
have. -/
theorem parse_of_spells (h : f.IsBare) (hon : f.name ≠ "on") {text : String}
    (htext : Token.Spells f.tokens text.toList) : Document.parse text = .ok [.fragment f] := by
  have hwritable : ∀ x ∈ [Definition.fragment f], x.IsWritable Literal.IsWritable := by
    intro x hx
    cases List.mem_singleton.mp hx
    exact h.isWritable
  have hreadable : ∀ x ∈ [Definition.fragment f], Parser.IsReadable x := by
    intro x hx g hg
    cases List.mem_singleton.mp hx
    cases hg
    exact hon
  have hspells : Token.Spells (Document.tokens [.fragment f]) text.toList := by
    rw [Document.tokens, List.flatMap_singleton]
    exact htext
  have hreread : [Definition.fragment f].map Definition.reread = [.fragment f] :=
    congrArg (fun g => [Definition.fragment g]) h.reread
  rw [Document.parse_of_spells (fun _ hl => hl) (List.cons_ne_nil _ _) hwritable hreadable hspells,
    hreread]

/-- What is read from a text that spells a fragment, if anything is. -/
theorem parse_eq (h : f.IsBare) {text : String} (htext : Token.Spells f.tokens text.toList) {d : Document}
    (hd : Document.parse text = .ok d) : f.name ≠ "on" ∧ d = [.fragment f] := by
  have hon : f.name ≠ "on" := by
    intro hname
    obtain ⟨e, he⟩ := Document.parse_of_name_on hname htext
    cases he.symm.trans hd
  exact ⟨hon, Except.ok.inj (hd.symm.trans (h.parse_of_spells hon htext))⟩

/-- A line end after a fragment changes nothing. -/
theorem spells_line (h : f.IsBare) : Token.Spells f.tokens (f.print ++ "\n").toList := by
  rw [String.toList_append]
  exact (h.isWritable.spells fun _ hl => hl).append_blank (by decide)

end GraphQL.Fragment.IsBare

/-! ## Default fragments

The names in a default fragment come from a schema whose names were checked. -/

namespace DefaultFragment

variable {s : Schema} {sourced : List String} {depth : Nat} {t : TypeDef} {xs : List Selection}

theorem bare_of_chosen {f : Field} {x : Selection} (hf : IsName f.name)
    (inner : ∀ d, depth = d + 1 → ∀ b ∈ s.types, ∀ ys, selections s sourced d b = .ok ys → ∀ y ∈ ys, y.IsBare)
    (h : Chosen s sourced f depth x) : x.IsBare := by
  have htypeName : (Selection.plain "__typename" []).IsBare := .plain (by decide +kernel) nofun
  cases h with
  | leaf => exact .plain hf nofun
  | reference =>
      refine .plain hf fun y hy => ?_
      rcases mem_identity.mp hy with rfl | ⟨rfl, -⟩
      · exact htypeName
      · exact .plain (by decide +kernel) nofun
  | union =>
      refine .plain hf fun y hy => ?_
      cases List.mem_singleton.mp hy
      exact htypeName
  | nested hb hl hm hu hys => exact .plain hf (inner _ rfl _ (mem_of_type? hb) _ hys)

/-- What is selected of a type is bare. -/
theorem bare_of_selections (hs : s.WellNamed) (ht : t ∈ s.types) (h : selections s sourced depth t = .ok xs) :
    ∀ x ∈ xs, x.IsBare := by
  induction depth generalizing t xs with
  | zero =>
      intro x hx
      obtain ⟨f, hf, -, hx⟩ := (mem_selections h).mp hx
      exact bare_of_chosen ((hs t ht).fields f hf).name (fun d hd => absurd hd (Nat.zero_ne_add_one d)) hx
  | succ depth ih =>
      intro x hx
      obtain ⟨f, hf, -, hx⟩ := (mem_selections h).mp hx
      refine bare_of_chosen ((hs t ht).fields f hf).name (fun d hd b hb ys hys => ?_) hx
      cases hd
      exact ih hb hys

/-- A default fragment selects something of an object, and there is nothing else in it. -/
theorem make_ok {maxDepth : Int} {n : String} {f : Fragment} (h : make s sourced maxDepth n = .ok f) :
    ∃ t xs, s.type? n = some t ∧ t.isObject = true ∧ selections s sourced maxDepth.toNat t = .ok xs
      ∧ xs ≠ [] ∧ f = ⟨none, n, n, [], xs⟩ := by
  unfold make at h
  split at h
  next m is fs ht =>
    obtain ⟨xs, hxs, h⟩ := bind_ok h
    split at h
    next => cases h
    next hne =>
      cases h
      exact ⟨.object m is fs, xs, ht, rfl, hxs, hne, rfl⟩
  next => cases h

/-- The default fragment of a type is bare and goes by the name of the type. -/
theorem make_bare (hs : s.WellNamed) {maxDepth : Int} {n : String} {f : Fragment}
    (h : make s sourced maxDepth n = .ok f) : f.name = n ∧ f.on = n ∧ f.IsBare := by
  obtain ⟨t, xs, ht, -, hxs, hne, rfl⟩ := make_ok h
  have hmem := mem_of_type? ht
  have hname : IsName n := type?_name ht ▸ (hs t hmem).name
  exact ⟨rfl, rfl, rfl, hname, hname, rfl, hne, bare_of_selections hs hmem hxs⟩

end DefaultFragment

/-- A document with nothing but a fragment of a type has it for the data fragment of the type. -/
theorem DataFragment.ofDocument_fragment {n text : String} {source : FragmentSource} {f : Fragment}
    (hname : f.name = n) (hon : f.on = n) :
    ofDocument n text source [.fragment f] = .ok ⟨n, n, [f], text, source⟩ := by
  have hsplit : split? n (Document.fragments [.fragment f]) = some (f, []) := by
    simp [split?, Document.fragments, Definition.fragment?, hname, hon]
  subst hname
  unfold ofDocument
  rw [hsplit]
  rfl

/-- **The data fragment of a default fragment's text is the fragment that was written.** -/
theorem DataFragment.parse_text {s : Schema} (hs : s.WellNamed) {sourced : List String} {maxDepth : Int}
    {n text : String} {source : FragmentSource} {g : DataFragment}
    (htext : DefaultFragment.text s sourced maxDepth n = .ok text) (hg : parse n text source = .ok g) :
    ∃ f, DefaultFragment.make s sourced maxDepth n = .ok f ∧ f.IsBare ∧ f.name ≠ "on"
      ∧ g.name = f.name ∧ g.definitions = [f] := by
  obtain ⟨f, hf, htext⟩ := bind_ok htext
  cases htext
  obtain ⟨hname, hon, hbare⟩ := DefaultFragment.make_bare hs hf
  unfold parse at hg
  split at hg
  next d hd =>
    obtain ⟨hne, rfl⟩ := hbare.parse_eq hbare.spells_line hd
    cases (ofDocument_fragment hname hon).symm.trans hg
    exact ⟨f, hf, hbare, hne, hname.symm, rfl⟩
  next => cases hg

end Harvest
