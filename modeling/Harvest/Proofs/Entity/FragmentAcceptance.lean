import Harvest.Proofs.GraphQL.Reading
import Harvest.Proofs.Plan.Resolution

/-!
# Texts that are accepted as fragments

The text of a data fragment comes from a file that anyone may edit, so it can be any text. It is accepted for
a type if it is a document without operations that has a fragment on the type; definitions of the type language
may stand in it. Of its fragments one is put first, the main one, and none is lost on the way.

`IsMain` says which fragment that is. `DataFragment.parse_exact` is about all texts.

The text decides the document and the document its fragments; which of these is the main one is decided by
two searches, one for the name and one for the type. `IsMain` says what both together find, in terms of what
stands before and after the fragment, and the order of the others is part of the statement. That a document
is read from a text is the matter of the parser, for which `isText_of_spells` gives texts that are read.
-/

namespace Harvest

open GraphQL

/-! ## Taking the first entry out of a list

A search that also gives what it leaves. -/

section TakeFirst

variable {α : Type} {p : α → Bool} {x y : α} {xs ys : List α}

/-- The first entry of a kind and the other entries. -/
def takeFirst (p : α → Bool) (xs : List α) : Option (α × List α) :=
  (xs.findIdx? p).bind fun i => xs[i]?.map fun x => (x, xs.eraseIdx i)

theorem takeFirst_cons (x : α) (xs : List α) :
    takeFirst p (x :: xs)
      = if p x then some (x, xs) else (takeFirst p xs).map fun r => (r.1, x :: r.2) := by
  unfold takeFirst
  rw [List.findIdx?_cons]
  by_cases h : p x = true
  · simp [h]
  · cases hi : xs.findIdx? p with
    | none => simp [h]
    | some i => simp [h, Function.comp_def]

/-- An entry is taken out if it is the first of its kind; the others keep their order. -/
theorem takeFirst_eq_some_iff :
    takeFirst p xs = some (x, ys)
      ↔ ∃ before after, xs = before ++ x :: after ∧ ys = before ++ after ∧ p x = true
          ∧ ∀ y ∈ before, p y = false := by
  induction xs generalizing ys with
  | nil => simp [takeFirst]
  | cons z zs ih =>
      rw [takeFirst_cons]
      by_cases hz : p z = true
      · rw [if_pos hz]
        constructor
        · intro h
          cases h
          exact ⟨[], zs, rfl, rfl, hz, nofun⟩
        · rintro ⟨before, after, heq, rfl, hx, hbefore⟩
          cases before with
          | nil =>
              cases heq
              rfl
          | cons w ws =>
              -- an entry of the kind cannot stand before the first one
              cases heq
              rw [hbefore z List.mem_cons_self] at hz
              cases hz
      · rw [if_neg hz, Option.map_eq_some_iff]
        constructor
        · rintro ⟨⟨w, ws⟩, hw, h⟩
          cases h
          obtain ⟨before, after, rfl, rfl, hx, hbefore⟩ := ih.mp hw
          refine ⟨z :: before, after, rfl, rfl, hx, ?_⟩
          intro y hy
          rcases List.mem_cons.mp hy with rfl | hy
          · exact Bool.eq_false_iff.mpr hz
          · exact hbefore y hy
        · rintro ⟨before, after, heq, rfl, hx, hbefore⟩
          cases before with
          | nil =>
              cases heq
              exact absurd hx hz
          | cons w ws =>
              cases heq
              refine ⟨(x, ws ++ after), ih.mpr ⟨ws, after, rfl, rfl, hx, ?_⟩, rfl⟩
              intro y hy
              exact hbefore y (List.mem_cons_of_mem _ hy)

theorem takeFirst_eq_none_iff : takeFirst p xs = none ↔ ∀ y ∈ xs, p y = false := by
  induction xs with
  | nil => simp [takeFirst]
  | cons z zs ih =>
      rw [takeFirst_cons]
      by_cases hz : p z = true
      · simp [hz]
      · simp [hz, ih]

end TakeFirst

/-! ## Documents that are read back

Reading back changes values, and neither names nor types. -/

namespace GraphQL.Document

variable (d : Document)

/-- A document that is read back has the same operations, but for the values in them. -/
theorem operations_reread :
    Document.operations (d.map Definition.reread) = (Document.operations d).map Operation.reread := by
  unfold Document.operations
  rw [List.filterMap_map, List.map_filterMap]
  apply List.filterMap_congr
  intro x _
  cases x <;> rfl

/-- It has the same fragments, too. -/
theorem fragments_reread :
    Document.fragments (d.map Definition.reread) = (Document.fragments d).map Fragment.reread := by
  unfold Document.fragments
  rw [List.filterMap_map, List.map_filterMap]
  apply List.filterMap_congr
  intro x _
  cases x <;> rfl

end GraphQL.Document

/-! ## The main fragment

The name counts first. Only where no fragment on the type has the name, the first one on the type is taken. -/

variable {t text : String} {source : FragmentSource} {main : Fragment} {before after fs : List Fragment}

/-- Whether a fragment that stands between others is the main one for a type: the first one on the type that
is also named after it, or else the first one on the type. -/
inductive IsMain (t : String) (before : List Fragment) (main : Fragment) (after : List Fragment) : Prop
  | named (hon : main.on = t) (hname : main.name = t) (hfirst : ∀ f ∈ before, ¬ (f.on = t ∧ f.name = t))
  | first (hon : main.on = t) (hnone : ∀ f ∈ before ++ main :: after, ¬ (f.on = t ∧ f.name = t))
      (hfirst : ∀ f ∈ before, f.on ≠ t)

namespace DataFragment

theorem split?_eq (t : String) (fs : List Fragment) :
    split? t fs
      = (takeFirst (fun f => f.on == t && f.name == t) fs).or (takeFirst (fun f => f.on == t) fs) := by
  unfold split? takeFirst
  dsimp only
  cases fs.findIdx? fun f => f.on == t && f.name == t <;> cases fs.findIdx? fun f => f.on == t <;> rfl

/-- **The main fragment is put first**, and the others follow it in their order. -/
theorem split?_eq_some_iff {others : List Fragment} :
    split? t fs = some (main, others)
      ↔ ∃ before after, fs = before ++ main :: after ∧ others = before ++ after ∧ IsMain t before main after := by
  rw [split?_eq, Option.or_eq_some_iff, takeFirst_eq_some_iff, takeFirst_eq_none_iff, takeFirst_eq_some_iff]
  simp only [Bool.and_eq_true, beq_iff_eq, Bool.and_eq_false_iff, beq_eq_false_iff_ne, ne_eq, ← not_and_or]
  constructor
  · rintro (⟨before, after, rfl, rfl, ⟨hon, hname⟩, hfirst⟩ | ⟨hnone, before, after, rfl, rfl, hon, hfirst⟩)
    · exact ⟨before, after, rfl, rfl, .named hon hname hfirst⟩
    · exact ⟨before, after, rfl, rfl, .first hon hnone hfirst⟩
  · rintro ⟨before, after, rfl, rfl, hmain⟩
    cases hmain with
    | named hon hname hfirst => exact .inl ⟨before, after, rfl, rfl, ⟨hon, hname⟩, hfirst⟩
    | first hon hnone hfirst => exact .inr ⟨hnone, before, after, rfl, rfl, hon, hfirst⟩

/-- There is a main fragment for a type exactly if there is any on it. -/
theorem exists_split?_iff : (∃ main others, split? t fs = some (main, others)) ↔ ∃ f ∈ fs, f.on = t := by
  constructor
  · rintro ⟨main, others, h⟩
    exact ⟨main, split?_on h⟩
  · rintro ⟨f, hf, hon⟩
    cases h : split? t fs with
    | some r => exact ⟨r.1, r.2, rfl⟩
    | none =>
        rw [split?_eq, Option.or_eq_none_iff] at h
        have hnone := takeFirst_eq_none_iff.mp h.2 f hf
        simp [hon] at hnone

/-! ## Acceptance

From the fragments of a document to what is kept of a text. -/

/-- Whether a data fragment holds the fragments of a list for a type, with the main one first. -/
structure Holds (f : DataFragment) (t : String) (fs : List Fragment) : Prop where
  typeName : f.typeName = t
  arranged : ∃ before main after, fs = before ++ main :: after ∧ IsMain t before main after
    ∧ f.name = main.name ∧ f.definitions = main :: (before ++ after)

theorem parse_eq_ok_iff {f : DataFragment} :
    parse t text source = .ok f
      ↔ ∃ d, Document.parse text = .ok d ∧ Document.operations d = [] ∧ f.Holds t (Document.fragments d)
          ∧ f.text = text ∧ f.source = source := by
  unfold parse
  cases hd : Document.parse text with
  | error e => simp
  | ok d =>
      simp only [Except.ok.injEq, exists_eq_left']
      unfold ofDocument
      by_cases hops : Document.operations d = []
      · simp only [hops, List.isEmpty_nil, Bool.not_true, Bool.false_eq_true, if_false, true_and]
        constructor
        · intro h
          split at h
          next => cases h
          next main others hs =>
            cases h
            obtain ⟨before, after, heq, rfl, hmain⟩ := split?_eq_some_iff.mp hs
            exact ⟨⟨rfl, before, main, after, heq, hmain, rfl, rfl⟩, rfl, rfl⟩
        · rintro ⟨⟨htype, before, main, after, heq, hmain, hname, hdefs⟩, htext, hsource⟩
          rw [split?_eq_some_iff.mpr ⟨before, after, heq, rfl, hmain⟩]
          cases f
          subst htype hname hdefs htext hsource
          rfl
      · simp [hops]

/-- A data fragment holds each fragment as often as the list does. -/
theorem Holds.perm {f : DataFragment} (h : f.Holds t fs) : f.definitions.Perm fs := by
  obtain ⟨before, main, after, rfl, -, -, hdefs⟩ := h.arranged
  rw [hdefs]
  exact List.perm_middle.symm

/-- There is a data fragment with given fragments exactly if one of them is on the type. -/
theorem exists_holds_iff :
    (∃ f : DataFragment, f.Holds t fs ∧ f.text = text ∧ f.source = source) ↔ ∃ f ∈ fs, f.on = t := by
  rw [← exists_split?_iff]
  constructor
  · rintro ⟨f, ⟨-, before, main, after, heq, hmain, -, -⟩, -, -⟩
    exact ⟨main, before ++ after, split?_eq_some_iff.mpr ⟨before, after, heq, rfl, hmain⟩⟩
  · rintro ⟨main, others, h⟩
    obtain ⟨before, after, heq, -, hmain⟩ := split?_eq_some_iff.mp h
    exact ⟨⟨t, main.name, main :: (before ++ after), text, source⟩,
      ⟨rfl, before, main, after, heq, hmain, rfl, rfl⟩, rfl, rfl⟩

/-- Whether a text has the form of a fragment for a type: a document without operations, one of whose
fragments is on the type. -/
def IsText (t text : String) : Prop :=
  ∃ d, Document.parse text = .ok d ∧ Document.operations d = [] ∧ ∃ f ∈ Document.fragments d, f.on = t

theorem exists_parse_iff : (∃ f, parse t text source = .ok f) ↔ IsText t text := by
  constructor
  · rintro ⟨f, h⟩
    obtain ⟨d, hd, hops, hholds⟩ := parse_eq_ok_iff.mp h
    exact ⟨d, hd, hops, exists_holds_iff.mp ⟨f, hholds⟩⟩
  · rintro ⟨d, hd, hops, hon⟩
    obtain ⟨f, hf⟩ := exists_holds_iff.mpr hon
    exact ⟨f, parse_eq_ok_iff.mpr ⟨d, hd, hops, hf⟩⟩

/-- **A text is accepted exactly if it has the form of a fragment**, with all its fragments and the main one
first. Any other text is a failure of the type. -/
theorem parse_exact (t text : String) (source : FragmentSource) :
    (IsText t text ∧ ∃ f d, parse t text source = .ok f ∧ Document.parse text = .ok d
        ∧ f.Holds t (Document.fragments d) ∧ f.definitions.Perm (Document.fragments d)
        ∧ f.text = text ∧ f.source = source)
      ∨ (¬ IsText t text ∧ ∃ problem, parse t text source = .error (.fragment t problem)) := by
  by_cases htext : IsText t text
  · left
    refine ⟨htext, ?_⟩
    obtain ⟨f, hf⟩ := exists_parse_iff.mpr htext
    obtain ⟨d, hd, -, hholds, hkept⟩ := parse_eq_ok_iff.mp hf
    exact ⟨f, d, hf, hd, hholds, hholds.perm, hkept⟩
  · right
    refine ⟨htext, ?_⟩
    cases h : parse t text source with
    | ok f => exact absurd (exists_parse_iff.mp ⟨f, h⟩) htext
    | error e =>
        obtain ⟨problem, rfl⟩ := parse_error h
        exact ⟨problem, rfl⟩

/-- A text that spells a document has the form of a fragment if the document has it, however the text is laid
out. -/
theorem isText_of_spells {P : Literal → Prop} {d : Document} (hP : ∀ l, P l → l.IsWritable) (hne : d ≠ [])
    (h : ∀ x ∈ d, x.IsWritable P) (hd : ∀ x ∈ d, Parser.IsReadable x)
    (htext : Token.Spells d.tokens text.toList) :
    IsText t text ↔ Document.operations d = [] ∧ ∃ f ∈ Document.fragments d, f.on = t := by
  unfold IsText
  rw [Document.parse_of_spells hP hne h hd htext]
  simp only [Except.ok.injEq, exists_eq_left', Document.operations_reread, Document.fragments_reread,
    List.map_eq_nil_iff, List.mem_map, exists_exists_and_eq_and]
  rfl

end DataFragment

/-! ## A text with more than one fragment -/

namespace Sample

/-- A text in which two fragments share a name and the main one stands between others. -/
def articleText : String :=
  "type Article \x7b id: ID \x7d\n"
    ++ "fragment Teaser on Article \x7b title \x7d\n"
    ++ "fragment Article on Article \x7b ...Teaser \x7d\n"
    ++ "fragment Teaser on Page \x7b label \x7d"

/-- The main fragment is taken from between the others, and both fragments of one name are kept. -/
theorem article_text_accepted :
    DataFragment.IsText "Article" articleText
      ∧ ∃ f, DataFragment.parse "Article" articleText .custom = .ok f
          ∧ f.definitions.map (fun g => (g.name, g.on))
              = [("Article", "Article"), ("Teaser", "Article"), ("Teaser", "Page")] := by
  have hrun : (DataFragment.parse "Article" articleText .custom).toOption.map
      (fun f => f.definitions.map fun g => (g.name, g.on))
        = some [("Article", "Article"), ("Teaser", "Article"), ("Teaser", "Page")] := by
    decide +kernel
  rcases DataFragment.parse_exact "Article" articleText .custom with ⟨htext, f, d, hf, -⟩ | ⟨-, problem, herror⟩
  · rw [hf] at hrun
    exact ⟨htext, f, hf, Option.some.inj hrun⟩
  · rw [herror] at hrun
    cases hrun

end Sample

end Harvest
