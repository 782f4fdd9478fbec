import Harvest.Proofs.Entity.FragmentTexts
import Harvest.Proofs.GraphQL.Reprinting
import Harvest.Proofs.GraphQL.WritableLiterals
import Harvest.Proofs.Plan.Documents
import Harvest.Proofs.Storage.Memory

/-!
# Texts of compiled documents

What is sent for a type is a text, while the document that it is printed from is put together by hand.
`CompiledDocument.IsWritten` says how the two belong together: the text is read, and what is read has the same
operations, the identity fragment and the data fragment, in this order. Values may come back as others that
look the same, and a line end after an integer is lost; printing gives the same text again unless there is one.

The bridge is `Compilation.assembled`, a document as a list of definitions that depends on the type, its
languages, its filters and its data fragment alone. What compilation puts together is such a document, and
so is what is read from its printed text, with the values as they are read back
(`Compilation.assembled_reread`). Between the two stands the law of reading what was printed,
`Document.parse_of_spells`, which asks for proper names in all places. Those come from the schema, from the
languages and from the data fragment.

An integer with a line end is the only value whose text is not stable. The remote of the last section has a
filter with such a value.
-/

namespace Harvest

open GraphQL GraphQL.Schema

/-! ## Names

The names in a document come from the schema or are built from such names. -/

section Names

variable {typeName l : String}

theorem isName_identityName (h : IsName typeName) : IsName (Descriptor.identityName typeName) := by
  have hstart : IsName "_" := by decide +kernel
  exact (hstart.append fun _ => h.isNameContinue).append (List.all_eq_true.mp (by decide +kernel))

theorem identityName_ne_on : Descriptor.identityName typeName ≠ "on" := by
  intro h
  have hhead : ("_" ++ typeName ++ "Id_").toList.head? = "on".toList.head? := congrArg (·.toList.head?) h
  rw [String.toList_append, String.toList_append] at hhead
  exact absurd hhead (by simp)

/-- The name of an operation is made of the type and the language. -/
theorem isName_operationName (h : IsName typeName) (hl : IsName l) :
    IsName (Descriptor.operationName typeName l) := by
  have hstart : IsName "LIST_" := by decide +kernel
  refine IsName.append (IsName.append (hstart.append fun _ => h.isNameContinue) ?_) fun _ => hl.isNameContinue
  exact List.all_eq_true.mp (by decide +kernel)

end Names

/-- Whether all that a descriptor puts into a document has its proper form. -/
structure Descriptor.WellNamed (s : Schema) (d : Descriptor) : Prop where
  typeName : IsName d.typeName
  queryField : IsName d.queryField
  languages : ∀ l ∈ d.languages, IsName l
  variableType : ∀ n, (Listing.variableType s d.queryField n).IsProper

/-- The type of a page variable is that of the argument of the query field, and can be written. -/
theorem GraphQL.Schema.Legible.isProper_variableType {s : Schema} (hs : s.Legible) (queryField n : String) :
    (Listing.variableType s queryField n).IsProper := by
  unfold Listing.variableType
  split
  next arg harg =>
    obtain ⟨f, hf, harg⟩ := Option.bind_eq_some_iff.mp harg
    obtain ⟨root, hroot, -, hmem⟩ := mem_queryFields (List.mem_of_find?_eq_some hf)
    exact (((hs.wellNamed root hroot).fields f hmem).args arg (List.mem_of_find?_eq_some harg)).type
  next => exact show IsName "Int" by decide +kernel

/-- Entity types that are listed in languages with proper names are well named throughout. -/
theorem wellNamed_of_mem_entityTypes {s : Schema} (hs : s.Legible) {languages : List String}
    (hlanguages : ∀ l ∈ languages, IsName l) {d : Descriptor} (hd : d ∈ entityTypes s languages) :
    d.WellNamed s where
  typeName := by
    obtain ⟨t, ht, -⟩ := isObject_of_mem_entityTypes hs.unambiguous hd
    exact type?_name ht ▸ (hs.wellNamed t (mem_of_type? ht)).name
  queryField := by
    obtain ⟨f, hf, hqueryField⟩ := queryField_of_mem_entityTypes hd
    exact hqueryField.symm ▸ hs.isName_queryField hf
  languages := by rwa [languages_of_mem_entityTypes hd]
  variableType := hs.isProper_variableType d.queryField

/-! ## Documents as they are put together

A listing is built with its filter and its language; the merge spreads the data fragment into it. Both are
written out here as one operation. -/

namespace Compilation

variable {P : Literal → Prop} {s : Schema} {d : Descriptor} {f : Fragment} {filter : ListingFilter}
  {filters : List (Option Literal)} {language : String → Literal} {fragment : String}

/-- The listing of a type in a language, in which the entities also spread a data fragment. The language and
the filter are given as the literals that stand for them. -/
def mergedOperation (s : Schema) (d : Descriptor) (l : String) (language : Literal) (fragment : String)
    (filter : Option Literal) : Operation :=
  { description := none
    kind := .query
    name := some (Descriptor.operationName d.typeName l)
    variableDefinitions := ListingQuery.pageVariables.map (Listing.variableDefinition s d.queryField)
    directives := []
    selections := [.field none d.queryField
      (ListingQuery.pageVariables.map Listing.variableArgument ++ (filter.map (Argument.mk "filter")).toList) []
      [.field none entitiesField [⟨"language", language⟩] []
        [.spread (Descriptor.identityName d.typeName) [], .spread fragment []]]] }

/-- The document of a type: an operation for each language, the identity fragment and the data fragment. -/
def assembled (s : Schema) (d : Descriptor) (data : Fragment) (language : String → Literal)
    (filters : List (Option Literal)) : Document :=
  List.zipWith (fun l x => .operation (mergedOperation s d l (language l) data.name x)) d.languages filters
    ++ [.fragment (Listing.identityFragment d.typeName), .fragment data]

/-! ### What compilation puts together

Merging takes a listing as it was made and adds a spread to its entities. What comes out is a document of
`assembled` for the languages and the literals of their filters. -/

theorem merge_eq_mergedOperation (s : Schema) (d : Descriptor) (l fragment : String) (x : Option Literal) :
    merge (.operation (Listing.operation s d l x)) fragment
      = .ok (.operation (mergedOperation s d l (.enum l) fragment x)) := rfl

/-- The listings that were made for languages, merged: one for each language, with its filter. -/
theorem merged_eq {ls : List String} {qs : List ListingQuery} {merged : List Definition}
    (hqs : List.Forall₂ (fun l q => Listing.query s filter d l = .ok q) ls qs)
    (h : qs.mapM (fun q => merge q.definition fragment) = .ok merged) :
    ∃ xs, List.Forall₂ (fun l x => Listing.filterLiteral s filter d l = .ok x) ls xs
      ∧ merged = List.zipWith (fun l x => .operation (mergedOperation s d l (.enum l) fragment x)) ls xs := by
  have hm := mapM_ok h
  clear h
  induction hqs generalizing merged with
  | nil =>
      cases hm
      exact ⟨[], .nil, rfl⟩
  | @cons l q ls qs hq hqs ih =>
      cases hm with
      | @cons _ m _ ms hm hms =>
          obtain ⟨x, hx, hq⟩ := bind_ok hq
          cases hq
          cases (merge_eq_mergedOperation s d l fragment x).symm.trans hm
          obtain ⟨xs, hxs, rfl⟩ := ih hms
          exact ⟨x :: xs, .cons hx hxs, rfl⟩

/-- What stands in a document that was put together: a listing, the identity fragment or the data fragment. -/
theorem mem_assembled {y : Definition} (h : y ∈ assembled s d f language filters) :
    (∃ l ∈ d.languages, ∃ x ∈ filters, y = .operation (mergedOperation s d l (language l) f.name x))
      ∨ y = .fragment (Listing.identityFragment d.typeName) ∨ y = .fragment f := by
  rcases List.mem_append.mp h with h | h
  · rw [← List.map_uncurry_zip_eq_zipWith] at h
    obtain ⟨⟨l, x⟩, hlx, rfl⟩ := List.mem_map.mp h
    obtain ⟨hl, hx⟩ := List.of_mem_zip hlx
    exact .inl ⟨l, hl, x, hx, rfl⟩
  · refine .inr ?_
    simpa using h

/-! ### Writing and reading it

All names in such a document are made of the type's name and of its languages, so they are proper ones. Its
values are the variables of the page, the languages and the filters. When they are read back, the variables
stay, a language may turn out to be the name of a constant, and a filter may change as any literal may. -/

/-- A merged listing can be written if its filter can. -/
theorem mergedOperation_isWritable (hd : d.WellNamed s) {l : String} (hl : l ∈ d.languages) {value : Literal}
    {x : Option Literal} (hfragment : IsName fragment) (hon : fragment ≠ "on")
    (hvariable : ∀ n ∈ ListingQuery.pageVariables, P (.variable n)) (hvalue : P value) (hx : ∀ y ∈ x, P y) :
    (mergedOperation s d l value fragment x).IsWritable P where
  description := rfl
  name := ⟨_, rfl, isName_operationName hd.typeName (hd.languages l hl)⟩
  variableDefinitions := by
    intro v hv
    obtain ⟨n, hn, rfl⟩ := List.mem_map.mp hv
    have hname : ∀ n ∈ ListingQuery.pageVariables, IsName n := by decide +kernel
    exact ⟨rfl, hname n hn, hd.variableType n, rfl, rfl⟩
  directives := nofun
  selects := List.cons_ne_nil _ _
  selections := by
    -- the arguments are the page variables and, where a filter is set, the filter
    have harguments : ∀ a ∈ ListingQuery.pageVariables.map Listing.variableArgument
        ++ (x.map (Argument.mk "filter")).toList, a.IsWritable P := by
      intro a ha
      rcases List.mem_append.mp ha with ha | ha
      · obtain ⟨n, hn, rfl⟩ := List.mem_map.mp ha
        have hname : ∀ n ∈ ListingQuery.pageVariables, IsName n := by decide +kernel
        exact ⟨hname n hn, hvariable n hn⟩
      · obtain ⟨y, hy, rfl⟩ := Option.map_eq_some_iff.mp (Option.mem_toList.mp ha)
        exact ⟨show IsName "filter" by decide +kernel, hx y hy⟩
    have hentities : (Selection.field none entitiesField [⟨"language", value⟩] []
        [.spread (Descriptor.identityName d.typeName) [], .spread fragment []]).IsWritable P := by
      refine .field nofun (by decide +kernel) ?_ nofun ?_
      · exact List.forall_mem_singleton.mpr ⟨show IsName "language" by decide +kernel, hvalue⟩
      · refine List.forall_mem_cons.mpr ⟨?_, List.forall_mem_singleton.mpr (.spread hfragment hon nofun)⟩
        exact .spread (isName_identityName hd.typeName) identityName_ne_on nofun
    exact List.forall_mem_singleton.mpr
      (.field nofun hd.queryField harguments nofun (List.forall_mem_singleton.mpr hentities))

/-- The identity fragment has neither arguments nor values. -/
theorem identityFragment_isBare (h : IsName d.typeName) : (Listing.identityFragment d.typeName).IsBare where
  description := rfl
  name := isName_identityName h
  on := h
  directives := rfl
  selects := List.cons_ne_nil _ _
  selections := Listing.identityFragment_bare d.typeName

/-- A document that was put together can be written if its values can. -/
theorem assembled_isWritable (hd : d.WellNamed s) (hf : f.IsBare) (hon : f.name ≠ "on")
    (hvariable : ∀ n ∈ ListingQuery.pageVariables, P (.variable n))
    (hlanguage : ∀ l ∈ d.languages, P (language l)) (hfilters : ∀ x, some x ∈ filters → P x) :
    ∀ y ∈ assembled s d f language filters, y.IsWritable P := by
  intro y hy
  rcases mem_assembled hy with ⟨l, hl, x, hx, rfl⟩ | rfl | rfl
  · exact mergedOperation_isWritable hd hl hf.name hon hvariable (hlanguage l hl)
      fun z hz => hfilters z (Option.mem_def.mp hz ▸ hx)
  · exact (identityFragment_isBare hd.typeName).isWritable
  · exact hf.isWritable

/-- No fragment of a document has the name that none can have. -/
theorem assembled_isReadable (hon : f.name ≠ "on") :
    ∀ y ∈ assembled s d f language filters, Parser.IsReadable y := by
  intro y hy g hg
  rcases mem_assembled hy with ⟨l, -, x, -, rfl⟩ | rfl | rfl
  · cases hg
  · cases hg
    exact identityName_ne_on
  · cases hg
    exact hon

theorem mergedOperation_reread (l : String) (x : Option Literal) :
    (mergedOperation s d l (.enum l) fragment x).reread
      = mergedOperation s d l (Parser.namedLiteral l) fragment (x.map Literal.reread) := by
  cases x <;> rfl

/-- What is read back of a document that was put together is put together of the values that are read back. -/
theorem assembled_reread (filters : List (Option Literal)) (hd : d.WellNamed s) (hf : f.IsBare) :
    (assembled s d f .enum filters).map Definition.reread
      = assembled s d f Parser.namedLiteral (filters.map (·.map Literal.reread)) := by
  have hmerged : (fun l x => (Definition.operation (mergedOperation s d l (.enum l) f.name x)).reread)
      = fun l x => .operation (mergedOperation s d l (Parser.namedLiteral l) f.name (x.map Literal.reread)) :=
    funext₂ fun l x => congrArg Definition.operation (mergedOperation_reread l x)
  unfold assembled
  rw [List.map_append, List.map_zipWith, List.zipWith_map_right, hmerged]
  congr 1
  show [Definition.fragment (Listing.identityFragment d.typeName).reread, .fragment f.reread] = _
  rw [hf.reread, (identityFragment_isBare hd.typeName).reread]

end Compilation

/-! ## Compiled documents

Compilation checks the document or does not; what it gives is the same in both cases. -/

open Compilation

/-- Whether a compiled document is the one of a type with a data fragment and the filters of its languages,
and its text stands for it. -/
structure CompiledDocument.IsWritten (s : Schema) (d : Descriptor) (data : Fragment)
    (filters : List (Option Literal)) (doc : CompiledDocument) : Prop where
  document_eq : doc.document = assembled s d data .enum filters
  text_eq : doc.text = doc.document.print
  /-- The text is read, as the same document with the values as they are read back. -/
  parse_eq : Document.parse doc.text
    = .ok (assembled s d data Parser.namedLiteral (filters.map (·.map Literal.reread)))
  /-- Nothing but the values can differ: a language that is no constant is the same, as is such a filter. -/
  parse_self : (∀ l ∈ d.languages, IsEnumName l) → (∀ x, some x ∈ filters → x.reread = x) →
    Document.parse doc.text = .ok doc.document
  /-- What is read is printed as the same text, if each filter stands on one line. -/
  print_eq : (∀ x, some x ∈ filters → '\n' ∉ x.print.toList) →
    Document.print (assembled s d data Parser.namedLiteral (filters.map (·.map Literal.reread))) = doc.text

namespace Compilation

variable {s : Schema} {d : Descriptor} {f : Fragment} {filter : ListingFilter}

theorem namedLiteral_of_isEnumName {n : String} (h : IsEnumName n) : Parser.namedLiteral n = .enum n := by
  obtain ⟨-, hn⟩ := h
  simp only [List.mem_cons, List.not_mem_nil, or_false, not_or] at hn
  rw [Parser.namedLiteral, if_neg hn.1, if_neg hn.2.1, if_neg hn.2.2]

/-- Documents that were put together of the same values are the same. -/
theorem assembled_congr {filters filters' : List (Option Literal)} {language language' : String → Literal}
    (hlanguage : ∀ l ∈ d.languages, language l = language' l) (hfilters : filters = filters') :
    assembled s d f language filters = assembled s d f language' filters' := by
  subst hfilters
  unfold assembled
  rw [← List.map_uncurry_zip_eq_zipWith, ← List.map_uncurry_zip_eq_zipWith]
  congr 1
  refine List.map_congr_left fun p hp => ?_
  show Definition.operation (mergedOperation s d p.1 (language p.1) f.name p.2) = _
  rw [hlanguage p.1 (List.of_mem_zip hp).1]
  rfl

/-- The printed text of a document that was put together stands for it. -/
theorem isWritten_of_assembled {doc : CompiledDocument} {filters : List (Option Literal)}
    (hd : d.WellNamed s) (hf : f.IsBare) (hon : f.name ≠ "on")
    (hfilters : ∀ x, some x ∈ filters → x.IsWritable)
    (hdocument : doc.document = assembled s d f .enum filters) (htext : doc.text = doc.document.print) :
    doc.IsWritten s d f filters := by
  have hvariable : ∀ n ∈ ListingQuery.pageVariables, IsName n := by decide +kernel
  have hwritable := assembled_isWritable (P := Literal.IsWritable) hd hf hon (fun n hn => .var (hvariable n hn))
    (fun l hl => .enum (hd.languages l hl)) hfilters
  have hreread := assembled_reread filters hd hf
  -- the printed text spells the assembled document, whatever its literals are read back as
  have hparse : Document.parse doc.text
      = .ok (assembled s d f Parser.namedLiteral (filters.map (·.map Literal.reread))) := by
    rw [htext, hdocument, ← hreread]
    exact Document.parse_of_spells (fun _ hl => hl) (List.append_ne_nil_of_right_ne_nil _ (List.cons_ne_nil _ _))
      hwritable (assembled_isReadable hon) (Document.spells_print (fun _ hl => hl) hwritable)
  refine ⟨hdocument, htext, hparse, fun hlanguages hsame => ?_, fun hline => ?_⟩
  · rw [hparse, hdocument]
    refine congrArg Except.ok (assembled_congr (fun l hl => namedLiteral_of_isEnumName (hlanguages l hl)) ?_)
    refine (List.map_congr_left fun x hx => ?_).trans (List.map_id' filters)
    cases x with
    | none => rfl
    | some x => exact congrArg some (hsame x hx)
  -- printing again gives the same text only where no literal holds a line end
  · have hlines : ∀ y ∈ assembled s d f .enum filters, y.IsWritable Literal.IsLine := assembled_isWritable
      hd hf hon (fun n hn => ⟨.var (hvariable n hn), ?_⟩)
      (fun l hl => ⟨.enum (hd.languages l hl), line_end_not_mem (hd.languages l hl)⟩)
      (fun x hx => ⟨hfilters x hx, hline x hx⟩)
    · rw [htext, hdocument, ← hreread]
      exact Document.print_reread (fun _ hl => hl.print_reread) hlines
    · have hdollar : '\n' ∉ "$".toList := by decide
      rw [Literal.print, String.toList_append, List.mem_append, not_or]
      exact ⟨hdollar, line_end_not_mem (hvariable n hn)⟩

/-! ### Parts that were made

The parts of a compilation may come from anywhere. `Synthesized` says that they are the ones that the schema
gives, with a fragment that was read from its text. -/

/-- Whether the parts for a type are what is made for it: listings with a filter, the identity fragment, and
the default fragment as it is read from its text. -/
structure Parts.Synthesized (s : Schema) (filter : ListingFilter) (p : Parts) (d : Descriptor) : Prop where
  listings : ∀ qs, p.listings.get? d.typeName = some qs → Listing.queries s filter d d.languages = .ok qs
  identities : ∀ f, p.identities.get? d.typeName = some f → f = Listing.identityFragment d.typeName
  fragments : ∀ g, p.fragments.get? d.typeName = some g → ∃ sourced maxDepth text source,
    DefaultFragment.text s sourced maxDepth d.typeName = .ok text
      ∧ DataFragment.parse d.typeName text source = .ok g

/-- The literal of a filter in its format can be written. -/
theorem filterLiteral_isWritable (hs : s.WellNamed) {l : String} (hfilter : (filter d l).InFormat) {x : Literal}
    (h : Listing.filterLiteral s filter d l = .ok (some x)) : x.IsWritable := by
  unfold Listing.filterLiteral at h
  dsimp only at h
  split at h
  · cases h
  split at h
  · cases h
  split at h
  · cases h
  · cases h
  next hx =>
    cases h
    exact Literal.isWritable_ofValueWith hs hfilter hx

/-- Checked or not, a document consists of the merged listings and the fragments. -/
theorem compileType_ok {check : Option Schema} {qs : List ListingQuery} {identity : Fragment}
    {data : DataFragment} {doc : CompiledDocument} (h : compileType check d qs identity data = .ok doc) :
    ∃ merged, qs.mapM (fun q => merge q.definition data.name) = .ok merged
      ∧ doc.document = merged ++ (identity :: data.definitions).map .fragment
      ∧ doc.text = doc.document.print := by
  obtain ⟨merged, hmerged, h⟩ := bind_ok h
  refine ⟨merged, hmerged, ?_⟩
  dsimp only at h
  split at h
  all_goals
    obtain ⟨_, -, h⟩ := bind_ok h
    obtain ⟨operations, -, h⟩ := bind_ok h
    cases h
    exact ⟨rfl, rfl⟩

/-- The document of a type is written if its parts are what is made for the type. -/
theorem compileParts_isWritten {check : Option Schema} {p : Parts} {doc : CompiledDocument} (hs : s.WellNamed)
    (hd : d.WellNamed s) (hfilter : ∀ l ∈ d.languages, (filter d l).InFormat) (hp : p.Synthesized s filter d)
    (h : compileParts check p d = .ok doc) :
    ∃ f filters, (∃ sourced maxDepth, DefaultFragment.make s sourced maxDepth d.typeName = .ok f)
      ∧ List.Forall₂ (fun l x => Listing.filterLiteral s filter d l = .ok x) d.languages filters
      ∧ doc.IsWritten s d f filters := by
  have hrequire {α : Type} {part : Option α} {missing : MissingPart} {a : α}
      (h : require part d.typeName missing = .ok a) : part = some a := by
    cases part with
    | none => cases h
    | some b =>
        cases h
        rfl
  -- the parts are required in this order: fragment, identity, listings
  obtain ⟨g, hg, h⟩ := bind_ok h
  obtain ⟨identity, hidentity, h⟩ := bind_ok h
  obtain ⟨qs, hqs, h⟩ := bind_ok h
  obtain ⟨sourced, maxDepth, text, source, htext, hparse⟩ := hp.fragments g (hrequire hg)
  obtain ⟨f, hf, hbare, hon, hname, hdefinitions⟩ := DataFragment.parse_text hs htext hparse
  have hqueries := hp.listings qs (Option.filter_eq_some_iff.mp (hrequire hqs)).1
  obtain rfl := hp.identities identity (hrequire hidentity)
  obtain ⟨merged, hmerged, hdocument, hdoctext⟩ := compileType_ok h
  obtain ⟨filters, hfilters, rfl⟩ := merged_eq (mapM_ok hqueries) hmerged
  have hwritable : ∀ x, some x ∈ filters → x.IsWritable := by
    intro x hx
    obtain ⟨l, hl, hlx⟩ := exists_of_forall₂ hfilters.flip hx
    exact filterLiteral_isWritable hs (hfilter l hl) hlx
  refine ⟨f, filters, ⟨sourced, maxDepth, hf⟩, hfilters, ?_⟩
  refine isWritten_of_assembled hd hbare hon hwritable ?_ hdoctext
  rw [hdocument, hname, hdefinitions]
  rfl

/-- What compilation gives for a type is put together from its parts. -/
theorem compile_entry {check : Option Schema} {p : Parts} {ds : List Descriptor} {docs : Keyed CompiledDocument}
    (h : compile check p ds = .ok docs) {n : String} {doc : CompiledDocument} (hdoc : (n, doc) ∈ docs.entries) :
    ∃ d ∈ ds, d.typeName = n ∧ compileParts check p d = .ok doc := by
  obtain ⟨pairs, hpairs, h⟩ := bind_ok h
  cases h
  obtain ⟨d, hd, hpair⟩ := exists_of_forall₂ (mapM_ok hpairs).flip (Keyed.mem_of_mem_ofList hdoc)
  obtain ⟨doc, hdoc, hpair⟩ := bind_ok hpair
  cases hpair
  exact ⟨d, hd, rfl, hdoc⟩

/-- **The text of a compiled document stands for the document**: for every schema, languages and filters, and
whether the document was checked or not. The numbers in the filters have the format that every double has. -/
theorem compile_isWritten {data : Value} {languages : List String} {check : Option Schema} {p : Parts}
    {ds : List Descriptor} {docs : Keyed CompiledDocument} (hdata : Schema.ofIntrospection data = .ok s)
    (hlanguages : ∀ l ∈ languages, IsName l) (hds : ∀ d ∈ ds, d ∈ entityTypes s languages)
    (hfilter : ∀ d ∈ ds, ∀ l ∈ languages, (filter d l).InFormat) (hp : ∀ d ∈ ds, p.Synthesized s filter d)
    (h : compile check p ds = .ok docs) {n : String} {doc : CompiledDocument} (hdoc : (n, doc) ∈ docs.entries) :
    ∃ d ∈ ds, d.typeName = n ∧ ∃ f filters,
      (∃ sourced maxDepth, DefaultFragment.make s sourced maxDepth n = .ok f)
      ∧ List.Forall₂ (fun l x => Listing.filterLiteral s filter d l = .ok x) languages filters
      ∧ doc.IsWritten s d f filters := by
  have hs := legible_ofIntrospection hdata
  obtain ⟨d, hd, rfl, hparts⟩ := compile_entry h hdoc
  have hmem := hds d hd
  have hlang := languages_of_mem_entityTypes hmem
  obtain ⟨f, filters, hf, hfilters, hwritten⟩ := compileParts_isWritten hs.wellNamed
    (wellNamed_of_mem_entityTypes hs hlanguages hmem) (fun l hl => hfilter d hd l (hlang ▸ hl)) (hp d hd) hparts
  exact ⟨d, hd, rfl, f, filters, hf, hlang ▸ hfilters, hwritten⟩

/-- A text that begins with a listing begins with its head, on which the filter has no influence, and its
selections. -/
theorem print_merged_cons (s : Schema) (d : Descriptor) (l fragment : String) (value : Literal)
    (x : Option Literal) (more : Document) :
    ∃ rest, Document.print (.operation (mergedOperation s d l value fragment x) :: more)
      = Operation.print { mergedOperation s d l value fragment none with selections := [] }
        ++ (printSelections (mergedOperation s d l value fragment x).selections ++ rest) := by
  have hprint : (mergedOperation s d l value fragment x).print
      = Operation.print { mergedOperation s d l value fragment none with selections := [] }
        ++ printSelections (mergedOperation s d l value fragment x).selections := by
    have hempty : printSelections [] = "" := by decide +kernel
    unfold Operation.print
    dsimp only
    rw [hempty, String.append_empty]
    rfl
  rw [Document.print, List.map_cons, Token.join_cons, Definition.print, hprint]
  split
  next hempty =>
    refine ⟨Layout.join "\n\n" (more.map Definition.print), ?_⟩
    rw [← String.append_assoc, hempty, String.empty_append]
  split
  next => exact ⟨"", by rw [String.append_empty]⟩
  next => exact ⟨_, by rw [String.append_assoc, String.append_assoc]⟩

end Compilation

/-! ## A remote that is filtered by identifiers -/

namespace Sample

/-- A remote whose nodes are filtered by an identifier. -/
def identified : Value :=
  .record [("__schema", .record [
    ("queryType", typeRef "OBJECT" "Query"),
    ("directives", .list []),
    ("types", .list [
      type "OBJECT" "Query" [] [field "nodeQuery" [argument "limit" "SCALAR" "Int",
        argument "offset" "SCALAR" "Int", argument "filter" "SCALAR" "ID"]
        (typeRef "OBJECT" "EntityQueryResult")],
      type "OBJECT" "EntityQueryResult" [] [field "entities" [argument "language" "SCALAR" "LanguageCode"]
        (.record [("kind", .str "LIST"), ("ofType", typeRef "OBJECT" "Node")])],
      type "OBJECT" "Node" [] identity,
      type "OBJECT" "Language" [] [field "id" [] (typeRef "SCALAR" "String")],
      typeRef "SCALAR" "Int", typeRef "SCALAR" "ID", typeRef "SCALAR" "LanguageCode",
      typeRef "SCALAR" "String"])])]

def identifiedSchema : Schema := (Schema.ofIntrospection identified).toOption.getD default

def identifiedNode : Descriptor :=
  { typeName := "Node", queryField := "nodeQuery", languages := ["EN", "DE"], expanded := false,
    abstractType := none }

/-- A filter of nodes by an identifier. -/
def byIdentifier (id : String) : ListingFilter := .byType [(.str "Node", .str id)]

def identifiedText : String := (DefaultFragment.text identifiedSchema ["Node"] 2 "Node").toOption.getD ""

/-- The parts of the document of nodes. -/
def identifiedParts (id : String) : Compilation.Parts :=
  { listings := .ofList [("Node",
      (Listing.queries identifiedSchema (byIdentifier id) identifiedNode ["EN", "DE"]).toOption.getD default)]
    identities := .ofList [("Node", Listing.identityFragment "Node")]
    fragments := .ofList [("Node", (DataFragment.parse "Node" identifiedText .generated).toOption.getD default)] }

def compiledBy (id : String) : Except Failure (Keyed CompiledDocument) :=
  Compilation.compile (some identifiedSchema) (identifiedParts id) [identifiedNode]

theorem ofIntrospection_identified : Schema.ofIntrospection identified = .ok identifiedSchema :=
  eq_ok_of_isSome rfl

theorem isName_identified : ∀ l ∈ ["EN", "DE"], IsName l := by decide

theorem mem_entityTypes_identified : identifiedNode ∈ entityTypes identifiedSchema ["EN", "DE"] :=
  .head _

theorem byIdentifier_inFormat (id l : String) : (byIdentifier id identifiedNode l).InFormat := by
  show (Value.str id).InFormat
  exact .atom nofun

theorem identifiedParts_synthesized {id : String} (h : (Listing.queries identifiedSchema (byIdentifier id)
    identifiedNode ["EN", "DE"]).toOption.isSome = true) :
    (identifiedParts id).Synthesized identifiedSchema (byIdentifier id) identifiedNode where
  listings := by
    intro qs hqs
    cases hqs
    exact eq_ok_of_isSome h
  identities := by
    intro f hf
    cases hf
    rfl
  fragments := by
    intro g hg
    cases hg
    exact ⟨["Node"], 2, identifiedText, .generated, eq_ok_of_isSome rfl, eq_ok_of_isSome rfl⟩

/-- Where compilation gives one document, that is the document of nodes. -/
theorem exists_compiledBy (id : String) (h : (compiledBy id).toOption.map Keyed.keys = some ["Node"]) :
    ∃ docs doc, compiledBy id = .ok docs ∧ ("Node", doc) ∈ docs.entries := by
  obtain ⟨docs, hdocs, hkeys⟩ := Option.map_eq_some_iff.mp h
  have hmem : "Node" ∈ docs.keys := hkeys ▸ List.mem_singleton_self "Node"
  obtain ⟨⟨n, doc⟩, hdoc, rfl⟩ := List.mem_map.mp hmem
  exact ⟨docs, doc, eq_ok_of_toOption hdocs, hdoc⟩

theorem compile_isWritten_identified :
    ∃ docs doc, compiledBy "5" = .ok docs ∧ ("Node", doc) ∈ docs.entries
      ∧ ∃ d ∈ [identifiedNode], d.typeName = "Node" ∧ ∃ f filters,
        (∃ sourced maxDepth, DefaultFragment.make identifiedSchema sourced maxDepth "Node" = .ok f)
        ∧ List.Forall₂ (fun l x => Listing.filterLiteral identifiedSchema (byIdentifier "5") d l = .ok x)
          ["EN", "DE"] filters
        ∧ doc.IsWritten identifiedSchema d f filters := by
  obtain ⟨docs, doc, hdocs, hdoc⟩ := exists_compiledBy "5" (by decide +kernel)
  refine ⟨docs, doc, hdocs, hdoc, Compilation.compile_isWritten ofIntrospection_identified isName_identified
    (List.forall_mem_singleton.mpr mem_entityTypes_identified)
    (List.forall_mem_singleton.mpr fun l _ => byIdentifier_inFormat "5" l)
    (List.forall_mem_singleton.mpr (identifiedParts_synthesized ?_)) hdocs hdoc⟩
  decide +kernel

/-- An identifier that ends a line is written as an integer that does. -/
theorem filterLiteral_lineEnd (l : String) :
    Listing.filterLiteral identifiedSchema (byIdentifier "5\n") identifiedNode l = .ok (some (.int "5\n")) := by
  have harg : (identifiedSchema.queryField? identifiedNode.queryField).bind (·.arg? "filter")
      = some { name := "filter", type := .named "ID", hasDefault := false, isDeprecated := false } := rfl
  have hscalar : identifiedSchema.type? "ID" = some (.scalar "ID") := rfl
  have hvalue : Literal.ofValue? identifiedSchema (.named "ID") (.str "5\n") = .ok (some (.int "5\n")) := by
    rw [Literal.ofValue?, Literal.typeDepth, Nat.add_comm, Literal.ofValueWith_scalar hscalar rfl]
    rfl
  have hfilter : byIdentifier "5\n" identifiedNode l = .str "5\n" := rfl
  unfold Listing.filterLiteral
  rw [harg, hfilter]
  dsimp only
  rw [hvalue]
  rfl

/-- The selections of a listing with a line end in its filter begin otherwise than those without. -/
theorem selections_differ {rest rest' : String} :
    printSelections (Compilation.mergedOperation identifiedSchema identifiedNode "EN" (.enum "EN") "Node"
        (some (.int "5"))).selections ++ rest
      ≠ printSelections (Compilation.mergedOperation identifiedSchema identifiedNode "EN" (.enum "EN") "Node"
        (some (.int "5\n"))).selections ++ rest' := by
  intro h
  have htexts := congrArg String.toList h
  rw [String.toList_append, String.toList_append] at htexts
  have hprefix := List.prefix_or_prefix_of_prefix (List.prefix_append _ _) (htexts ▸ List.prefix_append _ _)
  exact absurd hprefix (by decide +kernel)

/-- **A filter that ends a line gives a text that is not what its own document is printed as.** -/
theorem text_unstable_of_lineEnd :
    ∃ docs doc d, compiledBy "5\n" = .ok docs ∧ ("Node", doc) ∈ docs.entries
      ∧ Document.parse doc.text = .ok d ∧ d.print ≠ doc.text := by
  obtain ⟨docs, doc, hdocs, hdoc⟩ := exists_compiledBy "5\n" (by decide +kernel)
  obtain ⟨d, hd, -, hparts⟩ := Compilation.compile_entry hdocs hdoc
  cases List.mem_singleton.mp hd
  have hs := legible_ofIntrospection ofIntrospection_identified
  obtain ⟨f, filters, ⟨sourced, maxDepth, hf⟩, hfilters, hwritten⟩ := Compilation.compileParts_isWritten
    hs.wellNamed (wellNamed_of_mem_entityTypes hs isName_identified mem_entityTypes_identified)
    (fun l _ => byIdentifier_inFormat "5\n" l) (identifiedParts_synthesized (by decide +kernel)) hparts
  refine ⟨docs, doc, _, hdocs, hdoc, hwritten.parse_eq, fun heq => ?_⟩
  obtain ⟨x, xs, hx, -, rfl⟩ := List.forall₂_cons_left_iff.mp
    (show List.Forall₂ _ ("EN" :: ["DE"]) filters from hfilters)
  cases (filterLiteral_lineEnd "EN").symm.trans hx
  have hname : f.name = "Node" := (DefaultFragment.make_bare hs.wellNamed hf).1
  obtain ⟨rest, hrest⟩ := Compilation.print_merged_cons identifiedSchema identifiedNode "EN" f.name (.enum "EN")
    (some (.int "5")) _
  obtain ⟨rest', hrest'⟩ := Compilation.print_merged_cons identifiedSchema identifiedNode "EN" f.name (.enum "EN")
    (some (.int "5\n")) _
  rw [hwritten.text_eq, hwritten.document_eq] at heq
  have htexts := hrest.symm.trans (heq.trans hrest')
  rw [String.append_right_inj, hname] at htexts
  exact selections_differ htexts

end Sample

end Harvest
