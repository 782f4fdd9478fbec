import Harvest.Entity.Compilation
import Harvest.Proofs.GraphQL.Rereading
import Harvest.Proofs.Plan.Separation

/-!
# The second search

A search keeps what it has to generate, so that the next one need not. `resolveFragments_transparent` says
that the next one finds the same: every fragment again with its name and its definitions, now from the
store if it was generated, and that it asks the generator for the types only that the first one asked for
in vain. What is compiled from the fragments of either is the same.

A directory gives the texts that it keeps back with their line ends unified, which
`Document.parse_unifyLineEnds` says is no matter. It has to be accessible, as for a single search:
`Sample.refused_fragment_found` is a pair of searches in a directory that is not.

The store after the first search has more entries than before: for each type that was asked for with
success, the text that was generated. `shown_resolveAll` says what the second search reads for each type,
and `verdict_again` that it comes to the same fragment. Both are for one type among the others, by cutting
the search into what comes before the type, the type itself, and what comes after.
-/

namespace Harvest

open GraphQL

/-! ## Texts that are read back

A fragment is found by its type among the definitions of a text, and those are the same after the text was
read back. -/

/-- A text that holds a document holds the same one when it is read back from a store. -/
theorem FragmentStore.parse_readBack (store : FragmentStore) {text : String} {d : Document}
    (h : Document.parse text = .ok d) : Document.parse (store.readBack text) = .ok d := by
  cases store with
  | memory texts => exact h
  | directory path => exact Document.parse_unifyLineEnds h

namespace DataFragment

variable {t text : String} {f : DataFragment} {source : FragmentSource}

/-- A fragment as it is found the next time: one that was generated is read back from the store. -/
def again (f : DataFragment) (c : FragmentCache) : DataFragment :=
  if f.source = .generated then { f with source := .cache, text := c.store.readBack f.text } else f

theorem again_name (f : DataFragment) (c : FragmentCache) : (f.again c).name = f.name := by
  unfold again
  split <;> rfl

theorem again_definitions (f : DataFragment) (c : FragmentCache) :
    (f.again c).definitions = f.definitions := by
  unfold again
  split <;> rfl

/-- What holds a fragment of a type holds the same one under another source. -/
theorem ofDocument_again {d : Document} (h : ofDocument t text source d = .ok f) (text' : String)
    (source' : FragmentSource) :
    ofDocument t text' source' d = .ok { f with source := source', text := text' } := by
  unfold ofDocument at h ⊢
  split at h
  next => cases h
  next hoperations =>
    rw [if_neg hoperations]
    split at h
    next => cases h
    next =>
      cases h
      rfl

/-- **A text that was generated for a type holds its fragment when it is read back.** -/
theorem parse_readBack (store : FragmentStore) (h : parse t text source = .ok f)
    (source' : FragmentSource) : parse t (store.readBack text) source'
      = .ok { f with source := source', text := store.readBack text } := by
  unfold parse at h
  split at h
  next d hd =>
    rw [parse, store.parse_readBack hd]
    exact ofDocument_again h (store.readBack text) source'
  next => cases h

end DataFragment

namespace FragmentRequest

variable {r r₁ r₂ : FragmentRequest} {t : String} {c c' : FragmentCache} {ts before after : List String}
  {found found' : ResolvedFragments}

/-! ## Searches in two parts

What holds before a part of the search and is kept for each type holds after it. -/

/-- The types of a list are looked for one part after the other. -/
theorem resolveAll_append (r : FragmentRequest) (before after : List String) (found : ResolvedFragments)
    (c : FragmentCache) : r.resolveAll (before ++ after) found c
      = match r.resolveAll before found c with
        | (.ok found', c') => r.resolveAll after found' c'
        | (.error e, c') => (.error e, c') := by
  induction before generalizing found c with
  | nil => rfl
  | cons t before ih =>
      obtain ⟨x, c₁, -, -, heq⟩ | ⟨fault, c₁, -, -, heq⟩ := r.resolveAll_cases t found c
      · rw [List.cons_append, heq, heq]
        exact ih (found.record t x) c₁
      · rw [List.cons_append, heq, heq]

/-- What looking for one type leaves true of the store, unless it ends the search, is true after it. -/
theorem invariant_resolveAll {P : FragmentCache → Prop}
    (hstep : ∀ t c x c₁, r.Provides t c x c₁ → (∀ fault, x ≠ .error (.fault fault)) → P c → P c₁)
    (hc : P c) (h : r.resolveAll ts found c = (.ok found', c')) : P c' := by
  induction ts generalizing found c with
  | nil =>
      cases h
      exact hc
  | cons t ts ih =>
      obtain ⟨x, c₁, hprovides, hx, heq⟩ | ⟨fault, c₁, -, -, heq⟩ := r.resolveAll_cases t found c
      · rw [heq] at h
        exact ih (hstep t c x c₁ hprovides hx hc) h
      · cases (heq ts).symm.trans h

/-! ### What a search leaves alone

An accessible store stays accessible, a store in memory stays in memory, and texts are read back from it as
before. -/

theorem isAccessible_resolveAll (hc : c.IsAccessible)
    (h : r.resolveAll ts found c = (.ok found', c')) : c'.IsAccessible :=
  invariant_resolveAll (fun _ _ _ _ hprovides hx hc => (hprovides.provision hc hx).1) hc h

theorem readBack_resolveAll (h : r.resolveAll ts found c = (.ok found', c')) :
    c'.store.readBack = c.store.readBack :=
  invariant_resolveAll (P := fun c' => c'.store.readBack = c.store.readBack)
    (fun _ _ _ _ hprovides _ heq => hprovides.readBack_eq.trans heq) rfl h

theorem memory_resolveAll {texts : Keyed String} (hc : c.store = .memory texts)
    (h : r.resolveAll ts found c = (.ok found', c')) : ∃ texts', c'.store = .memory texts' :=
  invariant_resolveAll (P := fun c' => ∃ texts', c'.store = .memory texts')
    (fun _ _ _ _ hprovides _ ⟨_, hmemory⟩ => hprovides.memory hmemory) ⟨texts, hc⟩ h

/-! ## What the generator is asked for

The generator is asked only if nobody else has a text. So it does not matter what it would have made of
other types. -/

/-- Whether a search asks the generator for the fragment of a type: the caller has no text for it, and the
store shows none when the types before it have been settled. -/
def AsksFor (r : FragmentRequest) (c : FragmentCache) (t : String) : Prop :=
  ∃ before after found c', r.sourced = before ++ t :: after
    ∧ r.resolveAll before .empty c = (.ok found, c')
    ∧ r.custom.get? t = none ∧ c'.read t = .ok none

/-- For a type that is not asked for it does not matter what the generator would make of it. -/
theorem provide_congr (hcustom : r₁.custom.get? t = r₂.custom.get? t)
    (h : r₁.custom.get? t = none → c.read t = .ok none → r₁.generate t = r₂.generate t) :
    r₁.provide t c = r₂.provide t c := by
  unfold provide
  rw [← hcustom]
  split
  next => rfl
  next hnone =>
    split
    next => rfl
    next => rfl
    next hread => rw [h hnone hread]

/-- **A search depends on what the generator makes of the types that it is asked for**, and of no others. -/
theorem resolveAll_of_asked (hsourced : r₁.sourced = r₂.sourced) (hcustom : r₁.custom = r₂.custom)
    (hgenerator : ∀ t, r₁.AsksFor c t →
      r₁.generator r₁.schema r₁.sourced t = r₂.generator r₂.schema r₂.sourced t) :
    r₁.resolveAll r₁.sourced .empty c = r₂.resolveAll r₂.sourced .empty c := by
  -- the types that are left, when both searches have come to the same for those before them
  have hrest (after : List String) : ∀ before found c', r₁.sourced = before ++ after →
      r₁.resolveAll before .empty c = (.ok found, c') →
      r₁.resolveAll after found c' = r₂.resolveAll after found c' := by
    induction after with
    | nil => exact fun _ _ _ _ _ => rfl
    | cons t after ih =>
        intro before found c' hts hbefore
        have hprovide : r₁.provide t c' = r₂.provide t c' := by
          refine provide_congr (by rw [hcustom]) fun hnone hread => generate_congr ?_
          exact hgenerator t ⟨before, after, found, c', hts, hbefore, hnone, hread⟩
        have hsplit : r₁.sourced = (before ++ [t]) ++ after := by
          rw [hts, List.append_assoc]
          rfl
        have hone : r₁.resolveAll (before ++ [t]) .empty c = r₁.resolveAll [t] found c' := by
          rw [resolveAll_append, hbefore]
        rw [resolveAll] at hone
        rw [resolveAll, resolveAll, ← hprovide]
        split
        next f c₁ hp =>
          rw [hp] at hone
          exact ih _ _ _ hsplit hone
        next p c₁ hp =>
          rw [hp] at hone
          exact ih _ _ _ hsplit hone
        next => rfl
  rw [← hsourced]
  exact hrest r₁.sourced [] .empty c rfl rfl

/-- In an accessible store a type is asked for if neither the caller nor the store has a text for it. -/
theorem asksFor_iff (hn : r.sourced.Nodup) (hc : c.IsAccessible)
    (h : r.resolveAll r.sourced .empty c = (.ok found, c')) (hmem : t ∈ r.sourced) (ht : IsName t) :
    r.AsksFor c t ↔ r.custom.get? t = none ∧ c.entryOf t = none := by
  -- what comes before a type leaves its entry alone
  have hentry {before after : List String} {found₁ : ResolvedFragments} {c₁ : FragmentCache}
      (hts : r.sourced = before ++ t :: after) (hbefore : r.resolveAll before .empty c = (.ok found₁, c₁)) :
      c₁.entryOf t = c.entryOf t := by
    obtain ⟨hnb, -, hdisjoint⟩ := List.nodup_append.mp (hts ▸ hn)
    exact (provision_resolveAll hnb hc (fun _ _ => rfl) hbefore).2 t fun hb =>
      hdisjoint t hb t List.mem_cons_self rfl
  constructor
  · rintro ⟨before, after, found₁, c₁, hts, hbefore, hcustom, hread⟩
    have hsome := FragmentCache.isSome_read (isAccessible_resolveAll hc hbefore) ht hread
    rw [hentry hts hbefore] at hsome
    exact ⟨hcustom, Option.isNone_iff_eq_none.mp (Option.isSome_eq_false_iff.mp hsome.symm)⟩
  · rintro ⟨hcustom, hnone⟩
    obtain ⟨before, after, hts⟩ := List.append_of_mem hmem
    rw [hts, resolveAll_append] at h
    split at h
    next found₁ c₁ hbefore =>
      refine ⟨before, after, found₁, c₁, hts, hbefore, hcustom, ?_⟩
      cases hread : c₁.read t with
      | error e =>
          rw [resolveAll, provide, hcustom, hread] at h
          unfold FragmentCache.read at hread
          split at hread
          next => cases hread
          next =>
            cases hread
            cases h
      | ok shown =>
          rw [FragmentCache.read_eq (isAccessible_resolveAll hc hbefore) ht hread, FragmentCache.shown,
            hentry hts hbefore, hnone]
          rfl
    next => cases h

/-! ## A type that is looked for again

From the entry after the first search to what the second one finds. -/

/-- A fragment is found for types with proper names only. -/
theorem Provides.isName {f : DataFragment} (h : r.Provides t c (.ok f) c') : IsName t := by
  generalize hx : (.ok f : Except Failure DataFragment) = x at h
  cases h with
  | custom | cached => exact (DataFragment.parse_ok hx.symm).1
  | made _ _ hmade => exact (generate_ok hmade).1
  | unread | refused | unwritten => cases hx

theorem isName_resolveAll {f : DataFragment} (h : r.resolveAll ts found c = (.ok found', c'))
    (hnone : found.fragments.get? t = none) (hf : found'.fragments.get? t = some f) : IsName t := by
  induction ts generalizing found c with
  | nil =>
      cases h
      cases hnone.symm.trans hf
  | cons u ts ih =>
      obtain ⟨x, c₁, hprovides, -, heq⟩ | ⟨fault, c₁, -, -, heq⟩ := r.resolveAll_cases u found c
      · rw [heq] at h
        by_cases hu : t = u
        · subst hu
          cases x with
          | ok g => exact hprovides.isName
          | error e =>
              refine ih h ?_
              rw [ResolvedFragments.get?_fragments_record, if_pos rfl, hnone]
              rfl
        · refine ih h ?_
          rw [ResolvedFragments.get?_fragments_record, if_neg hu, hnone]
      · cases (heq ts).symm.trans h

/-- What the second search reads for a type: its entry, or what the first one has generated for it. -/
theorem shown_resolveAll (hn : ts.Nodup) (hc : c.IsAccessible)
    (h : r.resolveAll ts .empty c = (.ok found, c')) (hmem : t ∈ ts) (ht : IsName t) :
    c'.shown t = ((c.entryOf t).or (r.gain t)).map c.store.readBack := by
  rw [FragmentCache.shown, readBack_resolveAll h,
    (resolveAll_verdict hn hc (fun _ _ => ⟨rfl, rfl⟩) h hmem ht).2.2]

/-- **What was found for a type is found again**, from the store if it had to be generated. -/
theorem verdict_again {f : DataFragment} (h : r₁.verdict t (c.shown t) = .ok f)
    (hcustom : r₁.custom = r₂.custom) :
    r₂.verdict t (((c.entryOf t).or (r₁.gain t)).map c.store.readBack) = .ok (f.again c) := by
  rw [verdict] at h ⊢
  rw [gain, ← hcustom]
  have hsame (hsource : f.source ≠ .generated) : f.again c = f := if_neg hsource
  cases htext : r₁.custom.get? t with
  | some text =>
      rw [htext] at h
      rw [hsame (by rw [(DataFragment.parse_ok h).2.2]; exact FragmentSource.noConfusion)]
      exact h
  | none =>
      rw [htext, FragmentCache.shown] at h
      cases hentry : c.entryOf t with
      | some kept =>
          rw [hentry] at h
          rw [hsame (by rw [(DataFragment.parse_ok h).2.2]; exact FragmentSource.noConfusion)]
          exact h
      | none =>
          rw [hentry] at h
          have hmade : r₁.generate t = .ok f := h
          obtain ⟨-, hsource, -, hparse⟩ := generate_ok hmade
          rw [DataFragment.again, if_pos hsource, hmade]
          exact DataFragment.parse_readBack c.store hparse .cache

/-- A type without a text of the caller or an entry gains none exactly if it fails. -/
theorem gain_eq_none_iff (hcustom : r.custom.get? t = none) (hentry : c.entryOf t = none) :
    r.gain t = none ↔ (ResolvedFragments.problem? (r.verdict t (c.shown t))).isSome = true := by
  rw [gain, verdict, hcustom, FragmentCache.shown, hentry]
  show (r.generate t).toOption.map DataFragment.text = none
    ↔ (ResolvedFragments.problem? (r.generate t)).isSome = true
  cases hmade : r.generate t with
  | ok f => exact iff_of_false (Option.some_ne_none f.text) Bool.false_ne_true
  | error e =>
      obtain ⟨problem, rfl⟩ := generate_error hmade
      exact iff_of_true rfl rfl

end FragmentRequest

/-! ## What is compiled

A document shows of a fragment its name and its definitions, not where it came from. -/

namespace Compilation

variable {listings : Keyed (List ListingQuery)} {identities : Keyed Fragment}
  {fragments₁ fragments₂ : Keyed DataFragment}

/-- The document of a type shows the name and the definitions of its fragment and nothing else of it. -/
theorem compileParts_congr (check : Option Schema) {d : Descriptor} {f₁ f₂ : DataFragment}
    (h₁ : fragments₁.get? d.typeName = some f₁) (h₂ : fragments₂.get? d.typeName = some f₂)
    (hname : f₁.name = f₂.name) (hdefinitions : f₁.definitions = f₂.definitions) :
    compileParts check ⟨listings, identities, fragments₁⟩ d
      = compileParts check ⟨listings, identities, fragments₂⟩ d := by
  have htype (qs : List ListingQuery) (identity : Fragment) :
      compileType check d qs identity f₁ = compileType check d qs identity f₂ := by
    rw [compileType, compileType, hname, hdefinitions]
  unfold compileParts
  rw [h₁, h₂]
  show (require _ _ _ >>= fun identity => require _ _ _ >>= fun qs => compileType check d qs identity f₁)
    = (require _ _ _ >>= fun identity => require _ _ _ >>= fun qs => compileType check d qs identity f₂)
  simp only [htype]

theorem compile_congr (check : Option Schema) {ds : List Descriptor}
    (h : ∀ d ∈ ds, ∃ f₁ f₂, fragments₁.get? d.typeName = some f₁ ∧ fragments₂.get? d.typeName = some f₂
      ∧ f₁.name = f₂.name ∧ f₁.definitions = f₂.definitions) :
    compile check ⟨listings, identities, fragments₁⟩ ds
      = compile check ⟨listings, identities, fragments₂⟩ ds := by
  have hparts : ∀ d ∈ ds,
      (do return (d.typeName, ← compileParts check ⟨listings, identities, fragments₁⟩ d)
        : Except Failure (String × CompiledDocument))
      = do return (d.typeName, ← compileParts check ⟨listings, identities, fragments₂⟩ d) := by
    intro d hd
    obtain ⟨f₁, f₂, h₁, h₂, hname, hdefinitions⟩ := h d hd
    rw [compileParts_congr check h₁ h₂ hname hdefinitions]
  rw [compile, compile, mapM_congr hparts]

end Compilation

/-! ## All types

Both searches as a whole, and the documents that come of them. -/

variable {types : List String} {c c₁ : FragmentCache} {found₁ : ResolvedFragments}

/-- **What a search keeps is what the next one finds.** It finds every fragment of the first one again,
from the store if it was generated, asks the generator for the types that the first one asked for in vain,
and what is compiled from its fragments is the same. Only the store can break it off, which no store in
memory does. -/
theorem resolveFragments_transparent (s : Schema) (hn : types.Nodup) (custom : Keyed String)
    (generator₁ generator₂ : FragmentGenerator) (hc : c.IsAccessible)
    (h₁ : resolveFragments s types custom generator₁ c = (.ok found₁, c₁)) :
    (∀ found₂ c₂, resolveFragments s types custom generator₂ c₁ = (.ok found₂, c₂) →
      (∀ t f, found₁.fragments.get? t = some f → found₂.fragments.get? t = some (f.again c))
      ∧ (∀ t ∈ types, IsName t → (FragmentRequest.AsksFor ⟨s, types, custom, generator₂⟩ c₁ t
          ↔ FragmentRequest.AsksFor ⟨s, types, custom, generator₁⟩ c t
            ∧ found₁.failures.contains t = true))
      ∧ ∀ check listings identities ds, (∀ d ∈ ds, found₁.contains d.typeName = true) →
        Compilation.compile check ⟨listings, identities, found₁.fragments⟩ ds
          = Compilation.compile check ⟨listings, identities, found₂.fragments⟩ ds)
    ∧ (∀ e c₂, resolveFragments s types custom generator₂ c₁ = (.error e, c₂) →
      FragmentRequest.BreaksOff ⟨s, types, custom, generator₂⟩ c₁)
    ∧ ∀ texts, c.store = .memory texts →
      ∃ found₂, (resolveFragments s types custom generator₂ c₁).1 = .ok found₂ := by
  have hc₁ : c₁.IsAccessible := FragmentRequest.isAccessible_resolveAll hc h₁
  refine ⟨fun found₂ c₂ h₂ => ?_, fun e c₂ => breaksOff_of_error, fun texts htexts => ?_⟩
  · -- every fragment belongs to one of the types, which has a proper name then
    have hagain : ∀ t f, found₁.fragments.get? t = some f →
        found₂.fragments.get? t = some (f.again c) := by
      intro t f hf
      have ht : IsName t := FragmentRequest.isName_resolveAll h₁ rfl hf
      have hmem : t ∈ types := by
        by_contra hnot
        cases (FragmentRequest.resolveAll_of_not_mem h₁ hnot).1.symm.trans hf
      rw [(FragmentRequest.resolveAll_verdict hn hc (fun _ _ => ⟨rfl, rfl⟩) h₁ hmem ht).1] at hf
      have hsecond : FragmentRequest.verdict ⟨s, types, custom, generator₂⟩ t _ = .ok (f.again c) :=
        FragmentRequest.verdict_again (eq_ok_of_toOption hf) rfl
      rw [(FragmentRequest.resolveAll_verdict hn hc₁ (fun _ _ => ⟨rfl, rfl⟩) h₂ hmem ht).1,
        FragmentRequest.shown_resolveAll hn hc h₁ hmem ht, hsecond]
      rfl
    refine ⟨hagain, fun t hmem ht => ?_, fun check listings identities ds hds => ?_⟩
    · obtain ⟨-, hfailure, hentry⟩ :=
        FragmentRequest.resolveAll_verdict hn hc (fun _ _ => ⟨rfl, rfl⟩) h₁ hmem ht
      rw [FragmentRequest.asksFor_iff hn hc₁ h₂ hmem ht, FragmentRequest.asksFor_iff hn hc h₁ hmem ht,
        Keyed.contains, hfailure, hentry, Option.or_eq_none_iff, and_assoc]
      exact and_congr_right fun hcustom => and_congr_right fun hnone =>
        FragmentRequest.gain_eq_none_iff hcustom hnone
    · refine Compilation.compile_congr check fun d hd => ?_
      obtain ⟨f, hf⟩ := Option.isSome_iff_exists.mp (hds d hd)
      exact ⟨f, f.again c, hf, hagain _ f hf, (f.again_name c).symm, (f.again_definitions c).symm⟩
  · obtain ⟨texts₁, hmemory⟩ := FragmentRequest.memory_resolveAll htexts h₁
    exact FragmentRequest.resolveAll_memory hmemory

/-! ## Two searches -/

namespace Sample

/-- Makes a fragment with one field for every type but one, in a text with a comment and with line ends
of two characters. -/
def titlesBut (refused : String) : FragmentGenerator := fun _ _ t =>
  if t = refused then .error (.generator "no titles")
  else .ok ("# titles\r\nfragment " ++ t ++ " on " ++ t ++ " \x7b title \x7d\r\n")

/-- In a directory that is there, the fragment of a term is found again, and a tag without one is asked
for again. -/
theorem generated_fragment_cached :
    ∃ found₁ c₁ found₂ c₂ term,
      resolveFragments default ["Node", "Term", "Tag"] .empty (titlesBut "Tag") (cacheAt "fragments")
          = (.ok found₁, c₁)
        ∧ resolveFragments default ["Node", "Term", "Tag"] .empty titles c₁ = (.ok found₂, c₂)
        ∧ found₁.fragments.get? "Term" = some term ∧ term.source = .generated
        ∧ found₂.fragments.get? "Term" = some (term.again (cacheAt "fragments"))
        ∧ ¬FragmentRequest.AsksFor ⟨default, ["Node", "Term", "Tag"], .empty, titles⟩ c₁ "Term"
        ∧ FragmentRequest.AsksFor ⟨default, ["Node", "Term", "Tag"], .empty, titles⟩ c₁ "Tag" := by
  have haccessible : (cacheAt "fragments").IsAccessible :=
    .inl ⟨"any", ⟨false, ["fragments", "any"]⟩, by decide +kernel⟩
  -- evaluated once for the first call; what the second call gives comes from the theorem
  have hfirst : (resolveFragments default ["Node", "Term", "Tag"] .empty (titlesBut "Tag")
      (cacheAt "fragments")).1.toOption.map (fun found =>
        ((found.fragments.get? "Term").map DataFragment.source, found.failures.contains "Term",
          found.failures.contains "Tag")) = some (some .generated, false, true) := by
    decide +kernel
  have hsecond : (resolveFragments default ["Node", "Term", "Tag"] .empty titles
      (resolveFragments default ["Node", "Term", "Tag"] .empty (titlesBut "Tag")
        (cacheAt "fragments")).2).1.toOption.isSome = true := by
    decide +kernel
  obtain ⟨⟨x₁, c₁⟩, h₁⟩ : ∃ y, resolveFragments default ["Node", "Term", "Tag"] .empty (titlesBut "Tag")
    (cacheAt "fragments") = y := ⟨_, rfl⟩
  rw [h₁] at hfirst hsecond
  obtain ⟨⟨x₂, c₂⟩, h₂⟩ : ∃ y, resolveFragments default ["Node", "Term", "Tag"] .empty titles c₁ = y :=
    ⟨_, rfl⟩
  rw [h₂] at hsecond
  cases x₁ with
  | error e => cases hfirst
  | ok found₁ =>
      cases x₂ with
      | error e => cases hsecond
      | ok found₂ =>
          obtain ⟨hterm, hpassed, hfailed⟩ : (found₁.fragments.get? "Term").map DataFragment.source
                = some .generated ∧ found₁.failures.contains "Term" = false
              ∧ found₁.failures.contains "Tag" = true := by
            simpa only [Except.toOption, Option.map_some, Option.some.injEq, Prod.mk.injEq] using hfirst
          obtain ⟨term, hget, hsource⟩ := Option.map_eq_some_iff.mp hterm
          obtain ⟨hagain, hasks, -⟩ := (resolveFragments_transparent default (by decide) .empty
            (titlesBut "Tag") titles haccessible h₁).1 found₂ c₂ h₂
          refine ⟨found₁, c₁, found₂, c₂, term, h₁, h₂, hget, hsource, hagain "Term" term hget, ?_, ?_⟩
          · rw [hasks "Term" (by decide) (by decide +kernel), hpassed]
            exact fun h => Bool.false_ne_true h.2
          · refine (hasks "Tag" (by decide) (by decide +kernel)).mpr ⟨?_, hfailed⟩
            refine (FragmentRequest.asksFor_iff (by decide) haccessible h₁ (by decide)
              (by decide +kernel)).mpr ⟨rfl, ?_⟩
            decide +kernel

/-- Where the way to the directory leads through one that is not made yet, a node whose fragment the
generator refused has its edited fragment the next time, as one for a term has been kept meanwhile. -/
theorem refused_fragment_found :
    ((resolveFragments default ["Node", "Term"] .empty (titlesBut "Node")
        (cacheAt "build/..")).1.toOption.map (·.failures.contains "Node")) = some true
      ∧ ((resolveFragments default ["Node", "Term"] .empty titles
        (resolveFragments default ["Node", "Term"] .empty (titlesBut "Node")
          (cacheAt "build/..")).2).1.toOption.bind
          (·.fragments.get? "Node")).map DataFragment.source = some .cache := by
  decide +kernel

end Sample

end Harvest
