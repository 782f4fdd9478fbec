import Harvest.Proofs.Entity.FragmentPaths
import Harvest.Proofs.Plan.Transparency

/-!
# Searches that generate

`resolveFragments_standard` is the law of the default generator: what it writes for a type is accepted as
the fragment of the type, with the selections that were put together. So when nothing is kept yet a search
fails only for the types that have nothing to select.

A type may be looked for more than once. The first time its text is generated and kept, from then on it is
read back, which is why `failures_of_made` and `failures_of_refused` follow the entry of the type through
the search.

What the generator writes is a text, and a text is accepted only if it is read as a document with a fragment
of the type. That this is always so is the round trip of printing and reading for default fragments
(`parse_generated`). Whether the generator writes anything at all is a matter of paths: there is one within
the depth, or there is nothing to select (`ne_nil_iff_path`).
-/

namespace Harvest

open GraphQL GraphQL.Schema

namespace FragmentRequest

variable {r : FragmentRequest} {t : String} {c c' : FragmentCache} {ts : List String}
  {found found' : ResolvedFragments} {f : DataFragment} {problem : FragmentProblem}

/-! ## One type in a search

The entry of a type, followed through a search in which the type may occur several times. -/

/-- A type whose generated text is accepted does not fail while its entry is that text or none. -/
theorem failures_of_made (hcustom : r.custom.get? t = none) (hmade : r.generate t = .ok f)
    (hc : c.IsAccessible) (hentry : ∀ kept, c.entryOf t = some kept → kept = f.text)
    (h : r.resolveAll ts found c = (.ok found', c')) :
    found'.failures.get? t = found.failures.get? t := by
  obtain ⟨ht, -, -, hparse⟩ := generate_ok hmade
  induction ts generalizing found c with
  | nil =>
      cases h
      rfl
  | cons u ts ih =>
      obtain ⟨x, c₁, hprovides, hx, heq⟩ | ⟨fault, c₁, -, -, heq⟩ := r.resolveAll_cases u found c
      · rw [heq] at h
        have hc₁ := (hprovides.provision hc hx).1
        by_cases hu : t = u
        · subst hu
          have hverdict := hprovides.eq_verdict hc ht hx
          have hgain := hprovides.entryOf_self hc ht hx
          -- the type has its fragment, and its entry is the text of it now
          have hfound : ResolvedFragments.problem? x = none := by
            rw [hverdict, verdict, hcustom, FragmentCache.shown]
            cases hkept : c.entryOf t with
            | none =>
                show ResolvedFragments.problem? (r.generate t) = none
                rw [hmade]
                rfl
            | some kept =>
                rw [hentry kept hkept]
                show ResolvedFragments.problem? (DataFragment.parse t (c.store.readBack f.text) .cache) = none
                rw [DataFragment.parse_readBack c.store hparse .cache]
                rfl
          rw [ih hc₁ ?_ h, ResolvedFragments.get?_failures_record, if_pos rfl, hfound, Option.none_or]
          intro kept hkept
          rw [hgain, gain, hcustom, hmade] at hkept
          rcases Option.or_eq_some_iff.mp hkept with hold | ⟨-, hnew⟩
          · exact hentry kept hold
          · exact (Option.some.inj hnew).symm
        · rw [ih hc₁ ?_ h, ResolvedFragments.get?_failures_record, if_neg hu]
          intro kept hkept
          rw [hprovides.entryOf_of_ne hu] at hkept
          exact hentry kept hkept
      · cases (heq ts).symm.trans h

/-- A type that the generator has no text for fails with its reason whenever it is looked for, as it has no
entry and gains none. -/
theorem failures_of_refused (hcustom : r.custom.get? t = none)
    (hmade : r.generate t = .error (.fragment t problem)) (ht : IsName t) (hc : c.IsAccessible)
    (hentry : c.entryOf t = none) (h : r.resolveAll ts found c = (.ok found', c')) :
    found'.failures.get? t = if t ∈ ts then some problem else found.failures.get? t := by
  -- on the types: the others leave no entry behind for this one, so it is generated when it comes up
  induction ts generalizing found c with
  | nil =>
      cases h
      rfl
  | cons u ts ih =>
      obtain ⟨x, c₁, hprovides, hx, heq⟩ | ⟨fault, c₁, -, -, heq⟩ := r.resolveAll_cases u found c
      · rw [heq] at h
        have hc₁ := (hprovides.provision hc hx).1
        by_cases hu : t = u
        · subst hu
          have hfailed : ResolvedFragments.problem? x = some problem := by
            rw [hprovides.eq_verdict hc ht hx, verdict, hcustom, FragmentCache.shown, hentry]
            show ResolvedFragments.problem? (r.generate t) = some problem
            rw [hmade]
            rfl
          have hnone : c₁.entryOf t = none := by
            rw [hprovides.entryOf_self hc ht hx, gain, hcustom, hmade, hentry]
            rfl
          rw [ih hc₁ hnone h, ResolvedFragments.get?_failures_record, if_pos rfl, hfailed, Option.some_or,
            if_pos List.mem_cons_self, ite_self]
        · have hnone : c₁.entryOf t = none := by
            rw [hprovides.entryOf_of_ne hu, hentry]
          rw [ih hc₁ hnone h, ResolvedFragments.get?_failures_record, if_neg hu]
          simp only [List.mem_cons, hu, false_or]
      · cases (heq ts).symm.trans h

/-! ### The default generator

It makes a text or has a reason not to, which is always the same: nothing can be selected. -/

/-- The default generator's text for a type is what the fragment of the type is read from. -/
theorem generate_standard {s : Schema} {sourced : List String} {maxDepth : Int} {text : String}
    (custom : Keyed String) (htext : DefaultFragment.text s sourced maxDepth t = .ok text) :
    generate ⟨s, sourced, custom, .standard maxDepth⟩ t = DataFragment.parse t text .generated := by
  simp only [generate, FragmentGenerator.standard, htext]

theorem generate_standard_refused {s : Schema} {sourced : List String} {maxDepth : Int}
    (custom : Keyed String) (htext : DefaultFragment.text s sourced maxDepth t = .error (.problem problem)) :
    generate ⟨s, sourced, custom, .standard maxDepth⟩ t = .error (.fragment t problem) := by
  simp only [generate, FragmentGenerator.standard, htext]

end FragmentRequest

/-- A store without any entry is accessible. -/
theorem FragmentCache.isAccessible_of_empty {c : FragmentCache} (h : ∀ u, c.entryOf u = none) :
    c.IsAccessible := by
  obtain ⟨store, disk⟩ := c
  cases store with
  | memory texts => trivial
  | directory path => exact .inr h

/-! ## Default fragments

The two outcomes for a type, by whether something can be selected of it. -/

namespace DefaultFragment

variable {s : Schema} {sourced : List String} {t : TypeDef} {n : String} {depth : Nat} {maxDepth : Int}
  {xs : List Selection}

/-- **The text of a default fragment holds that fragment**, with the selections that were put together. -/
theorem parse_generated (hs : s.WellNamed) (ht : s.type? n = some t) (hon : n ≠ "on") {text : String}
    (htext : DefaultFragment.text s sourced maxDepth n = .ok text) :
    ∃ xs, selections s sourced maxDepth.toNat t = .ok xs ∧ xs ≠ []
      ∧ DataFragment.parse n text .generated = .ok ⟨n, n, [⟨none, n, n, [], xs⟩], text, .generated⟩ := by
  obtain ⟨f, hf, htext⟩ := bind_ok htext
  cases htext
  obtain ⟨t', xs, ht', -, hxs, hne, hmade⟩ := make_ok hf
  cases ht.symm.trans ht'
  obtain ⟨hname, hfon, hbare⟩ := make_bare hs hf
  refine ⟨xs, hxs, hne, ?_⟩
  rw [DataFragment.parse, hbare.parse_of_spells (hname ▸ hon) hbare.spells_line, ← hmade]
  exact DataFragment.ofDocument_fragment hname hfon

/-- Something is selected of a type exactly if there is a path that the depth allows for. -/
theorem ne_nil_iff_path (hs : s.WellNamed) (ht : t ∈ s.types) (hsrc : SourcesObjects s sourced)
    (h : selections s sourced depth t = .ok xs) :
    xs ≠ [] ↔ ∃ p, IsPath s sourced t p ∧ p.length ≤ depth + 1 := by
  constructor
  · intro hne
    obtain ⟨x, hx⟩ := List.exists_mem_of_ne_nil xs hne
    obtain ⟨p, hp⟩ := (bare_of_selections hs ht h x hx).exists_mem_routes
    exact ⟨p, (mem_routes_iff hsrc h).mp (Selection.mem_allRoutes.mpr ⟨x, hx, hp⟩)⟩
  · rintro ⟨p, hp⟩ rfl
    cases (mem_routes_iff hsrc h).mpr hp

end DefaultFragment

open DefaultFragment

/-- **The default generator fails only for want of something to select.** Every text that it makes for an
object type holds the fragment that it was made from, and that fragment alone. So if the caller has no text
for the type and nothing is kept, the search fails for it exactly if no path of fields leads down to
something within the depth. A type named `on` is left out, as no text holds a fragment of that name. Only
the store can break the search off, which no store in memory does. -/
theorem resolveFragments_standard {data : Value} {s : Schema} {t : TypeDef} {n : String}
    (hs : Schema.ofIntrospection data = .ok s) (ht : s.type? n = some t) (hobject : t.isObject = true)
    (hon : n ≠ "on") (maxDepth : Int) :
    (∀ sourced text, DefaultFragment.text s sourced maxDepth n = .ok text →
      ∃ xs, selections s sourced maxDepth.toNat t = .ok xs ∧ xs ≠ []
        ∧ DataFragment.parse n text .generated = .ok ⟨n, n, [⟨none, n, n, [], xs⟩], text, .generated⟩)
    ∧ ∀ types custom c, SourcesObjects s types → n ∈ types → custom.get? n = none →
      (∀ u, c.entryOf u = none) →
      (∀ found c', resolveFragments s types custom (.standard maxDepth) c = (.ok found, c') →
        (found.failures.get? n = none
            ∧ ∃ p, IsPath s types t p ∧ (p.length : Int) - 1 ≤ max maxDepth 0)
          ∨ (found.failures.get? n = some .noFields
            ∧ ∀ p, IsPath s types t p → max maxDepth 0 < (p.length : Int) - 1))
      ∧ (∀ e c', resolveFragments s types custom (.standard maxDepth) c = (.error e, c') →
        FragmentRequest.BreaksOff ⟨s, types, custom, .standard maxDepth⟩ c)
      ∧ ∀ texts, c.store = .memory texts →
        ∃ found, (resolveFragments s types custom (.standard maxDepth) c).1 = .ok found := by
  have hnames := wellNamed_ofIntrospection hs
  have hmem := mem_of_type? ht
  have hparsed (sourced : List String) (text : String)
      (htext : DefaultFragment.text s sourced maxDepth n = .ok text) :=
    parse_generated hnames ht hon htext
  refine ⟨hparsed, fun types custom c hsrc hn hcustom hempty => ⟨fun found c' h => ?_,
    fun e c' => breaksOff_of_error, fun texts htexts => FragmentRequest.resolveAll_memory htexts⟩⟩
  have hc := FragmentCache.isAccessible_of_empty hempty
  obtain ⟨xs, hxs⟩ := selections_total hsrc maxDepth.toNat t
  have hpath := ne_nil_iff_path hnames hmem hsrc hxs
  by_cases hne : xs = []
  · -- there is no text, so the type fails whenever it is looked for
    have htext : DefaultFragment.text s types maxDepth n = .error (.problem .noFields) := by
      rw [text_eq ht hobject hxs, if_pos hne]
    have hmade := FragmentRequest.generate_standard_refused custom htext
    have hname : IsName n := type?_name ht ▸ (hnames t hmem).name
    refine .inr ⟨?_, fun p hp => ?_⟩
    · rw [FragmentRequest.failures_of_refused hcustom hmade hname hc (hempty n) h, if_pos hn]
    -- a path within the depth would be a field to select
    · by_contra hnot
      exact hpath.mpr ⟨p, hp, by omega⟩ hne
  · obtain ⟨p, hp, hlength⟩ := hpath.mp hne
    have htext : DefaultFragment.text s types maxDepth n
        = .ok (Fragment.print ⟨none, n, n, [], xs⟩ ++ "\n") := by
      rw [text_eq ht hobject hxs, if_neg hne]
    obtain ⟨ys, -, -, hparse⟩ := hparsed types _ htext
    have hmade := (FragmentRequest.generate_standard custom htext).trans hparse
    refine .inl ⟨?_, p, hp, by omega⟩
    rw [FragmentRequest.failures_of_made hcustom hmade hc (fun kept hkept => ?_) h]
    · rfl
    · cases (hempty n).symm.trans hkept

/-! ## One level of fields -/

namespace Sample

/-- Without any depth there is a fragment of a node, which has a title. There is none of the queries, as
whatever they lead to is one level further down. -/
theorem cyclic_fragments_generated :
    ∃ query text xs found c',
      DefaultFragment.text cyclicSchema ["Node", "Query"] 0 "Node" = .ok text
        ∧ DataFragment.parse "Node" text .generated
          = .ok ⟨"Node", "Node", [⟨none, "Node", "Node", [], xs⟩], text, .generated⟩
        ∧ cyclicSchema.type? "Query" = some query
        ∧ resolveFragments cyclicSchema ["Node", "Query"] .empty (.standard 0) ⟨.memory .empty, default⟩
          = (.ok found, c')
        ∧ found.failures.get? "Node" = none ∧ found.failures.get? "Query" = some .noFields
        ∧ ∀ p, IsPath cyclicSchema ["Node", "Query"] query p → 1 < p.length := by
  have hsrc : SourcesObjects cyclicSchema ["Node", "Query"] := by
    unfold SourcesObjects
    decide +kernel
  obtain ⟨node, hnode, hnodeObject⟩ : ∃ t, cyclicSchema.type? "Node" = some t ∧ t.isObject = true :=
    Option.map_eq_some_iff.mp (by decide +kernel)
  obtain ⟨query, hquery, hqueryObject⟩ : ∃ t, cyclicSchema.type? "Query" = some t ∧ t.isObject = true :=
    Option.map_eq_some_iff.mp (by decide +kernel)
  have hempty (u : String) : FragmentCache.entryOf ⟨.memory .empty, default⟩ u = none := rfl
  obtain ⟨text, htext⟩ : ∃ text, DefaultFragment.text cyclicSchema ["Node", "Query"] 0 "Node" = .ok text :=
    ⟨_, eq_ok_of_isSome (by decide +kernel)⟩
  have hfailed : (resolveFragments cyclicSchema ["Node", "Query"] .empty (.standard 0)
      ⟨.memory .empty, default⟩).1.toOption.map (fun found =>
        (found.failures.contains "Node", found.failures.contains "Query")) = some (false, true) := by
    decide +kernel
  obtain ⟨hparses, hfinds⟩ :=
    resolveFragments_standard ofIntrospection_cyclic hnode hnodeObject (by decide) 0
  obtain ⟨xs, -, -, hparse⟩ := hparses _ text htext
  obtain ⟨hnodes, -, hmemory⟩ :=
    hfinds ["Node", "Query"] .empty ⟨.memory .empty, default⟩ hsrc (by decide) rfl hempty
  obtain ⟨found, hfound⟩ := hmemory .empty rfl
  obtain ⟨c', h⟩ : ∃ c', resolveFragments cyclicSchema ["Node", "Query"] .empty (.standard 0)
      ⟨.memory .empty, default⟩ = (.ok found, c') := ⟨_, Prod.ext hfound rfl⟩
  have hqueries := ((resolveFragments_standard ofIntrospection_cyclic hquery hqueryObject (by decide) 0).2
    ["Node", "Query"] .empty ⟨.memory .empty, default⟩ hsrc (by decide) rfl hempty).1 found c' h
  obtain ⟨hpassed, hrefused⟩ : found.failures.contains "Node" = false
      ∧ found.failures.contains "Query" = true := by
    rw [h] at hfailed
    simpa only [Except.toOption, Option.map_some, Option.some.injEq, Prod.mk.injEq] using hfailed
  obtain ⟨hnone, -⟩ | ⟨hsome, -⟩ := hnodes found c' h
  · obtain ⟨hnone', -⟩ | ⟨hsome, hpaths⟩ := hqueries
    · rw [Keyed.contains, hnone'] at hrefused
      cases hrefused
    · refine ⟨query, text, xs, found, c', htext, hparse, hquery, h, hnone, hsome, fun p hp => ?_⟩
      have hlong := hpaths p hp
      omega
  · rw [Keyed.contains, hsome] at hpassed
    cases hpassed

end Sample

end Harvest
