import Harvest.Proofs.Plan.Resolution

/-!
# Each type for itself

What becomes of one type when fragments are looked for is settled by its own text, its own entry in the
store and what the generator makes of it: `FragmentRequest.verdict` is its fragment or failure, and
`FragmentRequest.gain` what its entry gains. `resolveFragments_separates` compares two searches that agree
on these three, whatever they do with the other types and in whichever order.

Again the stores have to be accessible. `Sample.order_decides` shows two orders of the same types between
which the fragments change places.

The verdict on a type is computed without the others, by `FragmentRequest.verdict`, from the text that the
store shows for it. So the theorem has two halves: in a search, what comes of a type is its verdict on what
the store shows at that moment, and until that moment nobody has changed what the store shows for it
(`Provides.shown_of_ne`).
-/

namespace Harvest

open GraphQL

namespace FragmentRequest

variable {r r₁ r₂ : FragmentRequest} {t u : String} {c c' : FragmentCache}
  {x : Except Failure DataFragment} {ts : List String} {found found' : ResolvedFragments}

/-! ## One type

The verdict and the gain, and that a step of the search comes to them. -/

/-- What is found for a type in a store with a text for it, or with none. -/
def storeVerdict (r : FragmentRequest) (t : String) : Option String → Except Failure DataFragment
  | some text => DataFragment.parse t text .cache
  | none => r.generate t

/-- What is found for a type, of which the store shows a text or none. -/
def verdict (r : FragmentRequest) (t : String) (shown : Option String) : Except Failure DataFragment :=
  match r.custom.get? t with
  | some text => DataFragment.parse t text .custom
  | none => r.storeVerdict t shown

/-- The text that the entry of a type gains, if it has none. -/
def gain (r : FragmentRequest) (t : String) : Option String :=
  match r.custom.get? t with
  | some _ => none
  | none => (r.generate t).toOption.map DataFragment.text

/-- What is found for a type depends on the caller's text for it and on what the generator makes of it. -/
theorem generate_congr
    (h : r₁.generator r₁.schema r₁.sourced t = r₂.generator r₂.schema r₂.sourced t) :
    r₁.generate t = r₂.generate t := by
  rw [generate, generate, h]

theorem verdict_congr (hcustom : r₁.custom.get? t = r₂.custom.get? t)
    (h : r₁.generator r₁.schema r₁.sourced t = r₂.generator r₂.schema r₂.sourced t)
    (shown : Option String) : r₁.verdict t shown = r₂.verdict t shown := by
  have hstore : r₁.storeVerdict t shown = r₂.storeVerdict t shown := by
    cases shown with
    | some text => rfl
    | none => exact generate_congr h
  rw [verdict, verdict, hcustom, hstore]

theorem gain_congr (hcustom : r₁.custom.get? t = r₂.custom.get? t)
    (h : r₁.generator r₁.schema r₁.sourced t = r₂.generator r₂.schema r₂.sourced t) :
    r₁.gain t = r₂.gain t := by
  rw [gain, gain, hcustom, generate_congr h]

/-- Unless the store fails, the verdict on a type is what is found for it. -/
theorem Provides.eq_verdict (h : r.Provides t c x c') (hc : c.IsAccessible) (ht : IsName t)
    (hx : ∀ fault, x ≠ .error (.fault fault)) : x = r.verdict t (c.shown t) := by
  cases h with
  | custom hcustom => rw [verdict, hcustom]
  | unread => exact absurd rfl (hx _)
  | cached hcustom hread =>
      rw [verdict, hcustom, ← FragmentCache.read_eq hc ht hread]
      rfl
  | refused hcustom hread hmade | made hcustom hread hmade =>
      rw [verdict, hcustom, ← FragmentCache.read_eq hc ht hread]
      exact hmade.symm
  | unwritten => exact absurd rfl (hx _)

/-- Unless the store fails, an entry that is there stays, and one that is not there gains what there is
to gain. -/
theorem Provides.entryOf_self (h : r.Provides t c x c') (hc : c.IsAccessible) (ht : IsName t)
    (hx : ∀ fault, x ≠ .error (.fault fault)) : c'.entryOf t = (c.entryOf t).or (r.gain t) := by
  cases h with
  | custom hcustom => rw [gain, hcustom, Option.or_none]
  | unread => exact absurd rfl (hx _)
  | cached hcustom hread =>
      have hsome := FragmentCache.isSome_read hc ht hread
      obtain ⟨kept, hkept⟩ := Option.isSome_iff_exists.mp hsome.symm
      rw [hkept, Option.some_or]
  | refused hcustom hread hmade =>
      rw [gain, hcustom, hmade]
      exact (Option.or_none).symm
  | made hcustom hread hmade hwrite =>
      have hsome := FragmentCache.isSome_read hc ht hread
      rw [(FragmentCache.entryOf_write ht hwrite).2, if_pos rfl, gain, hcustom, hmade,
        Option.isNone_iff_eq_none.mp (Option.isSome_eq_false_iff.mp hsome.symm)]
      rfl
  | unwritten => exact absurd rfl (hx _)

/-- A store keeps texts in the same way whatever is written to it. -/
theorem Provides.readBack_eq (h : r.Provides t c x c') : c'.store.readBack = c.store.readBack := by
  cases h with
  | custom | unread | cached | refused => rfl
  | made _ _ _ hwrite => exact FragmentCache.readBack_write hwrite
  | unwritten _ _ _ hwrite => exact FragmentCache.readBack_write hwrite

/-- What is read for a type stays the same while other types are looked at. -/
theorem Provides.shown_of_ne (h : r.Provides t c x c') (hu : u ≠ t) : c'.shown u = c.shown u := by
  rw [FragmentCache.shown, FragmentCache.shown, h.entryOf_of_ne hu, h.readBack_eq]

/-! ## All types

One type among different ones, wherever it stands in the list. -/

/-- **What comes of one among different types is its own verdict**, and its entry gains what it gains by
itself. -/
theorem resolveAll_verdict (hn : ts.Nodup) (hc : c.IsAccessible)
    (hnone : ∀ t ∈ ts, found.fragments.get? t = none ∧ found.failures.get? t = none)
    (h : r.resolveAll ts found c = (.ok found', c')) (hmem : t ∈ ts) (ht : IsName t) :
    found'.fragments.get? t = (r.verdict t (c.shown t)).toOption
      ∧ found'.failures.get? t = ResolvedFragments.problem? (r.verdict t (c.shown t))
      ∧ c'.entryOf t = (c.entryOf t).or (r.gain t) := by
  induction ts generalizing found c with
  | nil => cases hmem
  | cons u ts ih =>
      obtain ⟨hu, hts⟩ := List.nodup_cons.mp hn
      obtain ⟨x, c₁, hprovides, hx, heq⟩ | ⟨fault, c₁, -, -, heq⟩ := r.resolveAll_cases u found c
      · rw [heq] at h
        obtain ⟨hc₁, -⟩ := hprovides.provision hc hx
        have hrest : ∀ v ∈ ts, (found.record u x).fragments.get? v = none
            ∧ (found.record u x).failures.get? v = none := by
          intro v hv
          have hvu : v ≠ u := by
            rintro rfl
            exact hu hv
          rw [ResolvedFragments.get?_fragments_record, ResolvedFragments.get?_failures_record, if_neg hvu,
            if_neg hvu]
          exact hnone v (.tail u hv)
        rcases List.mem_cons.mp hmem with rfl | htail
        · -- the type is settled first, and none of the others touches it
          obtain ⟨hf, hp⟩ := resolveAll_of_not_mem h hu
          obtain ⟨-, hentry⟩ := provision_resolveAll hts hc₁ (fun v hv => (hrest v hv).1) h
          obtain ⟨hnf, hnp⟩ := hnone t List.mem_cons_self
          rw [hf, hp, hentry t hu, ResolvedFragments.get?_fragments_record,
            ResolvedFragments.get?_failures_record, if_pos rfl, if_pos rfl, hnf, hnp, Option.or_none,
            Option.or_none, ← hprovides.eq_verdict hc ht hx, hprovides.entryOf_self hc ht hx]
          exact ⟨rfl, rfl, rfl⟩
        · have htu : t ≠ u := by
            rintro rfl
            exact hu htail
          obtain ⟨hf, hp, hentry⟩ := ih hts hc₁ hrest h htail
          rw [hprovides.shown_of_ne htu] at hf hp
          rw [hprovides.entryOf_of_ne htu] at hentry
          exact ⟨hf, hp, hentry⟩
      · cases (heq ts).symm.trans h

end FragmentRequest

/-! ## Two searches

What two searches have to have in common for one type. -/

namespace FragmentRequest

/-- Whether two searches agree on a type: on the caller's text for it, on what is made for it when it has
none, and on its entry, as it is kept and as it is read. -/
structure Agree (r₁ r₂ : FragmentRequest) (c₁ c₂ : FragmentCache) (t : String) : Prop where
  custom : r₁.custom.get? t = r₂.custom.get? t
  generator : r₁.generator r₁.schema r₁.sourced t = r₂.generator r₂.schema r₂.sourced t
  entry : c₁.entryOf t = c₂.entryOf t
  shown : c₁.shown t = c₂.shown t

/-- Whether a search breaks off: the store fails for a type, when those before it have been settled. -/
def BreaksOff (r : FragmentRequest) (c : FragmentCache) : Prop :=
  ∃ fault before t after found c', r.sourced = before ++ t :: after
    ∧ r.resolveAll before .empty c = (.ok found, c') ∧ c'.Fails t fault

end FragmentRequest

variable {types types₁ types₂ : List String} {c₁ c₂ : FragmentCache}

/-- A search gives no result only when it is broken off. -/
theorem breaksOff_of_error {s : Schema} {custom : Keyed String} {generator : FragmentGenerator}
    {c c' : FragmentCache} {e : Failure}
    (h : resolveFragments s types custom generator c = (.error e, c')) :
    FragmentRequest.BreaksOff ⟨s, types, custom, generator⟩ c := by
  obtain ⟨fault, before, t, after, found, c, -, hts, hbefore, hfails⟩ :=
    FragmentRequest.fault_resolveAll h
  exact ⟨fault, before, t, after, found, c, hts, hbefore, hfails⟩

/-- **What comes of a type does not depend on the others, nor on their order.** Two searches for the
fragments of the same types come to the same for every type on which they agree, unless the store breaks
one of them off, which no store in memory does. -/
theorem resolveFragments_separates (s : Schema) (hn : types₁.Nodup) (hperm : types₁.Perm types₂)
    (custom₁ custom₂ : Keyed String) (generator₁ generator₂ : FragmentGenerator)
    (hc₁ : c₁.IsAccessible) (hc₂ : c₂.IsAccessible) :
    (∀ found₁ c₁' found₂ c₂', resolveFragments s types₁ custom₁ generator₁ c₁ = (.ok found₁, c₁') →
      resolveFragments s types₂ custom₂ generator₂ c₂ = (.ok found₂, c₂') →
      ∀ t ∈ types₁, IsName t →
        FragmentRequest.Agree ⟨s, types₁, custom₁, generator₁⟩ ⟨s, types₂, custom₂, generator₂⟩ c₁ c₂ t →
        found₁.fragments.get? t = found₂.fragments.get? t
          ∧ found₁.failures.get? t = found₂.failures.get? t ∧ c₁'.entryOf t = c₂'.entryOf t)
    ∧ (∀ e c', resolveFragments s types₁ custom₁ generator₁ c₁ = (.error e, c') →
      FragmentRequest.BreaksOff ⟨s, types₁, custom₁, generator₁⟩ c₁)
    ∧ (∀ e c', resolveFragments s types₂ custom₂ generator₂ c₂ = (.error e, c') →
      FragmentRequest.BreaksOff ⟨s, types₂, custom₂, generator₂⟩ c₂)
    ∧ ∀ texts₁ texts₂, c₁.store = .memory texts₁ → c₂.store = .memory texts₂ →
      (∃ found, (resolveFragments s types₁ custom₁ generator₁ c₁).1 = .ok found)
        ∧ ∃ found, (resolveFragments s types₂ custom₂ generator₂ c₂).1 = .ok found := by
  refine ⟨fun found₁ c₁' found₂ c₂' h₁ h₂ t hmem ht hagree => ?_, fun e c' => breaksOff_of_error,
    fun e c' => breaksOff_of_error, fun texts₁ texts₂ hm₁ hm₂ =>
      ⟨FragmentRequest.resolveAll_memory hm₁, FragmentRequest.resolveAll_memory hm₂⟩⟩
  obtain ⟨hf₁, hp₁, he₁⟩ :=
    FragmentRequest.resolveAll_verdict hn hc₁ (fun _ _ => ⟨rfl, rfl⟩) h₁ hmem ht
  obtain ⟨hf₂, hp₂, he₂⟩ :=
    FragmentRequest.resolveAll_verdict (hperm.nodup hn) hc₂ (fun _ _ => ⟨rfl, rfl⟩) h₂
      (hperm.mem_iff.mp hmem) ht
  have hverdict := FragmentRequest.verdict_congr hagree.custom hagree.generator
  rw [hf₁, hf₂, hp₁, hp₂, he₁, he₂, hagree.shown, hverdict, hagree.entry,
    FragmentRequest.gain_congr hagree.custom hagree.generator]
  exact ⟨rfl, rfl, rfl⟩

/-! ## Two orders

A directory that is there, and one that is not. -/

namespace Sample

/-- Makes a fragment for every type but terms, for which it has none. -/
def titlesOfNodes : FragmentGenerator := fun s sourced t =>
  if t = "Term" then .error (.generator "no titles") else titles s sourced t

/-- With a directory that is there, the fragment of a node is the same before a term without a fragment
and after one with a fragment. -/
theorem order_indifferent :
    ∃ found₁ c₁ found₂ c₂,
      resolveFragments default ["Node", "Term"] .empty titlesOfNodes (cacheAt "fragments")
          = (.ok found₁, c₁)
        ∧ resolveFragments default ["Term", "Node"] .empty titles (cacheAt "fragments") = (.ok found₂, c₂)
        ∧ found₁.fragments.get? "Node" = found₂.fragments.get? "Node"
        ∧ c₁.entryOf "Node" = c₂.entryOf "Node"
        ∧ found₁.fragments.contains "Term" ≠ found₂.fragments.contains "Term" := by
  have haccessible : (cacheAt "fragments").IsAccessible :=
    .inl ⟨"any", ⟨false, ["fragments", "any"]⟩, by decide +kernel⟩
  -- the runs differ in their order and in what is generated for Term, and Term fares differently
  have hterm₁ : (resolveFragments default ["Node", "Term"] .empty titlesOfNodes
      (cacheAt "fragments")).1.toOption.map (·.fragments.contains "Term") = some false := by
    decide +kernel
  have hterm₂ : (resolveFragments default ["Term", "Node"] .empty titles
      (cacheAt "fragments")).1.toOption.map (·.fragments.contains "Term") = some true := by
    decide +kernel
  obtain ⟨⟨x₁, c₁⟩, h₁⟩ : ∃ y, resolveFragments default ["Node", "Term"] .empty titlesOfNodes
    (cacheAt "fragments") = y := ⟨_, rfl⟩
  obtain ⟨⟨x₂, c₂⟩, h₂⟩ : ∃ y, resolveFragments default ["Term", "Node"] .empty titles
    (cacheAt "fragments") = y := ⟨_, rfl⟩
  rw [h₁] at hterm₁
  rw [h₂] at hterm₂
  cases x₁ with
  | error e => cases hterm₁
  | ok found₁ =>
      cases x₂ with
      | error e => cases hterm₂
      | ok found₂ =>
          obtain ⟨hf, -, he⟩ := (resolveFragments_separates default (by decide) (.swap ..) .empty .empty
            titlesOfNodes titles haccessible haccessible).1 found₁ c₁ found₂ c₂ h₁ h₂ "Node" (by decide)
              (by decide) ⟨rfl, rfl, rfl, rfl⟩
          refine ⟨found₁, c₁, found₂, c₂, h₁, h₂, hf, he, ?_⟩
          exact fun heq => absurd
            ((Option.some.inj hterm₁).symm.trans (heq.trans (Option.some.inj hterm₂))) Bool.false_ne_true

/-- Where the way to the directory leads through one that is not made yet, a node has its edited fragment
only if a term came first, whose fragment had to be made. -/
theorem order_decides :
    ((resolveFragments default ["Node", "Term"] .empty titles (cacheAt "build/..")).1.toOption.bind
        (·.fragments.get? "Node")).map DataFragment.source = some .generated
      ∧ ((resolveFragments default ["Term", "Node"] .empty titles
        (cacheAt "build/..")).1.toOption.bind
          (·.fragments.get? "Node")).map DataFragment.source = some .cache := by
  decide +kernel

end Sample

end Harvest
