import Harvest.Proofs.Plan.Partition
import Harvest.Proofs.Storage.Entries

/-!
# What becomes of the store

Looking for the fragments of different types never changes a text that the store has: an entry comes to
the store exactly for a type that has neither a text of the caller nor an entry, when the generator
returns a text that holds a fragment of the type. `resolveFragments_provides` says so of every type, and
where its fragment comes from.

This needs an accessible store. `Sample.edited_fragment_lost` is a run for a directory that cannot be
entered yet but holds a text, and loses it.

For one type the search has four steps: a text of the caller is taken as it is, else an entry of the store,
else the generator is asked, and what it returns is kept. `FragmentRequest.Provides` has one constructor for
each way in which this can come out, and everything about one type is read off from it. The search through
all types goes on after a failure that concerns the type alone and stops when the store fails, so that its
induction has these two cases (`resolveAll_cases`).

The results are:

* `FragmentRequest.Provides.provision`, what becomes of one type in an accessible store,
* `FragmentRequest.provision_resolveAll`, the same of every type of a list, and of no other,
* `FragmentRequest.kept_resolveAll`, which says that no text is changed, however the search ends,
* `resolveFragments_provides`, which puts them together.
-/

namespace Harvest

open GraphQL

variable {t u text : String} {f : DataFragment}

/-! ## Texts of fragments

What is kept for a type has to hold a fragment on it; the others in the same text come along. -/

namespace DataFragment

/-- The main fragment is one of the text, and on the type. -/
theorem split?_on {fs others : List Fragment} {main : Fragment} (h : split? t fs = some (main, others)) :
    main ∈ fs ∧ main.on = t := by
  have hat {p : Fragment → Bool} {i : Nat} (hp : ∀ g, p g = true → g.on = t)
      (hi : fs.findIdx? p = some i)
      (hpair : fs[i]?.map (fun g => (g, fs.eraseIdx i)) = some (main, others)) :
      main ∈ fs ∧ main.on = t := by
    obtain ⟨g, hg, hmain⟩ := Option.map_eq_some_iff.mp hpair
    cases hmain
    obtain ⟨hlt, hpi, -⟩ := List.findIdx?_eq_some_iff_getElem.mp hi
    obtain ⟨_, rfl⟩ := List.getElem?_eq_some_iff.mp hg
    exact ⟨List.getElem_mem hlt, hp _ hpi⟩
  rcases Option.or_eq_some_iff.mp h with hmain | ⟨-, hon⟩
  · dsimp only at hmain
    split at hmain
    next => cases hmain
    next i hi =>
      refine hat (fun g hg => ?_) hi hmain
      rw [Bool.and_eq_true] at hg
      exact eq_of_beq hg.1
  · dsimp only at hon
    split at hon
    next => cases hon
    next i hi => exact hat (fun g hg => eq_of_beq hg) hi hon

/-- A text with a fragment of a type is kept as it is, and the type has a proper name. -/
theorem parse_ok {source : FragmentSource} (h : parse t text source = .ok f) :
    IsName t ∧ f.text = text ∧ f.source = source := by
  unfold parse at h
  split at h
  next d hd =>
    unfold ofDocument at h
    split at h
    next => cases h
    next =>
      split at h
      next => cases h
      next main others hs =>
        cases h
        obtain ⟨hmem, hon⟩ := split?_on hs
        exact ⟨hon ▸ Document.isName_of_parse hd main hmem, rfl, rfl⟩
  next => cases h

/-- A text without a fragment of a type is a failure of the type. -/
theorem parse_error {source : FragmentSource} {e : Failure} (h : parse t text source = .error e) :
    ∃ problem, e = .fragment t problem := by
  unfold parse ofDocument at h
  split at h
  next =>
    split at h
    next =>
      cases h
      exact ⟨_, rfl⟩
    next =>
      split at h
      next =>
        cases h
        exact ⟨_, rfl⟩
      next => cases h
  next =>
    cases h
    exact ⟨_, rfl⟩

end DataFragment

/-! ## One type

The store before and after, as a map from types to texts. An accessible store is one in which every name can
be read and written; only there an entry that was not found is known to be missing. -/

namespace FragmentCache

variable {c c' : FragmentCache}

/-- The text that is kept for a type. -/
def entryOf (c : FragmentCache) (typeName : String) : Option String := c.store.entryOf c.disk typeName

def IsAccessible (c : FragmentCache) : Prop := c.store.IsAccessible c.disk

/-- Whether the entry of a type cannot be read, or a text not be kept for it. -/
def Fails (c : FragmentCache) (typeName : String) (fault : Fault) : Prop :=
  c.read typeName = .error (.fault fault) ∨ ∃ text, (c.write typeName text).1 = .error (.fault fault)

/-- Memory never fails. -/
theorem not_fails_memory {texts : Keyed String} {fault : Fault} (hc : c.store = .memory texts) :
    ¬c.Fails t fault := by
  rintro (hread | ⟨text, hwrite⟩)
  · rw [read, hc] at hread
    cases hread
  · rw [write, hc] at hwrite
    cases hwrite

/-- The text that is read for a type. -/
def shown (c : FragmentCache) (typeName : String) : Option String :=
  (c.entryOf typeName).map c.store.readBack

/-- What is read for a type is what the store has for it. -/
theorem read_eq (hc : c.IsAccessible) (h : IsName t) {found : Option String}
    (hread : c.read t = .ok found) : found = c.shown t := by
  unfold read at hread
  split at hread
  next hread' =>
    cases hread
    exact FragmentStore.read_eq hc h hread'
  next => cases hread

theorem isSome_read (hc : c.IsAccessible) (h : IsName t) {found : Option String}
    (hread : c.read t = .ok found) : found.isSome = (c.entryOf t).isSome := by
  rw [read_eq hc h hread, shown, Option.isSome_map]

/-- After a write the type has the text, and all others have what they had. -/
theorem entryOf_write (h : IsName t) (hw : c.write t text = (.ok (), c')) :
    c'.IsAccessible ∧ ∀ u, c'.entryOf u = if u = t then some text else c.entryOf u := by
  unfold write at hw
  split at hw
  next hw' =>
    cases hw
    exact FragmentStore.entryOf_write h hw'
  next => cases hw

theorem readBack_write {y : Except Failure Unit} (hw : c.write t text = (y, c')) :
    c'.store.readBack = c.store.readBack := by
  unfold write at hw
  split at hw
  next hw' =>
    cases hw
    exact FragmentStore.readBack_write hw'
  next =>
    cases hw
    rfl

/-- A write that fails leaves every entry as it was. -/
theorem entryOf_write_error {e : Failure} (hw : c.write t text = (.error e, c')) :
    c'.entryOf u = c.entryOf u := by
  unfold write at hw
  split at hw
  next => cases hw
  next hw' =>
    cases hw
    exact (FragmentStore.entryOf_write_error hw').2 u

end FragmentCache

namespace ResolvedFragments

variable {found : ResolvedFragments} {x : Except Failure DataFragment}

/-! ### What has been found

The result of a search is two maps, one of fragments and one of problems, and every type is put into one of
them. A fault of the store is put into neither. -/

/-- What was found, with what came of one more type. -/
def record (found : ResolvedFragments) (t : String) : Except Failure DataFragment → ResolvedFragments
  | .ok f => { found with fragments := found.fragments.insert t f }
  | .error (.fragment _ problem) => { found with failures := found.failures.insert t problem }
  | .error _ => found

/-- The problem with a fragment, if that is why there is none. -/
def problem? : Except Failure DataFragment → Option FragmentProblem
  | .error (.fragment _ problem) => some problem
  | _ => none

/-- A fragment that was found stands under its type. -/
theorem get?_fragments_record : (found.record t x).fragments.get? u
    = if u = t then x.toOption.or (found.fragments.get? t) else found.fragments.get? u := by
  cases x with
  | ok f => exact Keyed.get?_insert ..
  | error e =>
      have hsame : (found.record t (.error e)).fragments = found.fragments := by
        cases e <;> rfl
      rw [hsame]
      split
      next hu =>
        rw [hu]
        rfl
      next => rfl

/-- A problem stands under its type. -/
theorem get?_failures_record : (found.record t x).failures.get? u
    = if u = t then (problem? x).or (found.failures.get? t) else found.failures.get? u := by
  have hsame (h : problem? x = none) : (found.record t x).failures = found.failures := by
    cases x with
    | ok f => rfl
    | error e => cases e <;> first | rfl | cases h
  cases hx : problem? x with
  | none =>
      rw [hsame hx]
      split
      next hu =>
        rw [hu]
        rfl
      next => rfl
  | some problem =>
      obtain ⟨t', rfl⟩ : ∃ t', x = .error (.fragment t' problem) := by
        cases x with
        | ok f => cases hx
        | error e => cases e <;> cases hx; exact ⟨_, rfl⟩
      exact Keyed.get?_insert ..

end ResolvedFragments

namespace FragmentRequest

variable {r : FragmentRequest} {c c' : FragmentCache} {x : Except Failure DataFragment}

/-! ### The search for one type

`Provides` lists how the search can go, with the store before and after. `Provision` says what can be told
from outside, and follows from it for all types, also for those whose names are no proper ones. -/

/-- What looking for the fragment of a type can do. -/
inductive Provides (r : FragmentRequest) (t : String) (c : FragmentCache) :
    Except Failure DataFragment → FragmentCache → Prop
  | custom {text : String} (hcustom : r.custom.get? t = some text) :
      Provides r t c (DataFragment.parse t text .custom) c
  | unread {f : Fault} (hcustom : r.custom.get? t = none) (hread : c.read t = .error (.fault f)) :
      Provides r t c (.error (.fault f)) c
  | cached {text : String} (hcustom : r.custom.get? t = none) (hread : c.read t = .ok (some text)) :
      Provides r t c (DataFragment.parse t text .cache) c
  | refused {problem : FragmentProblem} (hcustom : r.custom.get? t = none) (hread : c.read t = .ok none)
      (hmade : r.generate t = .error (.fragment t problem)) :
      Provides r t c (.error (.fragment t problem)) c
  | made {f : DataFragment} {c' : FragmentCache} (hcustom : r.custom.get? t = none)
      (hread : c.read t = .ok none) (hmade : r.generate t = .ok f)
      (hwrite : c.write t f.text = (.ok (), c')) : Provides r t c (.ok f) c'
  | unwritten {f : DataFragment} {fault : Fault} {c' : FragmentCache} (hcustom : r.custom.get? t = none)
      (hread : c.read t = .ok none) (hmade : r.generate t = .ok f)
      (hwrite : c.write t f.text = (.error (.fault fault), c')) :
      Provides r t c (.error (.fault fault)) c'

/-- What was generated is the text of the generator, with a fragment of the type in it. -/
theorem generate_ok (h : r.generate t = .ok f) :
    IsName t ∧ f.source = .generated ∧ r.generator r.schema r.sourced t = .ok f.text
      ∧ DataFragment.parse t f.text .generated = .ok f := by
  unfold generate at h
  split at h
  next text hgen =>
    obtain ⟨hname, rfl, hsource⟩ := DataFragment.parse_ok h
    exact ⟨hname, hsource, hgen, h⟩
  next => cases h

/-- A fragment that cannot be generated is a problem of the type. -/
theorem generate_error {e : Failure} (h : r.generate t = .error e) :
    ∃ problem, e = .fragment t problem := by
  unfold generate at h
  split at h
  next => exact DataFragment.parse_error h
  next =>
    cases h
    exact ⟨_, rfl⟩

/-- The search for one type ends in one of the ways listed. -/
theorem provides_of_eq (h : r.provide t c = (x, c')) : r.Provides t c x c' := by
  -- the cases of `Provides` are the branches of the definition
  unfold provide at h
  split at h
  next text hcustom =>
    cases h
    exact .custom hcustom
  next hcustom =>
    split at h
    next e hread =>
      cases h
      unfold FragmentCache.read at hread
      split at hread
      next => cases hread
      next f hread' =>
        cases hread
        exact .unread hcustom (by rw [FragmentCache.read, hread'])
    next text hread =>
      cases h
      exact .cached hcustom hread
    next hread =>
      split at h
      next e hmade =>
        cases h
        obtain ⟨problem, rfl⟩ := generate_error hmade
        exact .refused hcustom hread hmade
      next f hmade =>
        obtain ⟨⟨kept, c₁⟩, hwrite⟩ : ∃ y, c.write t f.text = y := ⟨_, rfl⟩
        rw [hwrite] at h
        cases h
        cases kept with
        | ok _ => exact .made hcustom hread hmade hwrite
        | error e =>
            unfold FragmentCache.write at hwrite
            split at hwrite
            next => cases hwrite
            next fault disk hwrite' =>
              cases hwrite
              exact .unwritten hcustom hread hmade (by rw [FragmentCache.write, hwrite'])

/-- What becomes of a type: from the text that the store has for it before, the fragment that is found
for it, if any, and the text that the store has for it afterwards. -/
structure Provision (r : FragmentRequest) (t : String) (before : Option String)
    (fragment? : Option DataFragment) (after : Option String) : Prop where
  /-- A text that is there stays as it is. -/
  kept : ∀ text, before = some text → after = some text
  /-- A text comes to the store exactly if the caller has none, the generator returns it and it holds a
  fragment of the type. It is the text of the fragment that is found. -/
  gained_iff : before = none → ∀ text, after = some text ↔
    r.custom.get? t = none ∧ r.generator r.schema r.sourced t = .ok text
      ∧ ∃ f, DataFragment.parse t text .generated = .ok f ∧ fragment? = some f ∧ f.text = text
  /-- A fragment comes from the caller if there is a text of the caller, or else from the store if it
  had a text, or else it was generated. -/
  source_eq : ∀ f, fragment? = some f →
    f.source = if (r.custom.get? t).isSome then .custom else if before.isSome then .cache else .generated

/-- Looking for the fragment of a type leaves the entries of all others alone. -/
theorem Provides.entryOf_of_ne (h : r.Provides t c x c') (hu : u ≠ t) : c'.entryOf u = c.entryOf u := by
  cases h with
  | custom | unread | cached | refused => rfl
  | made _ _ hmade hwrite =>
      rw [(FragmentCache.entryOf_write (generate_ok hmade).1 hwrite).2, if_neg hu]
  | unwritten _ _ _ hwrite => exact FragmentCache.entryOf_write_error hwrite

/-- What is no problem of the type is a fault of the store. -/
theorem Provides.fails {e : Failure} (h : r.Provides t c (.error e) c')
    (hne : ∀ t problem, e ≠ .fragment t problem) : ∃ fault, e = .fault fault ∧ c.Fails t fault := by
  generalize hx : (.error e : Except Failure DataFragment) = x at h
  cases h with
  | custom | cached =>
      obtain ⟨problem, rfl⟩ := DataFragment.parse_error hx.symm
      exact absurd rfl (hne _ _)
  | refused =>
      cases hx
      exact absurd rfl (hne _ _)
  | unread _ hread =>
      cases hx
      exact ⟨_, rfl, .inl hread⟩
  | unwritten _ _ _ hwrite =>
      cases hx
      exact ⟨_, rfl, .inr ⟨_, congrArg Prod.fst hwrite⟩⟩
  | made => cases hx

/-- **What becomes of one type**, unless the store fails. -/
theorem Provides.provision (h : r.Provides t c x c') (hc : c.IsAccessible)
    (hx : ∀ fault, x ≠ .error (.fault fault)) :
    c'.IsAccessible ∧ r.Provision t (c.entryOf t) x.toOption (c'.entryOf t) := by
  -- only `made` changes the store, and only where it had no entry
  cases h with
  | @custom text hcustom =>
      refine ⟨hc, fun _ => id, fun hnone _ => ?_, fun f hf => ?_⟩
      · rw [hnone, hcustom]
        exact ⟨nofun, nofun⟩
      · rw [hcustom]
        exact (DataFragment.parse_ok (eq_ok_of_toOption hf)).2.2
  | unread => exact absurd rfl (hx _)
  | @cached text hcustom hread =>
      refine ⟨hc, fun _ => id, fun hnone _ => ?_, fun f hf => ?_⟩
      · refine ⟨fun hsome => ?_, fun ⟨_, _, f, hf, _⟩ => ?_⟩
        · cases hnone.symm.trans hsome
        · have hsome := FragmentCache.isSome_read hc (DataFragment.parse_ok hf).1 hread
          rw [hnone] at hsome
          cases hsome
      · obtain ⟨hname, -, hsource⟩ := DataFragment.parse_ok (eq_ok_of_toOption hf)
        rw [hcustom, ← FragmentCache.isSome_read hc hname hread]
        exact hsource
  | refused =>
      refine ⟨hc, fun _ => id, fun hnone _ => ?_, nofun⟩
      rw [hnone]
      exact ⟨nofun, fun ⟨_, _, _, _, hfound, _⟩ => nomatch hfound⟩
  | @made f c' hcustom hread hmade hwrite =>
      obtain ⟨hname, hsource, hgen, hparse⟩ := generate_ok hmade
      obtain ⟨hc', hentry⟩ := FragmentCache.entryOf_write hname hwrite
      have hnone : c.entryOf t = none := by
        have hsome := FragmentCache.isSome_read hc hname hread
        exact Option.isNone_iff_eq_none.mp (Option.isSome_eq_false_iff.mp hsome.symm)
      have hafter : c'.entryOf t = some f.text := (hentry t).trans (if_pos rfl)
      refine ⟨hc', fun text htext => ?_, fun _ text => ?_, fun g hg => ?_⟩
      · cases hnone.symm.trans htext
      · rw [hafter]
        constructor
        · rintro ⟨⟩
          exact ⟨hcustom, hgen, f, hparse, rfl, rfl⟩
        · rintro ⟨-, -, g, -, ⟨⟩, rfl⟩
          rfl
      · cases hg
        rw [hcustom, hnone]
        exact hsource
  | unwritten => exact absurd rfl (hx _)

/-- An entry of the store is left as it is. -/
theorem Provides.kept (h : r.Provides t c x c') (hc : c.IsAccessible) (hu : c.entryOf u = some text) :
    c'.entryOf u = some text := by
  cases h with
  | custom | unread | cached | refused => exact hu
  | @made f c' hcustom hread hmade hwrite =>
      by_cases hut : u = t
      · subst hut
        exact ((Provides.made hcustom hread hmade hwrite).provision hc nofun).2.kept text hu
      · rw [(Provides.made hcustom hread hmade hwrite).entryOf_of_ne hut]
        exact hu
  | unwritten _ _ _ hwrite =>
      rw [FragmentCache.entryOf_write_error hwrite]
      exact hu

/-- What is kept in memory stays in memory. -/
theorem Provides.memory {texts : Keyed String} (h : r.Provides t c x c') (hc : c.store = .memory texts) :
    ∃ texts', c'.store = .memory texts' := by
  cases h with
  | custom | unread | cached | refused => exact ⟨texts, hc⟩
  | made _ _ _ hwrite =>
      rw [FragmentCache.write, hc] at hwrite
      cases hwrite
      exact ⟨_, rfl⟩
  | unwritten _ _ _ hwrite =>
      rw [FragmentCache.write, hc] at hwrite
      cases hwrite

/-! ## All types

The types come one after the other, and the store goes from each to the next. -/

variable {ts : List String} {found found' : ResolvedFragments}

/-- After one type the search goes on with the others, unless the store failed for it. -/
theorem resolveAll_cases (r : FragmentRequest) (t : String) (found : ResolvedFragments)
    (c : FragmentCache) :
    (∃ x c₁, r.Provides t c x c₁ ∧ (∀ fault, x ≠ .error (.fault fault))
        ∧ ∀ ts, r.resolveAll (t :: ts) found c = r.resolveAll ts (found.record t x) c₁)
      ∨ ∃ fault c₁, r.Provides t c (.error (.fault fault)) c₁ ∧ c.Fails t fault
        ∧ ∀ ts, r.resolveAll (t :: ts) found c = (.error (.fault fault), c₁) := by
  obtain ⟨⟨x, c₁⟩, hp⟩ : ∃ y, r.provide t c = y := ⟨_, rfl⟩
  have hprovides := provides_of_eq hp
  cases x with
  | ok f =>
      refine .inl ⟨_, c₁, hprovides, by rintro _ ⟨⟩, fun ts => ?_⟩
      rw [resolveAll, hp]
      rfl
  | error e =>
      by_cases hne : ∀ t problem, e ≠ .fragment t problem
      · obtain ⟨fault, rfl, hfails⟩ := hprovides.fails hne
        refine .inr ⟨fault, c₁, hprovides, hfails, fun ts => ?_⟩
        rw [resolveAll, hp]
      · push Not at hne
        obtain ⟨t', problem, rfl⟩ := hne
        refine .inl ⟨_, c₁, hprovides, by rintro _ ⟨⟩, fun ts => ?_⟩
        rw [resolveAll, hp]
        rfl

/-- What becomes of each of different types, and of all others, when their fragments are looked for. -/
theorem provision_resolveAll (hn : ts.Nodup) (hc : c.IsAccessible)
    (hnone : ∀ t ∈ ts, found.fragments.get? t = none)
    (h : r.resolveAll ts found c = (.ok found', c')) :
    (∀ t ∈ ts, r.Provision t (c.entryOf t) (found'.fragments.get? t) (c'.entryOf t))
      ∧ ∀ u ∉ ts, c'.entryOf u = c.entryOf u := by
  induction ts generalizing found c with
  | nil =>
      cases h
      exact ⟨List.forall_mem_nil _, fun _ _ => rfl⟩
  | cons t ts ih =>
      obtain ⟨ht, hts⟩ := List.nodup_cons.mp hn
      have hne {u : String} (hu : u ∈ ts) : u ≠ t := by
        rintro rfl
        exact ht hu
      obtain ⟨x, c₁, hprovides, hx, heq⟩ | ⟨fault, c₁, -, -, heq⟩ := r.resolveAll_cases t found c
      · -- The first type is settled, the others find the store as it was for them.
        rw [heq] at h
        obtain ⟨hc₁, hprovision⟩ := hprovides.provision hc hx
        have hnone₁ : ∀ u ∈ ts, (found.record t x).fragments.get? u = none := by
          intro u hu
          rw [ResolvedFragments.get?_fragments_record, if_neg (hne hu)]
          exact hnone u (.tail t hu)
        obtain ⟨hin, hout⟩ := ih hts hc₁ hnone₁ h
        refine ⟨List.forall_mem_cons.mpr ⟨?_, fun u hu => ?_⟩, fun u hu => ?_⟩
        · rw [(resolveAll_of_not_mem h ht).1, ResolvedFragments.get?_fragments_record, if_pos rfl,
            hnone t List.mem_cons_self, Option.or_none, hout t ht]
          exact hprovision
        · rw [← hprovides.entryOf_of_ne (hne hu)]
          exact hin u hu
        · obtain ⟨hut, huts⟩ := not_or.mp (List.mem_cons.not.mp hu)
          rw [hout u huts, hprovides.entryOf_of_ne hut]
      · cases (heq ts).symm.trans h

/-- Looking for fragments ends early only when the store fails for a type, after those before it have been
settled. -/
theorem fault_resolveAll {e : Failure} (h : r.resolveAll ts found c = (.error e, c')) :
    ∃ fault before t after found₁ c₁, e = .fault fault ∧ ts = before ++ t :: after
      ∧ r.resolveAll before found c = (.ok found₁, c₁) ∧ c₁.Fails t fault := by
  induction ts generalizing found c with
  | nil => cases h
  | cons t ts ih =>
      obtain ⟨x, c₁, -, -, heq⟩ | ⟨fault, c₁, -, hfails, heq⟩ := r.resolveAll_cases t found c
      · obtain ⟨fault, before, u, after, found₂, c₂, rfl, rfl, hbefore, hfails⟩ := ih (heq ts ▸ h)
        exact ⟨fault, t :: before, u, after, found₂, c₂, rfl, rfl, (heq before).trans hbefore, hfails⟩
      · cases (heq ts).symm.trans h
        exact ⟨fault, [], t, ts, found, c, rfl, rfl, rfl, hfails⟩

/-- Whatever ends it, looking for fragments changes no text that the store has. -/
theorem kept_resolveAll {y : Except Failure ResolvedFragments} (hc : c.IsAccessible)
    (h : r.resolveAll ts found c = (y, c')) (hu : c.entryOf u = some text) :
    c'.entryOf u = some text := by
  induction ts generalizing found c with
  | nil =>
      cases h
      exact hu
  | cons t ts ih =>
      obtain ⟨x, c₁, hprovides, hx, heq⟩ | ⟨fault, c₁, hprovides, -, heq⟩ :=
        r.resolveAll_cases t found c
      · exact ih (hprovides.provision hc hx).1 (heq ts ▸ h) (hprovides.kept hc hu)
      · cases (heq ts).symm.trans h
        exact hprovides.kept hc hu

/-- In memory nothing can fail. -/
theorem resolveAll_memory {texts : Keyed String} (hc : c.store = .memory texts) :
    ∃ found', (r.resolveAll ts found c).1 = .ok found' := by
  induction ts generalizing found c texts with
  | nil => exact ⟨found, rfl⟩
  | cons t ts ih =>
      obtain ⟨x, c₁, hprovides, -, heq⟩ | ⟨fault, c₁, -, hfails, -⟩ := r.resolveAll_cases t found c
      · obtain ⟨texts₁, hc₁⟩ := hprovides.memory hc
        rw [heq]
        exact ih hc₁
      · exact absurd hfails (FragmentCache.not_fails_memory hc)

end FragmentRequest

/-- **Finding fragments settles every type and overwrites nothing.** -/
theorem resolveFragments_provides (s : Schema) (custom : Keyed String) (generator : FragmentGenerator)
    {types : List String} {c : FragmentCache} (hn : types.Nodup) (hc : c.IsAccessible) :
    (∀ found c', resolveFragments s types custom generator c = (.ok found, c') →
      (∀ t ∈ types, found.Settles t ∧ FragmentRequest.Provision ⟨s, types, custom, generator⟩ t
        (c.entryOf t) (found.fragments.get? t) (c'.entryOf t))
      ∧ ∀ t ∉ types, found.contains t = false ∧ found.failures.contains t = false
        ∧ c'.entryOf t = c.entryOf t)
    ∧ (∀ e c', resolveFragments s types custom generator c = (.error e, c') →
      (∃ fault before t after found c₁, e = .fault fault ∧ types = before ++ t :: after
        ∧ FragmentRequest.resolveAll ⟨s, types, custom, generator⟩ before .empty c = (.ok found, c₁)
        ∧ c₁.Fails t fault)
      ∧ ∀ t text, c.entryOf t = some text → c'.entryOf t = some text)
    ∧ ∀ texts, c.store = .memory texts →
      ∃ found, (resolveFragments s types custom generator c).1 = .ok found := by
  refine ⟨fun found c' h => ?_, fun e c' h => ?_, fun texts htexts => ?_⟩
  · obtain ⟨hin, hout⟩ := FragmentRequest.provision_resolveAll hn hc (fun _ _ => rfl) h
    have hsettles := FragmentRequest.settles_resolveAll hn (fun _ _ => ⟨rfl, rfl⟩) h
    refine ⟨fun t ht => ⟨hsettles t ht, hin t ht⟩, fun t ht => ?_⟩
    obtain ⟨hf, hp⟩ := FragmentRequest.resolveAll_of_not_mem h ht
    refine ⟨?_, ?_, hout t ht⟩
    · rw [ResolvedFragments.contains, Keyed.contains, hf]
      rfl
    · rw [Keyed.contains, hp]
      rfl
  · exact ⟨FragmentRequest.fault_resolveAll h, fun t text => FragmentRequest.kept_resolveAll hc h⟩
  · exact FragmentRequest.resolveAll_memory htexts

/-! ## A text that was edited by hand -/

namespace Sample

def edited : String := "fragment Node on Node \x7b entityId \x7d"

/-- Makes a fragment with one field for every type. -/
def titles : FragmentGenerator := fun _ _ t =>
  .ok ("fragment " ++ t ++ " on " ++ t ++ " \x7b title \x7d")

/-- The store at a path, on a disk with an edited text in the working directory and one in `fragments`. -/
def cacheAt (path : String) : FragmentCache :=
  { store := .directory (.ofString path)
    disk := ⟨[(⟨false, ["Node.graphql"]⟩, edited), (⟨false, ["fragments", "Node.graphql"]⟩, edited)],
      [⟨false, ["fragments"]⟩]⟩ }

theorem found_isSome :
    (resolveFragments default ["Node", "Term"] .empty titles (cacheAt "fragments")).1.toOption.isSome
      = true := by
  decide +kernel

/-- In a directory that is there, the edited text stays. -/
theorem edited_fragment_kept :
    ∃ found c', resolveFragments default ["Node", "Term"] .empty titles (cacheAt "fragments")
        = (.ok found, c')
      ∧ (∀ t ∈ ["Node", "Term"], found.Settles t) ∧ c'.entryOf "Node" = some edited := by
  have haccessible : (cacheAt "fragments").IsAccessible :=
    .inl ⟨"any", ⟨false, ["fragments", "any"]⟩, by decide +kernel⟩
  have hkept : (cacheAt "fragments").entryOf "Node" = some edited := by decide +kernel
  have hsome := found_isSome
  obtain ⟨⟨x, c'⟩, hx⟩ : ∃ y, resolveFragments default ["Node", "Term"] .empty titles
    (cacheAt "fragments") = y := ⟨_, rfl⟩
  rw [hx] at hsome
  cases x with
  | error e => cases hsome
  | ok found =>
      obtain ⟨hin, -⟩ :=
        (resolveFragments_provides default .empty titles (by decide) haccessible).1 found c' hx
      exact ⟨found, c', hx, fun t ht => (hin t ht).1, (hin "Node" List.mem_cons_self).2.kept edited hkept⟩

/-- Where the way to the directory leads through one that is not made yet, the edited text is lost. -/
theorem edited_fragment_lost :
    (cacheAt "build/..").entryOf "Node" = some edited
      ∧ (resolveFragments default ["Node"] .empty titles (cacheAt "build/..")).2.entryOf "Node"
        = some "fragment Node on Node \x7b title \x7d" := by
  decide +kernel

end Sample

end Harvest
