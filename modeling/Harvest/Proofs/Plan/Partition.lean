import Harvest.Proofs.Plan.Coherence

/-!
# Types with and without a fragment

Every type of a plan has a fragment or a failure that says why it has none, and never both.
`Plan.Partitioned` says what this means for a run: a type is sourced exactly if its fragment did not
fail, and the report on any other type gives its failure and nothing else.

The two maps are filled by one search, type by type, and each step puts the type into exactly one of them.
With types that are all different no step undoes another, so the partition is kept by an induction on the
types.
-/

namespace Harvest

/-! ## Looking for fragments

One step of the search and then all of them. -/

/-- Whether a type has either a fragment or a failure. -/
def ResolvedFragments.Settles (found : ResolvedFragments) (typeName : String) : Prop :=
  found.contains typeName = !found.failures.contains typeName

namespace FragmentRequest

variable {r : FragmentRequest} {ts : List String} {t : String} {found found' : ResolvedFragments}
  {c c' : FragmentCache}

/-- What looking for the fragment of a type comes to, unless it ends all of it. -/
theorem resolveAll_cons (h : r.resolveAll (t :: ts) found c = (.ok found', c')) :
    ∃ found₁ c₁, r.resolveAll ts found₁ c₁ = (.ok found', c')
      ∧ ((∃ f, found₁ = { found with fragments := found.fragments.insert t f })
        ∨ ∃ p, found₁ = { found with failures := found.failures.insert t p }) := by
  rw [resolveAll] at h
  split at h
  next f c₁ _ => exact ⟨_, c₁, h, .inl ⟨f, rfl⟩⟩
  next p c₁ _ => exact ⟨_, c₁, h, .inr ⟨p, rfl⟩⟩
  next => cases h

/-- Looking for the fragments of some types leaves all others as they were. -/
theorem resolveAll_of_not_mem (h : r.resolveAll ts found c = (.ok found', c')) (ht : t ∉ ts) :
    found'.fragments.get? t = found.fragments.get? t
      ∧ found'.failures.get? t = found.failures.get? t := by
  induction ts generalizing found c with
  | nil =>
      cases h
      exact ⟨rfl, rfl⟩
  | cons u ts ih =>
      obtain ⟨hu, hts⟩ := not_or.mp (List.mem_cons.not.mp ht)
      obtain ⟨found₁, c₁, h₁, ⟨f, rfl⟩ | ⟨p, rfl⟩⟩ := resolveAll_cons h
      · obtain ⟨hf, hp⟩ := ih h₁ hts
        rw [Keyed.get?_insert, if_neg hu] at hf
        exact ⟨hf, hp⟩
      · obtain ⟨hf, hp⟩ := ih h₁ hts
        rw [Keyed.get?_insert, if_neg hu] at hp
        exact ⟨hf, hp⟩

/-- **Each of different types is settled** after its fragment was looked for. -/
theorem settles_resolveAll (hn : ts.Nodup)
    (hnone : ∀ t ∈ ts, found.fragments.get? t = none ∧ found.failures.get? t = none)
    (h : r.resolveAll ts found c = (.ok found', c')) : ∀ t ∈ ts, found'.Settles t := by
  induction ts generalizing found c with
  | nil => exact List.forall_mem_nil _
  | cons u ts ih =>
      obtain ⟨hu, hts⟩ := List.nodup_cons.mp hn
      obtain ⟨hfu, hpu⟩ := hnone u List.mem_cons_self
      have hne {t : String} (ht : t ∈ ts) : t ≠ u := by
        rintro rfl
        exact hu ht
      obtain ⟨found₁, c₁, h₁, ⟨f, rfl⟩ | ⟨p, rfl⟩⟩ := resolveAll_cons h
      · refine List.forall_mem_cons.mpr ⟨?_, ih hts (fun t ht => ?_) h₁⟩
        · obtain ⟨hf, hp⟩ := resolveAll_of_not_mem h₁ hu
          rw [Keyed.get?_insert, if_pos rfl] at hf
          rw [ResolvedFragments.Settles, ResolvedFragments.contains, Keyed.contains, Keyed.contains,
            hf, hp, hpu]
          rfl
        · rw [Keyed.get?_insert, if_neg (hne ht)]
          exact hnone t (List.mem_cons_of_mem u ht)
      · refine List.forall_mem_cons.mpr ⟨?_, ih hts (fun t ht => ?_) h₁⟩
        · obtain ⟨hf, hp⟩ := resolveAll_of_not_mem h₁ hu
          rw [Keyed.get?_insert, if_pos rfl] at hp
          rw [ResolvedFragments.Settles, ResolvedFragments.contains, Keyed.contains, Keyed.contains,
            hf, hp, hfu]
          rfl
        · rw [Keyed.get?_insert, if_neg (hne ht)]
          exact hnone t (List.mem_cons_of_mem u ht)

/-- The fragments that are found for different types come in the order of the types. -/
theorem keys_resolveAll (hn : ts.Nodup) (hnone : ∀ t ∈ ts, found.fragments.get? t = none)
    (h : r.resolveAll ts found c = (.ok found', c')) :
    found'.fragments.keys = found.fragments.keys ++ ts.filter found'.contains := by
  -- on the types still to settle, none of which has a fragment yet
  induction ts generalizing found c with
  | nil =>
      cases h
      exact (List.append_nil _).symm
  | cons u ts ih =>
      obtain ⟨hu, hts⟩ := List.nodup_cons.mp hn
      have hne {t : String} (ht : t ∈ ts) : t ≠ u := by
        rintro rfl
        exact hu ht
      have hnew : u ∉ found.fragments.keys := by
        rw [← Keyed.contains_iff_mem_keys, Keyed.contains, hnone u List.mem_cons_self]
        exact Bool.false_ne_true
      obtain ⟨found₁, c₁, h₁, ⟨f, rfl⟩ | ⟨p, rfl⟩⟩ := resolveAll_cons h
      · have hkeys := ih hts (fun t ht => by
          rw [Keyed.get?_insert, if_neg (hne ht)]
          exact hnone t (List.mem_cons_of_mem u ht)) h₁
        have hin : found'.contains u = true := by
          rw [ResolvedFragments.contains, Keyed.contains, (resolveAll_of_not_mem h₁ hu).1,
            Keyed.get?_insert, if_pos rfl]
          rfl
        rw [hkeys, Keyed.keys_insert, if_neg hnew, List.filter_cons_of_pos hin, List.append_assoc]
        rfl
      · have hkeys := ih hts (by exact fun t ht => hnone t (List.mem_cons_of_mem u ht)) h₁
        have hout : ¬found'.contains u = true := by
          rw [ResolvedFragments.contains, Keyed.contains, (resolveAll_of_not_mem h₁ hu).1,
            hnone u List.mem_cons_self]
          exact Bool.false_ne_true
        rw [hkeys, List.filter_cons_of_neg hout]

end FragmentRequest

/-! ## Plans

From the two maps to the node definitions and the report. -/

/-- Whether the types of a plan have different names, and a node definition each unless their fragment
failed. -/
structure Plan.Partitioned (p : Plan) : Prop where
  nodup : (p.descriptors.map Descriptor.typeName).Nodup
  node_iff : ∀ c ∈ p.descriptors,
    (∃ d ∈ p.nodes.values, d.descriptor = c) ↔ p.fragments.failures.get? c.typeName = none

namespace Plan

variable {π : Type} {o : Order π} {p : Plan}

theorem Completed.partitioned (h : p.Completed o) : p.Partitioned := by
  obtain ⟨s, found, cache, cache', hfound, listings, -, hc⟩ := h
  have hn : ((entityTypes s o.config.languages).map Descriptor.typeName).Nodup :=
    distinctTypes_nodup _
  have hsettled := FragmentRequest.settles_resolveAll hn (fun _ _ => ⟨rfl, rfl⟩) hfound
  obtain ⟨documents, hdocs, hc⟩ := bind_ok hc
  cases hc
  have hsub : (compilable (entityTypes s o.config.languages) found).Sublist
      (entityTypes s o.config.languages) := List.filter_sublist
  have hn' := hn.sublist (hsub.map Descriptor.typeName)
  obtain ⟨-, hdoc⟩ := get?_of_mapM hn' hdocs
  refine ⟨hn, fun c hc => ?_⟩
  have hnode : (∃ d ∈ (NodeDefinition.ofDocuments o.config.typePrefix.display
      (compilable (entityTypes s o.config.languages) found) documents).values, d.descriptor = c)
      ↔ found.contains c.typeName = true := by
    constructor
    · rintro ⟨e, he, rfl⟩
      obtain ⟨d, hd, doc, -, rfl⟩ := (NodeDefinition.mem_ofDocuments hn').mp he
      exact (List.mem_filter.mp hd).2
    · intro hf
      have hmem : c ∈ compilable (entityTypes s o.config.languages) found :=
        List.mem_filter.mpr ⟨hc, hf⟩
      obtain ⟨doc, hget, -⟩ := hdoc c hmem
      exact ⟨_, (NodeDefinition.mem_ofDocuments hn').mpr ⟨c, hmem, doc, hget, rfl⟩, rfl⟩
  rw [hnode, hsettled c.typeName (List.mem_map_of_mem hc), Keyed.contains, Bool.not_eq_true',
    Option.isSome_eq_false_iff, Option.isNone_iff_eq_none]

/-- **Every plan is partitioned**, whatever it was made from. -/
theorem prepare_partitioned {σ : Type} {site : Site σ} {st : σ}
    (h : (prepare site o st).1 = .ok p) : p.Partitioned := (prepare_completed h).partitioned

namespace Partitioned

/-! ### What a partition says of a type -/

/-- Nothing is sourced under the name of a type whose fragment failed. -/
theorem typeName_ne (h : p.Partitioned) (hp : p.Coherent) {c : Descriptor} (hc : c ∈ p.descriptors)
    {problem : FragmentProblem} (hf : p.fragments.failures.get? c.typeName = some problem) :
    ∀ d ∈ p.nodes.values, d.typeName ≠ c.typeName := by
  intro d hd hname
  have hdc : d.descriptor = c := List.inj_on_of_nodup_map h.nodup (hp.descriptor_mem d hd) hc hname
  cases hf.symm.trans ((h.node_iff c hc).mp ⟨d, hd, hdc⟩)

end Partitioned

/-- The reason for which a type is left out is its failure. -/
theorem lookup_skipped (p : Plan) (typeName : String) :
    p.skipped.lookup typeName = (p.fragments.failures.get? typeName).map fun problem =>
      Failure.message (.fragment typeName problem) := by
  rw [skipped, Keyed.get?]
  induction p.fragments.failures.entries with
  | nil => rfl
  | cons f fs ih =>
      rw [List.map_cons, List.lookup_cons, Keyed.find]
      by_cases h : f.1 = typeName
      · subst h
        rw [if_pos rfl, beq_self_eq_true]
        rfl
      · rw [if_neg h, beq_eq_false_iff_ne.mpr fun he => h he.symm]
        exact ih

end Plan

end Harvest
