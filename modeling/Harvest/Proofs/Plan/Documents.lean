import Harvest.Entity.Compilation
import Harvest.Proofs.Basic

/-!
# Compiled documents

A document that was compiled with a schema at hand has an operation for each of its languages. As it
was found valid, no two of its operations go by the same name, so no language was given twice.

The names of the operations are kept in a map by language. Where two languages were equal, or two operations
had one name, the map would have fewer entries than there are operations, and the check has a rule against
it: an operation name may not be used twice. The module goes from the verdict of the check back to the
names.
-/

namespace Harvest

/-! ## Maps from lists of pairs

As long as the keys are different, a map is the list that it was filled from. -/

namespace Keyed

variable {α : Type}

theorem put_of_not_mem {key : String} {es : List (String × α)} (h : key ∉ es.map (·.1)) (a : α) :
    put key a es = es ++ [(key, a)] := by
  induction es with
  | nil => rfl
  | cons e es ih =>
      obtain ⟨hk, hes⟩ := not_or.mp (List.mem_cons.not.mp h)
      rw [put, if_neg fun he : e.1 = key => hk he.symm, ih hes]
      rfl

/-- Pairs with different keys are the entries of their map. -/
theorem entries_ofList {pairs : List (String × α)} (h : (pairs.map (·.1)).Nodup) :
    (ofList pairs).entries = pairs := by
  have go (m : Keyed α) (hm : ((m.entries ++ pairs).map (·.1)).Nodup) :
      (pairs.foldl (fun m p => m.insert p.1 p.2) m).entries = m.entries ++ pairs := by
    clear h
    induction pairs generalizing m with
    | nil => exact (List.append_nil _).symm
    | cons p pairs ih =>
        have hp : p.1 ∉ m.entries.map (·.1) := by
          intro hp
          rw [List.map_append, List.map_cons] at hm
          exact (List.nodup_append.mp hm).2.2 p.1 hp p.1 List.mem_cons_self rfl
        have he : (m.insert p.1 p.2).entries = m.entries ++ [p] := put_of_not_mem hp p.2
        rw [List.foldl_cons, ih, he, List.append_assoc]
        · rfl
        · rw [he, List.append_assoc]
          exact hm
  exact go empty h

theorem find_of_mem {key : String} {a : α} {es : List (String × α)} (hn : (es.map (·.1)).Nodup)
    (h : (key, a) ∈ es) : find key es = some a := by
  induction es with
  | nil => cases h
  | cons e es ih =>
      obtain ⟨he, hes⟩ := List.nodup_cons.mp hn
      rcases List.mem_cons.mp h with rfl | h
      · exact if_pos rfl
      · have hne : e.1 ≠ key := by
          rintro rfl
          exact he (List.mem_map.mpr ⟨_, h, rfl⟩)
        rw [find, if_neg hne]
        exact ih hes h

/-- Among pairs with different keys, each gives the value of its key. -/
theorem get?_ofList {pairs : List (String × α)} (hn : (pairs.map (·.1)).Nodup) {key : String} {a : α}
    (h : (key, a) ∈ pairs) : (ofList pairs).get? key = some a := by
  rw [get?, entries_ofList hn]
  exact find_of_mem hn h

end Keyed

/-! ## Operations of valid documents

The rule for operation names, and what it says about a document in which it finds nothing. -/

namespace GraphQL

/-- The names of the operations of a document. -/
def Document.operationNames (d : Document) : List String :=
  (Document.operations d).filterMap Operation.name

/-! ### Violations

Validation collects what it finds, and may stop early when there is too much of it. A valid document is one
for which nothing was found, so that in particular no name was found to be taken. -/

/-- If the search did not end early, it kept every violation that was found. -/
theorem settle_violation {s : Schema} {d : Document} {findings : List Finding} {v : Violation}
    (h : .violation v ∈ findings) (c : Overlap.Compared)
    (he : ((settle s d findings).run c).1.2 = none) : v ∈ ((settle s d findings).run c).1.1 := by
  induction findings generalizing c with
  | nil => cases h
  | cons f rest ih =>
      cases f with
      | violation u =>
          rcases List.mem_cons.mp h with hv | h
          · cases hv
            exact List.mem_cons_self
          · exact List.mem_cons_of_mem u (ih h c he)
      | stuck e => cases he
      | compare parent place ss =>
          have hrest := (List.mem_cons.mp h).resolve_left Finding.noConfusion
          exact List.mem_append_right _ (ih hrest _ he)

/-- A document without violations has none among its findings. -/
theorem no_violation_found {s : Schema} {d : Document} (h : Document.violations s d = .ok [])
    (v : Violation) : .violation v ∉ Check.document s d := by
  intro hv
  obtain ⟨⟨⟨vs, e⟩, c⟩, hx⟩ : ∃ x, (settle s d (Check.document s d)).run [] = x := ⟨_, rfl⟩
  -- A search that ended early has an error as its result, so this one did not.
  have hvs : e = none → v ∈ vs := by
    have := settle_violation (s := s) (d := d) hv []
    rw [hx] at this
    exact this
  rw [Document.violations, hx] at h
  dsimp only at h
  split at h
  next => exact List.append_ne_nil_of_right_ne_nil _ (List.cons_ne_nil _ _) (Except.ok.inj h)
  next =>
    cases e with
    | some e => cases h
    | none =>
        cases h
        exact List.not_mem_nil (hvs rfl)

theorem Document.operationNames_append (d e : Document) :
    operationNames (d ++ e) = operationNames d ++ operationNames e := by
  rw [operationNames, operations, List.filterMap_append, List.filterMap_append]
  rfl

/-- An operation whose name was not found to be taken has a name of its own. -/
theorem names_nodup_snoc {d before : Document} {o : Operation}
    (h : Check.operationName d before o = []) (hb : (Document.operationNames before).Nodup) :
    (Document.operationNames (before ++ [.operation o])).Nodup := by
  rw [Document.operationNames_append]
  unfold Check.operationName at h
  cases ho : o.name with
  | none =>
      have hnone : Document.operationNames [.operation o] = [] := by
        show [o].filterMap Operation.name = []
        rw [List.filterMap_cons_none ho, List.filterMap_nil]
      rw [hnone, List.append_nil]
      exact hb
  | some n =>
      have hsome : Document.operationNames [.operation o] = [n] := by
        show [o].filterMap Operation.name = [n]
        rw [List.filterMap_cons_some ho, List.filterMap_nil]
      rw [ho] at h
      dsimp only at h
      split at h
      next => cases h
      next hn =>
        rw [hsome, List.nodup_append]
        refine ⟨hb, List.nodup_singleton n, ?_⟩
        rintro m hm _ hn' rfl
        cases List.mem_singleton.mp hn'
        obtain ⟨p, hp, hpn⟩ := List.mem_filterMap.mp hm
        exact hn (List.any_eq_true.mpr ⟨p, hp, by rw [hpn, beq_self_eq_true]⟩)

theorem definitions_names {s : Schema} {d before xs : Document} {cycles : List (List Spreads.Cycle)}
    (h : ∀ v, .violation v ∉ Check.definitions s d before cycles xs)
    (hb : (Document.operationNames before).Nodup) :
    (Document.operationNames (before ++ xs)).Nodup := by
  induction xs generalizing before cycles with
  | nil =>
      rw [List.append_nil]
      exact hb
  | cons x xs ih =>
      rw [List.append_cons]
      -- What is no operation has no name among them.
      have hskip (hx : x.operation? = none) :
          (Document.operationNames (before ++ [x])).Nodup := by
        rw [Document.operationNames_append, Document.operationNames, Document.operationNames,
          Document.operations, Document.operations, List.filterMap_cons_none hx]
        rw [List.filterMap_nil, List.filterMap_nil, List.append_nil]
        exact hb
      cases x with
      | operation o =>
          have hsplit (v : Violation) := List.mem_append.not.mp (h v)
          have hname : Check.operationName d before o = [] := by
            refine List.eq_nil_iff_forall_not_mem.mpr fun v hv => hsplit v (.inl ?_)
            have hmem : Finding.violation v ∈ Finding.ofList (Check.operationName d before o) :=
              List.mem_map_of_mem hv
            exact List.mem_append_left _ (List.mem_append_left _ (List.mem_append_left _
              (List.mem_append_left _ hmem)))
          exact ih (fun v hv => (hsplit v) (.inr hv)) (names_nodup_snoc hname hb)
      | fragment f =>
          have hsplit (v : Violation) := List.mem_append.not.mp (h v)
          exact ih (fun v hv => (hsplit v) (.inr hv)) (hskip rfl)
      | typeSystem => exact ih h (hskip rfl)

/-- **No two operations of a valid document go by the same name.** -/
theorem operationNames_nodup {s : Schema} {d : Document} (h : Document.violations s d = .ok []) :
    (Document.operationNames d).Nodup := by
  have hd (v : Violation) := List.mem_append.not.mp (no_violation_found h v)
  show (Document.operationNames ([] ++ d)).Nodup
  exact definitions_names (fun v hv => hd v (.inl hv)) List.nodup_nil

end GraphQL

/-! ## Listings -/

open GraphQL

/-- Whether a listing is the one of a type in a language. -/
def ListingQuery.IsFor (q : ListingQuery) (typeName l : String) : Prop :=
  q.language = l
    ∧ ∃ o, q.definition = .operation o ∧ o.name = some (Descriptor.operationName typeName l)

/-- There is a listing for every language. -/
theorem Listing.queries_isFor {s : Schema} {filter : ListingFilter} {d : Descriptor}
    {ls : List String} {qs : List ListingQuery} (h : queries s filter d ls = .ok qs) :
    List.Forall₂ (fun l q => q.IsFor d.typeName l) ls qs := by
  apply (mapM_ok h).imp
  intro l q hq
  obtain ⟨literal, -, hq⟩ := bind_ok hq
  cases hq
  exact ⟨rfl, operation s d l literal, rfl, rfl⟩

namespace Compilation

variable {typeName : String} {ls : List String} {qs : List ListingQuery}

/-! ### Listings in a document

Merging goes from listings to operations and keeps their names, so a document has an operation for every
language that its type is listed in. -/

/-- A spread changes the selections of an operation only. -/
theorem merge_operation {o : Operation} {fragment : String} {m : Definition}
    (h : merge (.operation o) fragment = .ok m) : ∃ ss, m = .operation { o with selections := ss } := by
  unfold merge at h
  dsimp only [Definition.selections?] at h
  split at h
  next => cases h
  next ss _ =>
    cases h
    exact ⟨ss, rfl⟩
  next => cases h
  next => cases h

theorem merged_names {fragment : String} {merged : List Definition}
    (hq : List.Forall₂ (fun l q => q.IsFor typeName l) ls qs)
    (h : qs.mapM (fun q => merge q.definition fragment) = .ok merged) :
    Document.operationNames merged = ls.map (Descriptor.operationName typeName) := by
  have hm := mapM_ok h
  clear h
  induction hq generalizing merged with
  | nil =>
      cases hm
      rfl
  | @cons l q ls qs hl hq ih =>
      cases hm with
      | @cons _ m _ ms hm hms =>
          obtain ⟨-, o, hd, hn⟩ := hl
          rw [hd] at hm
          obtain ⟨ss, rfl⟩ := merge_operation hm
          show Document.operationNames ([.operation { o with selections := ss }] ++ ms) = _
          rw [Document.operationNames_append, ih hms]
          have hn' : ({ o with selections := ss } : Operation).name
              = some (Descriptor.operationName typeName l) := hn
          show ([({ o with selections := ss } : Operation)].filterMap Operation.name) ++ _ = _
          rw [List.filterMap_cons_some hn', List.filterMap_nil]
          rfl

theorem operationsOf_listings {operations : Keyed String}
    (hq : List.Forall₂ (fun l q => q.IsFor typeName l) ls qs)
    (h : operationsOf qs = .ok operations) :
    operations = .ofList (ls.map fun l => (l, Descriptor.operationName typeName l)) := by
  obtain ⟨pairs, hp, he⟩ := bind_ok h
  cases he
  have hm := mapM_ok hp
  clear hp h
  refine congrArg Keyed.ofList ?_
  induction hq generalizing pairs with
  | nil =>
      cases hm
      rfl
  | @cons l q ls qs hl hq ih =>
      cases hm with
      | @cons _ pair _ pairs hm hms =>
          obtain ⟨hlang, o, hd, hn⟩ := hl
          have hname : q.operationName? = some (Descriptor.operationName typeName l) := by
            rw [ListingQuery.operationName?, hd]
            exact hn
          rw [hname, hlang] at hm
          cases hm
          rw [ih pairs hms, List.map_cons]

theorem validate_ok {s : Schema} {d : Document} (h : validate s typeName d = .ok ()) :
    Document.violations s d = .ok [] := by
  unfold validate at h
  split at h
  next =>
    split at h
    next => cases h
    next hv => exact hv
    next => cases h
  next => cases h

end Compilation

/-- Whether a document is one for a type: it has an operation for each of different languages. -/
structure CompiledDocument.IsFor (doc : CompiledDocument) (d : Descriptor) : Prop where
  typeName_eq : doc.typeName = d.typeName
  queryField_eq : doc.queryField = d.queryField
  nodup : d.languages.Nodup
  operation_eq : ∀ l ∈ d.languages,
    doc.operations.get? l = some (Descriptor.operationName d.typeName l)

/-- **A document that was found valid is one for its type.** -/
theorem Compilation.compileType_isFor {s : Schema} {d : Descriptor} {qs : List ListingQuery}
    {identity : Fragment} {data : DataFragment} {doc : CompiledDocument}
    (hq : List.Forall₂ (fun l q => q.IsFor d.typeName l) d.languages qs)
    (h : compileType (some s) d qs identity data = .ok doc) : doc.IsFor d := by
  obtain ⟨merged, hmerged, h⟩ := bind_ok h
  dsimp only at h
  obtain ⟨_, hvalid, h⟩ := bind_ok h
  obtain ⟨operations, hops, h⟩ := bind_ok h
  cases h
  -- The name of an operation is made from its language, so languages given twice make names taken twice.
  have hnodup : d.languages.Nodup := by
    refine List.Nodup.of_map (Descriptor.operationName d.typeName) ?_
    have hall := operationNames_nodup (validate_ok hvalid)
    rw [Document.operationNames_append, merged_names hq hmerged] at hall
    exact (List.nodup_append.mp hall).1
  refine ⟨rfl, rfl, hnodup, ?_⟩
  intro l hl
  show operations.get? l = _
  rw [operationsOf_listings hq hops]
  refine Keyed.get?_ofList ?_ (List.mem_map.mpr ⟨l, hl, rfl⟩)
  rw [List.map_map]
  exact (List.map_id d.languages).symm ▸ hnodup

end Harvest
