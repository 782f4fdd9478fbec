import Harvest.GraphQL.Validation

/-!
# Documents that can be checked

The check of a document can end without a verdict, but only for one reason: the directives at the root of
a subscription have to be evaluated, and one of them cannot be. So every document without subscriptions
has a verdict, against any schema (`Document.exists_violations`).

A search without a verdict leaves a finding that says so. `Conclusive` findings have none, which is
followed from the selections up to the document.
-/

namespace Harvest.GraphQL

/-! ## Findings

What the rules find, one by one. Only one of the findings ends the search. -/

/-- Whether no finding ends the search. -/
def Conclusive (findings : List Finding) : Prop := ∀ e, .stuck e ∉ findings

namespace Conclusive

variable {fs gs : List Finding}

@[simp] theorem nil : Conclusive [] := fun _ => List.not_mem_nil

@[simp] theorem ofList (vs : List Violation) : Conclusive (Finding.ofList vs) := by
  intro e he
  obtain ⟨v, -, hv⟩ := List.mem_map.mp he
  cases hv

@[simp] theorem append_iff : Conclusive (fs ++ gs) ↔ Conclusive fs ∧ Conclusive gs := by
  simp only [Conclusive, List.mem_append, not_or, forall_and]

@[simp] theorem compare_cons_iff {parent : Option TypeDef} {place : Overlap.Place}
    {ss : List Selection} : Conclusive (.compare parent place ss :: fs) ↔ Conclusive fs := by
  simp only [Conclusive, List.mem_cons, reduceCtorEq, false_or]

/-- After findings of which none ends the search, the search did not end. -/
theorem settle {s : Schema} {d : Document} (h : Conclusive fs) (c : Overlap.Compared) :
    ((settle s d fs).run c).1.2 = none := by
  induction fs generalizing c with
  | nil => rfl
  | cons f rest ih =>
      have hrest : Conclusive rest := fun e he => h e (List.mem_cons_of_mem f he)
      cases f with
      | violation v => exact ih hrest c
      | stuck e => exact absurd List.mem_cons_self (h e)
      | compare parent place ss => exact ih hrest _

end Conclusive

/-! ## Selections

Nothing that a rule finds within selections ends the search. -/

namespace Check

variable {s : Schema} {d before : Document} {o : Operation}

mutual

/-- A selection is checked to its end. -/
theorem selection_conclusive (sc : Scope) (place : Overlap.Place) (x : Selection) :
    Conclusive (selection d sc place x) := by
  match x with
  | .field label name args ds inner =>
      simp [selection, selectionSet_conclusive _ place inner]
  | .spread name ds => simp [selection]
  | .inline on ds inner => simp [selection, selections_conclusive _ place 0 inner]

/-- So are selections, one after the other. -/
theorem selections_conclusive (sc : Scope) (place : Overlap.Place) (i : Nat) (xs : List Selection) :
    Conclusive (selections d sc place i xs) := by
  match xs with
  | [] => simp [selections]
  | x :: xs =>
      simp [selections, selection_conclusive sc (i :: place) x, selections_conclusive sc place (i + 1) xs]

theorem selectionSet_conclusive (sc : Scope) (place : Overlap.Place) (xs : List Selection) :
    Conclusive (selectionSet d sc place xs) := by
  match xs with
  | [] => simp [selectionSet]
  | x :: xs =>
      simp [selectionSet, selection_conclusive sc (0 :: place) x, selections_conclusive sc place 1 xs]

end

/-! ## Definitions

At the root of an operation there is the one rule that may not come to an end, and it asks for the kind
first. -/

/-- The root is looked into for subscriptions only. -/
theorem roots_check (h : o.kind ≠ .subscription) : Roots.check s d o = .ok [] := by
  unfold Roots.check
  split
  next hkind _ => exact absurd hkind h
  next => rfl

theorem operation_conclusive (h : o.kind ≠ .subscription) : Conclusive (operation s d before o) := by
  rw [operation, roots_check h]
  simp [selectionSet_conclusive]

theorem fragment_conclusive (cycles : List Spreads.Cycle) (f : Fragment) :
    Conclusive (fragment s d before cycles f) := by
  simp [fragment, selectionSet_conclusive]

/-- Definitions are checked one after the other, if there is no subscription among them. -/
theorem definitions_conclusive {xs : Document} {cycles : List (List Spreads.Cycle)}
    (h : ∀ o, .operation o ∈ xs → o.kind ≠ .subscription) :
    Conclusive (definitions s d before cycles xs) := by
  induction xs generalizing before cycles with
  | nil => exact .nil
  | cons x xs ih =>
      have hrest : ∀ o, .operation o ∈ xs → o.kind ≠ .subscription :=
        fun o ho => h o (List.mem_cons_of_mem x ho)
      cases x with
      | operation o =>
          simp [definitions, operation_conclusive (h o List.mem_cons_self), ih hrest]
      | fragment f => simp [definitions, fragment_conclusive, ih hrest]
      | typeSystem => exact ih hrest

end Check

/-- **Every document without subscriptions has a verdict.** -/
theorem Document.exists_violations (s : Schema) {d : Document}
    (h : ∀ o ∈ Document.operations d, o.kind ≠ .subscription) :
    ∃ vs, Document.violations s d = .ok vs := by
  have hfound : Conclusive (Check.document s d) := by
    have hdefs : ∀ o, .operation o ∈ d → o.kind ≠ .subscription :=
      fun o ho => h o (List.mem_filterMap.mpr ⟨_, ho, rfl⟩)
    simp [Check.document, Check.definitions_conclusive hdefs]
  have hend := hfound.settle (s := s) (d := d) []
  unfold violations
  generalize (settle s d (Check.document s d)).run [] = found at hend
  obtain ⟨⟨vs, e⟩, c⟩ := found
  cases hend
  dsimp only
  split
  · exact ⟨_, rfl⟩
  · exact ⟨_, rfl⟩

end Harvest.GraphQL
