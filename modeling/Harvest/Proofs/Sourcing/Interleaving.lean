import Mathlib.Data.List.Basic
import Mathlib.Data.List.Range

/-!
# Interleavings

Steps of several parties in the order in which they were taken, each with the number of its party. Of
such a list one can take the steps of one party, or all steps without the numbers. What holds of all
steps follows from what holds of every party's own.

The two projections are `own` and `merged`. They are computed over concatenation, and a party that takes
several steps in a row adds a `block`. Two facts connect them: what only one party contributes to is the
same in both (`filterMap_merged`), and all steps together are those of every party in some order
(`merged_perm`).
-/

namespace Harvest

/-- Steps of several parties, each with the number of its party. -/
abbrev Interleaving (α : Type) := List (Nat × α)

namespace Interleaving

variable {α β : Type}

/-- The steps of one party. -/
def own (i : Nat) (steps : Interleaving α) : List α :=
  steps.filterMap fun x => if x.1 = i then some x.2 else none

/-- The steps of all parties. -/
def merged (steps : Interleaving α) : List α := steps.map (·.2)

/-- Steps that one party takes in a row. -/
def block (i : Nat) (xs : List α) : Interleaving α := xs.map fun x => (i, x)

@[simp] theorem own_nil (i : Nat) : own i ([] : Interleaving α) = [] := rfl

@[simp] theorem merged_nil : merged ([] : Interleaving α) = [] := rfl

@[simp] theorem own_append (i : Nat) (steps more : Interleaving α) :
    own i (steps ++ more) = own i steps ++ own i more := List.filterMap_append

@[simp] theorem merged_append (steps more : Interleaving α) :
    merged (steps ++ more) = merged steps ++ merged more := List.map_append

@[simp] theorem merged_block (i : Nat) (xs : List α) : merged (block i xs) = xs := by
  rw [merged, block, List.map_map]
  exact List.map_id xs

theorem own_cons (i : Nat) (x : Nat × α) (steps : Interleaving α) :
    own i (x :: steps) = if x.1 = i then x.2 :: own i steps else own i steps := by
  by_cases h : x.1 = i
  · rw [if_pos h]
    exact List.filterMap_cons_some (if_pos h)
  · rw [if_neg h]
    exact List.filterMap_cons_none (if_neg h)

@[simp] theorem own_block_self (i : Nat) (xs : List α) : own i (block i xs) = xs := by
  induction xs with
  | nil => rfl
  | cons x xs ih =>
      rw [block, List.map_cons, own_cons, if_pos rfl]
      exact congrArg (x :: ·) ih

theorem own_block_of_ne {i j : Nat} (h : j ≠ i) (xs : List α) : own i (block j xs) = [] := by
  apply List.filterMap_eq_nil_iff.mpr
  intro x hx
  obtain ⟨y, -, rfl⟩ := List.mem_map.mp hx
  exact if_neg h

theorem mem_merged {x : α} {steps : Interleaving α} :
    x ∈ merged steps ↔ ∃ i, x ∈ own i steps := by
  constructor
  · intro h
    obtain ⟨y, hy, rfl⟩ := List.mem_map.mp h
    exact ⟨y.1, List.mem_filterMap.mpr ⟨y, hy, if_pos rfl⟩⟩
  · rintro ⟨i, h⟩
    obtain ⟨y, hy, he⟩ := List.mem_filterMap.mp h
    by_cases hi : y.1 = i
    · rw [if_pos hi] at he
      exact List.mem_map.mpr ⟨y, hy, Option.some.inj he⟩
    · rw [if_neg hi] at he
      cases he

theorem mem_of_mem_own {i : Nat} {x : α} {steps : Interleaving α} (h : x ∈ own i steps) :
    (i, x) ∈ steps := by
  obtain ⟨y, hy, he⟩ := List.mem_filterMap.mp h
  by_cases hi : y.1 = i
  · rw [if_pos hi] at he
    cases he
    exact hi ▸ hy
  · rw [if_neg hi] at he
    cases he

/-- What only one party contributes to can be told from its own steps. -/
theorem filterMap_merged (f : α → Option β) (i : Nat) {steps : Interleaving α}
    (h : ∀ j ≠ i, ∀ x ∈ own j steps, f x = none) :
    (merged steps).filterMap f = (own i steps).filterMap f := by
  induction steps with
  | nil => rfl
  | cons x steps ih =>
      have ih' := ih fun j hj y hy => h j hj y (by
        rw [own_cons]
        split
        next => exact List.mem_cons_of_mem _ hy
        next => exact hy)
      show (x.2 :: merged steps).filterMap f = _
      rw [own_cons]
      by_cases hx : x.1 = i
      · rw [if_pos hx, List.filterMap_cons, List.filterMap_cons, ih']
      · have hn : f x.2 = none := h x.1 hx x.2 (by
          rw [own_cons, if_pos rfl]
          exact List.mem_cons_self)
        rw [if_neg hx, List.filterMap_cons_none hn, ih']

/-- A step more of one of several parties is a step more of all. -/
theorem perm_flatMap_cons {is : List Nat} (hn : is.Nodup) {i : Nat} (hi : i ∈ is) (x : α)
    (f : Nat → List α) :
    (is.flatMap fun j => if i = j then x :: f j else f j).Perm (x :: is.flatMap f) := by
  induction is with
  | nil => cases hi
  | cons j js ih =>
      obtain ⟨hj, hjs⟩ := List.nodup_cons.mp hn
      rw [List.flatMap_cons, List.flatMap_cons]
      by_cases h : i = j
      -- No other party has this number, so the step is in no other list.
      · subst h
        have hrest : (js.flatMap fun j => if i = j then x :: f j else f j) = js.flatMap f :=
          List.flatMap_congr fun k hk => if_neg fun he : i = k => hj (he ▸ hk)
        rw [if_pos rfl, hrest]
        exact List.Perm.refl _
      · rw [if_neg h]
        have hmem : i ∈ js := (List.mem_cons.mp hi).resolve_left h
        exact ((ih hjs hmem).append_left (f j)).trans List.perm_middle

/-- All steps are the steps of every party, in another order. -/
theorem merged_perm {n : Nat} {steps : Interleaving α} (h : ∀ x ∈ steps, x.1 < n) :
    (merged steps).Perm ((List.range n).flatMap fun i => own i steps) := by
  induction steps with
  | nil =>
      rw [List.flatMap_eq_nil_iff.mpr fun _ _ => own_nil _]
      exact List.Perm.nil
  | cons x steps ih =>
      have hx : x.1 ∈ List.range n := List.mem_range.mpr (h x List.mem_cons_self)
      have ih' := ih fun y hy => h y (List.mem_cons_of_mem x hy)
      simp only [own_cons]
      exact (ih'.cons x.2).trans (perm_flatMap_cons List.nodup_range hx x.2 _).symm

end Interleaving

end Harvest
