import Mathlib.Data.List.Forall2
import Mathlib.Data.List.Nodup

/-!
# Computations and named entries

What the other modules need of computations that may fail, and of lists whose entries go by names.

A computation that may fail is a value of `Except`, and most functions of the program are sequences or
traversals of such computations. The first section takes them apart: where a sequence has a result both of
its parts had one, and where a traversal has one it has one for each item, in the order of the items.
-/

namespace Harvest

/-! ## Computations that may fail

Sequences by `bind`, traversals by `mapM`. Results of a traversal are compared with its items by
`List.Forall₂`. -/

section Except

variable {α β ε : Type}

/-- A sequence that has a result has one in its first part, and in its second from there. -/
theorem bind_ok {x : Except ε α} {f : α → Except ε β} {b : β} (h : x >>= f = .ok b) :
    ∃ a, x = .ok a ∧ f a = .ok b := by
  cases x with
  | error e => cases h
  | ok a => exact ⟨a, rfl, h⟩

/-- A sequence fails in its first part, or else in its second. -/
theorem bind_error {x : Except ε α} {f : α → Except ε β} {e : ε} (h : x >>= f = .error e) :
    x = .error e ∨ ∃ a, x = .ok a ∧ f a = .error e := by
  cases x with
  | error e' =>
      cases h
      exact .inl rfl
  | ok a => exact .inr ⟨a, rfl, h⟩

theorem exists_bind {x : Except ε α} {f : α → Except ε β} (hx : ∃ a, x = .ok a)
    (hf : ∀ a, ∃ b, f a = .ok b) : ∃ b, x >>= f = .ok b := by
  obtain ⟨a, rfl⟩ := hx
  exact hf a

/-- What is made of a result has one exactly if there was one. -/
theorem map_ok_iff {x : Except ε α} {f : α → β} {b : β} :
    x.map f = .ok b ↔ ∃ a, x = .ok a ∧ f a = b := by
  cases x with
  | error e => exact ⟨nofun, nofun⟩
  | ok a => exact ⟨fun h => ⟨a, rfl, Except.ok.inj h⟩, fun ⟨_, ha, hb⟩ => Except.ok.inj ha ▸ hb ▸ rfl⟩

/-- A traversal that has a result has one for each item. -/
theorem mapM_ok {f : α → Except ε β} {xs : List α} {ys : List β} (h : xs.mapM f = .ok ys) :
    List.Forall₂ (fun x y => f x = .ok y) xs ys := by
  induction xs generalizing ys with
  | nil =>
      cases h
      exact .nil
  | cons x xs ih =>
      rw [List.mapM_cons] at h
      obtain ⟨y, hy, h⟩ := bind_ok h
      obtain ⟨ys', hys, h⟩ := bind_ok h
      cases h
      exact .cons hy (ih hys)

/-- A traversal fails at the first item that does, and with its error. -/
theorem mapM_error {f : α → Except ε β} {xs : List α} {e : ε} (h : xs.mapM f = .error e) :
    ∃ before x after, xs = before ++ x :: after ∧ (∀ y ∈ before, ∃ b, f y = .ok b)
      ∧ f x = .error e := by
  induction xs with
  | nil => cases h
  | cons x xs ih =>
      rw [List.mapM_cons] at h
      cases hx : f x with
      | error e' =>
          rw [hx] at h
          cases h
          exact ⟨[], x, xs, rfl, nofun, hx⟩
      | ok b =>
          rw [hx] at h
          cases hxs : xs.mapM f with
          | ok bs =>
              rw [hxs] at h
              cases h
          | error e' =>
              rw [hxs] at h
              cases h
              obtain ⟨before, y, after, rfl, hbefore, hy⟩ := ih hxs
              refine ⟨x :: before, y, after, rfl, ?_, hy⟩
              exact List.forall_mem_cons.mpr ⟨⟨b, hx⟩, hbefore⟩

/-- A traversal fails for no other reason than that it fails at an item. -/
theorem exists_mapM {f : α → Except ε β} {xs : List α} (h : ∀ x ∈ xs, ∃ y, f x = .ok y) :
    ∃ ys, xs.mapM f = .ok ys := by
  cases hm : xs.mapM f with
  | ok ys => exact ⟨ys, rfl⟩
  | error e =>
      obtain ⟨before, x, after, rfl, -, hx⟩ := mapM_error hm
      obtain ⟨y, hy⟩ := h x (List.mem_append_right before List.mem_cons_self)
      cases hx.symm.trans hy

/-- A traversal depends on what comes of its items. -/
theorem mapM_congr {f g : α → Except ε β} {xs : List α} (h : ∀ x ∈ xs, f x = g x) :
    xs.mapM f = xs.mapM g := by
  induction xs with
  | nil => rfl
  | cons x xs ih =>
      obtain ⟨hx, hxs⟩ := List.forall_mem_cons.mp h
      rw [List.mapM_cons, List.mapM_cons, hx, ih hxs]

/-- Each item of the one list has its partner in the other. -/
theorem exists_of_forall₂ {R : α → β → Prop} {xs : List α} {ys : List β} (h : List.Forall₂ R xs ys)
    {x : α} (hx : x ∈ xs) : ∃ y ∈ ys, R x y := by
  induction h with
  | nil => cases hx
  | @cons x' y xs ys hr _ ih =>
      rcases List.mem_cons.mp hx with rfl | hx
      · exact ⟨y, List.mem_cons_self, hr⟩
      · obtain ⟨z, hz, hxz⟩ := ih hx
        exact ⟨z, List.mem_cons_of_mem y hz, hxz⟩

/-- Lists whose items agree pairwise in some respect have the same images. -/
theorem map_eq_of_forall₂ {γ : Type} {f : α → γ} {g : β → γ} {xs : List α} {ys : List β}
    (h : List.Forall₂ (fun x y => g y = f x) xs ys) : ys.map g = xs.map f := by
  induction h with
  | nil => rfl
  | cons hxy _ ih => rw [List.map_cons, List.map_cons, hxy, ih]

/-- A result that is there is the result. -/
theorem eq_ok_of_toOption {x : Except ε α} {a : α} (h : x.toOption = some a) : x = .ok a := by
  cases x with
  | error e => cases h
  | ok b =>
      cases h
      rfl

theorem eq_ok_of_isSome [Inhabited α] {x : Except ε α} (h : x.toOption.isSome = true) :
    x = .ok (x.toOption.getD default) := by
  cases x with
  | error e => cases h
  | ok a => rfl

end Except

/-! ## Entries under names

Types and fields are collected in lists, where an entry replaces the earlier one of its name. -/

section Names

variable {α : Type} {key : α → String} {x y : α} {xs : List α}

/-- Sets an entry: in the place of the one with its name, else at the end. -/
def setBy (key : α → String) (x : α) : List α → List α
  | [] => [x]
  | y :: ys => if key y == key x then x :: ys else y :: setBy key x ys

/-- An entry that is set is added, and takes no other one away but that of its name. -/
theorem mem_setBy (h : y ∈ setBy key x xs) : y = x ∨ y ∈ xs := by
  induction xs with
  | nil => exact .inl (List.mem_singleton.mp h)
  | cons z zs ih =>
      rw [setBy] at h
      split at h
      · rcases List.mem_cons.mp h with h | h
        · exact .inl h
        · exact .inr (List.mem_cons_of_mem z h)
      · rcases List.mem_cons.mp h with h | h
        · exact .inr (h ▸ List.mem_cons_self)
        · exact (ih h).imp_right (List.mem_cons_of_mem z)

/-- Names stay different when an entry is set. -/
theorem nodup_setBy (h : (xs.map key).Nodup) : ((setBy key x xs).map key).Nodup := by
  induction xs with
  | nil => exact List.nodup_singleton _
  | cons z zs ih =>
      rw [List.map_cons, List.nodup_cons] at h
      rw [setBy]
      split
      next heq =>
        rw [List.map_cons, List.nodup_cons, ← eq_of_beq heq]
        exact h
      next hne =>
        rw [List.map_cons, List.nodup_cons]
        refine ⟨fun hmem => ?_, ih h.2⟩
        obtain ⟨w, hw, hkey⟩ := List.mem_map.mp hmem
        rcases mem_setBy hw with rfl | hw
        · exact hne (beq_iff_eq.mpr hkey.symm)
        · exact h.1 (hkey ▸ List.mem_map_of_mem hw)

/-- Names stay different when entries are set one after the other. -/
theorem nodup_foldl_setBy (ys : List α) (h : (xs.map key).Nodup) :
    ((ys.foldl (fun zs y => setBy key y zs) xs).map key).Nodup := by
  induction ys generalizing xs with
  | nil => exact h
  | cons y ys ih => exact ih (nodup_setBy h)

theorem mem_foldl_setBy {ys : List α} (h : y ∈ ys.foldl (fun zs x => setBy key x zs) xs) :
    y ∈ xs ∨ y ∈ ys := by
  induction ys generalizing xs with
  | nil => exact .inl h
  | cons z zs ih =>
      rcases ih h with h | h
      · exact (mem_setBy h).elim (fun hy => .inr (hy ▸ List.mem_cons_self)) .inl
      · exact .inr (List.mem_cons_of_mem z h)

/-- Where no two entries have one name, an entry is found under its name. -/
theorem find?_name {p : α → Bool} (h : (xs.map key).Nodup) (hx : x ∈ xs)
    (hp : ∀ y, p y = true ↔ key y = key x) : xs.find? p = some x := by
  cases hf : xs.find? p with
  | none => exact absurd ((hp x).mpr rfl) (List.find?_eq_none.mp hf x hx)
  | some y =>
      have hy : key y = key x := (hp y).mp (List.find?_some hf)
      rw [List.inj_on_of_nodup_map h (List.mem_of_find?_eq_some hf) hx hy]

/-- Where no two entries have one key, an entry is the only one with its key. -/
theorem filter_key {β : Type} [BEq β] [LawfulBEq β] {f : α → β} (h : (xs.map f).Nodup) (hx : x ∈ xs) :
    xs.filter (fun y => f y == f x) = [x] := by
  induction xs with
  | nil => cases hx
  | cons y ys ih =>
      obtain ⟨hy, hys⟩ := List.nodup_cons.mp h
      rcases List.mem_cons.mp hx with rfl | hx
      · have hrest : ys.filter (fun z => f z == f x) = [] := by
          refine List.filter_eq_nil_iff.mpr fun z hz hzx => hy ?_
          rw [← eq_of_beq hzx]
          exact List.mem_map_of_mem hz
        rw [List.filter_cons, if_pos (beq_self_eq_true _), hrest]
      · have hne : ¬(f y == f x) = true := by
          intro hyx
          rw [eq_of_beq hyx] at hy
          exact hy (List.mem_map_of_mem hx)
        rw [List.filter_cons, if_neg hne, ih hys hx]

end Names

end Harvest
