/-!
# Ordered maps

A `Keyed α` maps texts to values and remembers in which order its keys came. Setting a key again
keeps its place. `get?` is the view: what an operation does is said by what `get?` and `keys` give
after it.
-/

namespace Harvest

/-- A map from texts to values that keeps the order of its keys. -/
structure Keyed (α : Type) where
  entries : List (String × α)
  deriving Repr, Inhabited

namespace Keyed

variable {α β : Type}

/-- The map without entries. -/
def empty : Keyed α := ⟨[]⟩

instance : EmptyCollection (Keyed α) := ⟨empty⟩

/-- The first value under a key in a list of entries. -/
def find (key : String) : List (String × α) → Option α
  | [] => none
  | (k, v) :: rest => if k = key then some v else find key rest

def get? (m : Keyed α) (key : String) : Option α := find key m.entries

def contains (m : Keyed α) (key : String) : Bool := (m.get? key).isSome

def keys (m : Keyed α) : List String := m.entries.map (·.1)

def values (m : Keyed α) : List α := m.entries.map (·.2)

def size (m : Keyed α) : Nat := m.entries.length

def put (key : String) (value : α) : List (String × α) → List (String × α)
  | [] => [(key, value)]
  | (k, v) :: rest => if k = key then (key, value) :: rest else (k, v) :: put key value rest

/-- Sets the value under a key: in its place if the key is there, else at the end. -/
def insert (m : Keyed α) (key : String) (value : α) : Keyed α := ⟨put key value m.entries⟩

/-- Changes the value under a key, if there is one. -/
def modify (m : Keyed α) (key : String) (f : α → α) : Keyed α :=
  ⟨m.entries.map fun e => if e.1 = key then (e.1, f e.2) else e⟩

/-- The map of a list of pairs, later pairs overriding earlier ones. -/
def ofList (pairs : List (String × α)) : Keyed α :=
  pairs.foldl (fun m p => m.insert p.1 p.2) empty

/-- Applies a function to every value. -/
def map (m : Keyed α) (f : α → β) : Keyed β := ⟨m.entries.map fun e => (e.1, f e.2)⟩

def erase (m : Keyed α) (key : String) : Keyed α := ⟨m.entries.filter fun e => e.1 ≠ key⟩

@[simp] theorem get?_empty (key : String) : (empty : Keyed α).get? key = none := rfl

theorem find_put (key k : String) (value : α) (es : List (String × α)) :
    find k (put key value es) = if k = key then some value else find k es := by
  induction es with
  | nil => by_cases h : key = k <;> simp [put, find, h, eq_comm]
  | cons e es ih =>
    obtain ⟨k', v'⟩ := e
    by_cases hk : k' = key
    · subst hk
      by_cases h : k = k'
      · subst h
        simp [put, find]
      · have h' : k' ≠ k := fun e => h e.symm
        simp [put, find, h, h']
    · by_cases h : k' = k
      · subst h
        simp [put, find, hk]
      · simp [put, find, hk, h, ih]

/-- After setting a key, its value is the new one and all others are as before. -/
@[simp] theorem get?_insert (m : Keyed α) (key k : String) (value : α) :
    (m.insert key value).get? k = if k = key then some value else m.get? k :=
  find_put key k value m.entries

theorem map_fst_put (key : String) (value : α) (es : List (String × α)) :
    (put key value es).map (·.1) =
      if key ∈ es.map (·.1) then es.map (·.1) else es.map (·.1) ++ [key] := by
  induction es with
  | nil => simp [put]
  | cons e es ih =>
    obtain ⟨k', v'⟩ := e
    by_cases hk : k' = key
    · subst hk
      simp [put]
    · have hk' : key ≠ k' := fun h => hk h.symm
      by_cases hm : key ∈ es.map (·.1) <;> simp_all [put]

/-- Setting a key keeps the order of the keys and adds a new one at the end. -/
@[simp] theorem keys_insert (m : Keyed α) (key : String) (value : α) :
    (m.insert key value).keys = if key ∈ m.keys then m.keys else m.keys ++ [key] :=
  map_fst_put key value m.entries

/-- A key has a value exactly when it is among the keys. -/
theorem contains_iff_mem_keys (m : Keyed α) (key : String) :
    m.contains key = true ↔ key ∈ m.keys := by
  obtain ⟨es⟩ := m
  simp only [contains, get?, keys]
  induction es with
  | nil => simp [find]
  | cons e es ih =>
    obtain ⟨k, v⟩ := e
    by_cases h : k = key
    · simp [find, h]
    · have h' : key ≠ k := fun e => h e.symm
      simp [find, h, h', ih]

end Keyed

end Harvest
