/-!
# Tables

A table maps names to values and remembers the order in which the names came.  Writing a name
that is there already keeps its place.

Main results:

- Definitions `Table.get?`, `Table.set`, `Table.erase` and `Table.update`.
- Theorems `Table.get?_set_self` and `Table.get?_set_of_ne`: what a table holds after a write.
- Theorems `Table.get?_erase_self` and `Table.get?_erase_of_ne`: what it holds after a removal.
-/

namespace NodeFlow

/-- Names with values, in the order of their first appearance. -/
abbrev Table (α : Type) := List (String × α)

namespace Table

variable {α : Type}

/-- The value of a name. -/
def get? : Table α → String → Option α
  | [], _ => none
  | (k, v) :: t, name => if k = name then some v else get? t name

/-- Whether a name has a value. -/
def has (t : Table α) (name : String) : Bool := (t.get? name).isSome

/-- Give a name a value: in its place when it is there, at the end otherwise. -/
def set : Table α → String → α → Table α
  | [], name, v => [(name, v)]
  | (k, w) :: t, name, v => if k = name then (k, v) :: t else (k, w) :: set t name v

/-- Remove a name. -/
def erase (t : Table α) (name : String) : Table α := t.filter (·.1 ≠ name)

/-- Write every entry of the second table into the first. -/
def update (t u : Table α) : Table α := u.foldl (fun t e => t.set e.1 e.2) t

/-- The names. -/
def names (t : Table α) : List String := t.map (·.1)

@[simp] theorem get?_nil (name : String) : get? ([] : Table α) name = none := rfl

@[simp] theorem get?_set_self (t : Table α) (name : String) (v : α) :
    (t.set name v).get? name = some v := by
  induction t with
  | nil => simp [set, get?]
  | cons e t ih =>
    obtain ⟨k, w⟩ := e
    by_cases h : k = name <;> simp [set, get?, h, ih]

/-- Writing one entry leaves all others. -/
theorem get?_set_of_ne {name other : String} (h : other ≠ name) (t : Table α) (v : α) :
    (t.set name v).get? other = t.get? other := by
  induction t with
  | nil => simp [set, get?, h.symm]
  | cons e t ih =>
    obtain ⟨k, w⟩ := e
    by_cases hk : k = name
    · subst hk
      simp [set, get?, h.symm]
    · simp [set, get?, hk, ih]

@[simp] theorem get?_erase_self (t : Table α) (name : String) :
    (t.erase name).get? name = none := by
  induction t with
  | nil => rfl
  | cons e t ih =>
    obtain ⟨k, w⟩ := e
    by_cases h : k = name
    · simpa [erase, h] using ih
    · simpa [erase, h, get?] using ih

/-- Removing one entry leaves all others. -/
theorem get?_erase_of_ne {name other : String} (h : other ≠ name) (t : Table α) :
    (t.erase name).get? other = t.get? other := by
  induction t with
  | nil => rfl
  | cons e t ih =>
    obtain ⟨k, w⟩ := e
    by_cases hk : k = name
    · subst hk
      simpa [erase, get?, h.symm] using ih
    · have hf : erase ((k, w) :: t) name = (k, w) :: erase t name := by simp [erase, hk]
      rw [hf]
      simp [get?, ih]

end Table

end NodeFlow
