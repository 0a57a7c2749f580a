import NodeFlow.NodeId

/-!
# Links and slots

A link leads from an output slot of one node to an input slot of another.  Link entries of
documents may hold anything for an endpoint, and truth values for whole numbers; both are kept as
they were read, so that a saved document shows them again.

Main results:

- Types `Whole`, `Link`, `InputSlot`, `OutputSlot` and `PortRef`.
- Definition `Link.toJson`: the entry of a link in a document.
- Definition `position?`: positions counted from either end of a list.
-/

namespace NodeFlow

/-- A whole number as it was written: a number, or a truth value that stands for 0 or 1. -/
inductive Whole where
  | number (n : Int)
  | flag (b : Bool)
  deriving DecidableEq, Inhabited

namespace Whole

/-- The number meant. -/
def val : Whole → Int
  | number n => n
  | flag b => if b then 1 else 0

/-- The number as it was written. -/
def toJson : Whole → Json
  | number n => .int n
  | flag b => .bool b

/-- A value that counts as a whole number. -/
def ofJson? : Json → Option Whole
  | .int n => some (number n)
  | .bool b => some (flag b)
  | _ => none

@[simp] theorem val_number (n : Int) : (number n).val = n := rfl

end Whole

/-- A connection between two slots. -/
structure Link where
  id : Whole
  origin : Json
  originSlot : Whole
  target : Json
  targetSlot : Whole
  type : Json
  deriving Inhabited

/-- The entry of a link in a document. -/
def Link.toJson (l : Link) : Json :=
  .arr [l.id.toJson, l.origin, l.originSlot.toJson, l.target, l.targetSlot.toJson, l.type]

/-- An input of a node; `widget` names the widget it was made from, if any. -/
structure InputSlot where
  name : String
  type : String := "*"
  link : Option Int := none
  widget : Json := .null
  deriving Inhabited

/-- An output of a node and the links that leave it. -/
structure OutputSlot where
  name : String
  type : String := "*"
  links : List Int := []
  deriving Inhabited

/-- A slot of a node inside a group. -/
structure PortRef where
  node : NodeId
  slot : Int
  deriving DecidableEq, Inhabited

/-! ## Positions -/

/-- A position in a list of the given length; negative positions count from the end. -/
def position? (length : Nat) (i : Int) : Option Nat :=
  if 0 ≤ i then (if i.toNat < length then some i.toNat else none)
  else if i.natAbs ≤ length then some (length - i.natAbs) else none

/-- A position lies within the list. -/
theorem position?_lt {length : Nat} {i : Int} {n : Nat} (h : position? length i = some n) :
    n < length := by
  unfold position? at h
  split at h <;> split at h <;> simp_all <;> omega

/-- A position that exists, also one from the end, is less than the length. -/
theorem lt_of_position?_eq_some {length n : Nat} {i : Int} (h : position? length i = some n) :
    i < length := by
  unfold position? at h
  split at h <;> split at h <;> first | omega | cases h

/-- A position that is not counted from the end is itself. -/
theorem position?_ofNat {length n : Nat} (h : n < length) : position? length n = some n := by
  simp [position?, h]

end NodeFlow
