import NodeFlow.Json.Basic

/-!
# Checked values

Reading a record from a value collects every issue instead of stopping at the first one.  A
checked value therefore carries a result, usable only when there is no issue, and the issues in
the order of the record's fields.

Main results:

- Type `Checked` with its monad structure, and the locating of issues with `Checked.under`.
- Definition `Checked.toExcept`: the result, or all issues.
- Theorem `Checked.issues_bind`: issues of the parts are issues of the whole, in order.
-/

namespace NodeFlow

/-- One step of the way from a value to a part of it. -/
inductive PathPart where
  | field (name : String)
  | index (i : Nat)
  deriving DecidableEq

/-- What is wrong with a part of a value. -/
structure Issue where
  path : List PathPart
  kind : String
  message : String
  deriving DecidableEq

/-- A result together with the issues met on the way to it. -/
structure Checked (α : Type) where
  value : α
  issues : List Issue

namespace PathPart

/-- The part as it stands in a dotted path. -/
def text : PathPart → String
  | field name => name
  | index i => toString i

/-- The part as a value. -/
def toJson : PathPart → Json
  | field name => .str name
  | index i => .int i

end PathPart

namespace Issue

/-- The dotted path of an issue. -/
def location (i : Issue) : String := ".".intercalate (i.path.map PathPart.text)

/-- The issue as a value. -/
def toJson (i : Issue) : Json :=
  .obj [("type", .str i.kind), ("loc", .arr (i.path.map PathPart.toJson)), ("msg", .str i.message)]

/-- The same issue, seen from a value that holds the first one at the given place. -/
def under (part : PathPart) (i : Issue) : Issue := { i with path := part :: i.path }

end Issue

namespace Checked

variable {α β : Type}

instance : Monad Checked where
  pure a := ⟨a, []⟩
  bind c f := ⟨(f c.value).value, c.issues ++ (f c.value).issues⟩

@[simp] theorem issues_pure (a : α) : (pure a : Checked α).issues = [] := rfl

@[simp] theorem value_pure (a : α) : (pure a : Checked α).value = a := rfl

@[simp] theorem issues_bind (c : Checked α) (f : α → Checked β) :
    (c >>= f).issues = c.issues ++ (f c.value).issues := rfl

@[simp] theorem value_bind (c : Checked α) (f : α → Checked β) :
    (c >>= f).value = (f c.value).value := rfl

/-- A result that does not matter, with one issue. -/
def fail [Inhabited α] (kind message : String) : Checked α := ⟨default, [⟨[], kind, message⟩]⟩

/-- The same result, with the issues located inside a larger value. -/
def under (part : PathPart) (c : Checked α) : Checked α :=
  { c with issues := c.issues.map (Issue.under part) }

/-- The result if nothing is wrong, and all issues otherwise. -/
def toExcept (c : Checked α) : Except (List Issue) α :=
  if c.issues.isEmpty then .ok c.value else .error c.issues

/-- A check comes to a value exactly if it raises no issue. -/
theorem toExcept_eq_ok {c : Checked α} {a : α} :
    c.toExcept = .ok a ↔ c.issues = [] ∧ c.value = a := by
  unfold toExcept
  cases h : c.issues <;> simp

end Checked

end NodeFlow
