import NodeFlow.Decimal.Binary
import NodeFlow.Json.Basic

/-!
# Portable values

JSON text has no numeral for an infinite or undefined double, and values that are nested too deep
are not written at all.  A free value inside a document or a report is made portable when it is
written; a request or an answer has to be portable as it is.

Main results:

- Definitions `Json.isPortable` and `Json.portable`: whether all doubles are finite, and the value
  with null in place of those that are not.
- Definition `Json.maxNesting`: the deepest nesting that is written.
- Theorems `Json.isPortable_portable` and `Json.depth_portable`: the portable form is portable and
  nested as deep as before.
-/

namespace NodeFlow

/-- Whether a double is finite. -/
def isFiniteFloat (x : Float) : Bool := (Decimal.Binary.ofFloat? x).isSome

namespace Json

/-- The deepest nesting that is written, and the deepest nesting of documents that is read. -/
def maxNesting : Nat := 254

mutual
/-- Whether all doubles in a value are finite. -/
def isPortable : Json → Bool
  | float x => isFiniteFloat x
  | arr xs => itemsPortable xs
  | obj ms => membersPortable ms
  | _ => true

/-- Whether all doubles in the items are finite. -/
def itemsPortable : List Json → Bool
  | [] => true
  | x :: xs => x.isPortable && itemsPortable xs

/-- Whether all doubles in the members are finite. -/
def membersPortable : List (String × Json) → Bool
  | [] => true
  | (_, x) :: ms => x.isPortable && membersPortable ms
end

mutual
/-- The value with null in place of the doubles that are not finite. -/
def portable : Json → Json
  | float x => if isFiniteFloat x then float x else null
  | arr xs => arr (portableItems xs)
  | obj ms => obj (portableMembers ms)
  | v => v

/-- The items with null in place of the doubles that are not finite. -/
def portableItems : List Json → List Json
  | [] => []
  | x :: xs => x.portable :: portableItems xs

/-- The members with null in place of the doubles that are not finite. -/
def portableMembers : List (String × Json) → List (String × Json)
  | [] => []
  | (k, x) :: ms => (k, x.portable) :: portableMembers ms
end

mutual
/-- The portable form of a value is portable. -/
theorem isPortable_portable (v : Json) : v.portable.isPortable = true := by
  cases v with
  | float x =>
    simp only [portable]
    split
    · rename_i h
      exact h
    · rfl
  | arr xs => exact itemsPortable_portableItems xs
  | obj ms => exact membersPortable_portableMembers ms
  | null => rfl
  | bool b => rfl
  | int n => rfl
  | str s => rfl

/-- The portable forms of the items of a list are portable. -/
theorem itemsPortable_portableItems (xs : List Json) :
    itemsPortable (portableItems xs) = true := by
  cases xs with
  | nil => rfl
  | cons x xs =>
    simp [portableItems, itemsPortable, isPortable_portable x, itemsPortable_portableItems xs]

/-- The portable forms of the members of a record are portable. -/
theorem membersPortable_portableMembers (ms : List (String × Json)) :
    membersPortable (portableMembers ms) = true := by
  cases ms with
  | nil => rfl
  | cons m ms =>
    simp [portableMembers, membersPortable, isPortable_portable m.2,
      membersPortable_portableMembers ms]
end

mutual
/-- The portable form of a value is nested as deep. -/
theorem depth_portable (v : Json) : v.portable.depth = v.depth := by
  cases v with
  | float x =>
    simp only [portable]
    split <;> rfl
  | arr xs => simp [portable, depth, depthItems_portableItems xs]
  | obj ms => simp [portable, depth, depthMembers_portableMembers ms]
  | null => rfl
  | bool b => rfl
  | int n => rfl
  | str s => rfl

/-- The portable forms of the items of a list are nested as deep. -/
theorem depthItems_portableItems (xs : List Json) :
    depthItems (portableItems xs) = depthItems xs := by
  cases xs with
  | nil => rfl
  | cons x xs => simp [portableItems, depthItems, depth_portable x, depthItems_portableItems xs]

/-- The portable forms of the members of a record are nested as deep. -/
theorem depthMembers_portableMembers (ms : List (String × Json)) :
    depthMembers (portableMembers ms) = depthMembers ms := by
  cases ms with
  | nil => rfl
  | cons m ms =>
    simp [portableMembers, depthMembers, depth_portable m.2, depthMembers_portableMembers ms]
end

end Json

end NodeFlow
