import NodeFlow.Json.Number

/-!
# Equality of values

Two values are the same when their numbers agree by value (`1`, `1.0` and `true` are the same),
their arrays item by item, and their objects name by name, whatever the order of the names.

Main results:

- Definitions `Json.same` and `Json.isAmong`.
- Theorem `Json.same_str`: a text is the same only as an equal text.
-/

namespace NodeFlow.Json

mutual
/-- Equality by value. -/
def same : Json → Json → Bool
  | null, null => true
  | str s, str t => s == t
  | arr xs, arr ys => sameItems xs ys
  | obj ms, obj ns => ms.length == ns.length && sameMembers ms ns
  | bool a, w => sameNumber (.int (if a then 1 else 0)) w
  | int n, w => sameNumber (.int n) w
  | float x, w => sameNumber (.float x) w
  | _, _ => false

/-- Equality item by item. -/
def sameItems : List Json → List Json → Bool
  | [], [] => true
  | x :: xs, y :: ys => x.same y && sameItems xs ys
  | _, _ => false

/-- Every member of the first object has an equal one in the second. -/
def sameMembers : List (String × Json) → Members → Bool
  | [], _ => true
  | (k, x) :: ms, ns =>
    (match Table.get? ns k with
      | some y => x.same y
      | none => false) && sameMembers ms ns

/-- Whether a value counts as the given number. -/
def sameNumber (a : Number) (w : Json) : Bool :=
  match w.number? with
  | some b => a.same b
  | none => false
end

/-- Whether a value is the same as one of a list. -/
def isAmong (v : Json) (xs : List Json) : Bool := xs.any (v.same ·)

/-- The position of the first value of a list that is the same. -/
def position? (v : Json) (xs : List Json) : Option Nat := xs.findIdx? (·.same v)

@[simp] theorem same_str (s t : String) : same (.str s) (.str t) = decide (s = t) := by
  by_cases h : s = t <;> simp [same, h]

/-- Only a text is the same as a text. -/
theorem same_str_left {s : String} {v : Json} (h : same (.str s) v = true) : v = .str s := by
  cases v <;> simp_all [same]

end NodeFlow.Json
