import NodeFlow.Decimal.Binary
import NodeFlow.Json.Basic

/-!
# Numbers

Whole numbers and doubles are compared by their exact values, so a whole number beyond the
precision of doubles equals no double that it would round to.

Main results:

- Definition `Number.compare?`: the order of two numbers, undefined for an undefined double.
- Definition `Json.number?`: the number a value counts as.
-/

namespace NodeFlow

open Decimal

/-- A whole number or a double. -/
inductive Number where
  | int (n : Int)
  | float (x : Float)

namespace Number

/-- The order of a whole number and a double. -/
def compareIntFloat? (n : Int) (x : Float) : Option Ordering :=
  match Binary.ofFloat? x with
  | some b =>
    let (num, den) := b.quotient
    some (compare (n * den) (if b.negative then -(num : Int) else (num : Int)))
  | none => if x != x then none else some (if x < 0 then .gt else .lt)

/-- The order of two doubles. -/
def compareFloats? (x y : Float) : Option Ordering :=
  if x == y then some .eq else if x < y then some .lt else if y < x then some .gt else none

/-- The order of two numbers by their exact values. -/
def compare? : Number → Number → Option Ordering
  | int m, int n => some (compare m n)
  | int m, float y => compareIntFloat? m y
  | float x, int n => (compareIntFloat? n x).map Ordering.swap
  | float x, float y => compareFloats? x y

/-- Equality by value. -/
def same (a b : Number) : Bool := a.compare? b == some .eq

/-- The number as a value. -/
def toJson : Number → Json
  | int n => .int n
  | float x => .float x

end Number

/-- The number a value counts as; truth values count as 0 and 1. -/
def Json.number? : Json → Option Number
  | .int n => some (.int n)
  | .bool b => some (.int (if b then 1 else 0))
  | .float x => some (.float x)
  | _ => none

@[simp] theorem Number.same_int (m n : Int) : Number.same (.int m) (.int n) = decide (m = n) := by
  simp only [Number.same, Number.compare?, compare, compareOfLessAndEq]
  by_cases h : m = n
  · simp [h]
  · by_cases hl : m < n <;> simp [h, hl]

end NodeFlow
