/-!
# Binary fractions

A finite double is a whole number times a power of two.  This module takes a double apart and
puts the double nearest to a quotient together.

Main results:

- Definition `Binary.ofFloat?`: the exact value of a finite double.
- Definition `nearestFloat`: the double nearest to a quotient, a tie going to the even neighbour.
- Theorems `roundDiv_le` and `le_roundDiv`: rounding stays within half a unit.
-/

namespace NodeFlow.Decimal

/-- The value `mantissa * 2 ^ exponent`, with its sign. -/
structure Binary where
  negative : Bool
  mantissa : Nat
  exponent : Int

namespace Binary

/-- The exact value of a double; infinities and undefined values have none. -/
def ofFloat? (x : Float) : Option Binary :=
  let bits : Nat := x.toBits.toNat
  let fraction : Nat := bits % Nat.pow 2 52
  let scale : Nat := bits / Nat.pow 2 52 % Nat.pow 2 11
  let negative := bits / Nat.pow 2 63 == 1
  if scale == 2047 then none
  else if scale == 0 then some ⟨negative, fraction, -1074⟩
  else some ⟨negative, fraction + Nat.pow 2 52, (scale : Int) - 1075⟩

/-- The absolute value as a quotient of whole numbers. -/
def quotient (b : Binary) : Nat × Nat :=
  if 0 ≤ b.exponent then (b.mantissa * Nat.pow 2 b.exponent.toNat, 1)
  else (b.mantissa, Nat.pow 2 (-b.exponent).toNat)

/-- The whole number nearest toward zero. -/
def truncate (b : Binary) : Int :=
  let (num, den) := b.quotient
  if b.negative then -((num / den : Nat) : Int) else ((num / den : Nat) : Int)

/-- The largest whole number that is not above. -/
def floor (b : Binary) : Int :=
  let (num, den) := b.quotient
  Int.fdiv (if b.negative then -(num : Int) else (num : Int)) den

/-- Whether the value is a whole number. -/
def isWhole (b : Binary) : Bool :=
  let (num, den) := b.quotient
  num % den == 0

end Binary

/-! ## Rounding -/

/-- The quotient rounded to the nearest whole number, a tie going to the even one. -/
def roundDiv (num den : Nat) : Nat :=
  let q := num / den
  let r := num % den
  if den < 2 * r || (2 * r == den && q % 2 == 1) then q + 1 else q

/-- A rounded quotient exceeds the quotient by at most a half. -/
theorem roundDiv_le (num : Nat) {den : Nat} (h : 0 < den) :
    2 * (roundDiv num den * den) ≤ 2 * num + den := by
  have hdm := Nat.div_add_mod num den
  have hlt := Nat.mod_lt num h
  have hc : den * (num / den) = num / den * den := Nat.mul_comm ..
  unfold roundDiv
  simp only
  split
  · rename_i hs
    simp only [Bool.or_eq_true, decide_eq_true_eq, Bool.and_eq_true, beq_iff_eq] at hs
    rw [Nat.add_mul, Nat.one_mul]
    omega
  · omega

/-- A rounded quotient falls short of the quotient by at most a half. -/
theorem le_roundDiv (num : Nat) {den : Nat} (h : 0 < den) :
    2 * num ≤ 2 * (roundDiv num den * den) + den := by
  have hdm := Nat.div_add_mod num den
  have hlt := Nat.mod_lt num h
  have hc : den * (num / den) = num / den * den := Nat.mul_comm ..
  unfold roundDiv
  simp only
  split
  · rw [Nat.add_mul, Nat.one_mul]
    omega
  · rename_i hs
    simp only [Bool.or_eq_true, decide_eq_true_eq, Bool.and_eq_true, beq_iff_eq, not_or] at hs
    omega

/-- The bit pattern of the double nearest to a positive quotient, without the sign. -/
def nearestBits (num den : Nat) : Nat :=
  let spread : Int := (Nat.log2 num : Int) - Nat.log2 den
  let scaled (e : Int) : Nat × Nat :=
    if 0 ≤ e then (num, den * Nat.pow 2 e.toNat) else (num * Nat.pow 2 (-e).toNat, den)
  let low := spread - 53
  let (n, d) := scaled low
  let fit := if n / d < Nat.pow 2 53 then low else low + 1
  let e := max fit (-1074)
  let (n, d) := scaled e
  let q := roundDiv n d
  if q < Nat.pow 2 52 then q else (e + 1074).toNat * Nat.pow 2 52 + q

/-- The double nearest to the quotient; a value out of range becomes infinite. -/
def nearestFloat (negative : Bool) (num den : Nat) : Float :=
  let infinite := 2047 * Nat.pow 2 52
  let bits := if num == 0 then 0 else min (nearestBits num den) infinite
  Float.ofBits (UInt64.ofNat (if negative then bits + Nat.pow 2 63 else bits))

/-- Whole numbers from here on round to no finite double. -/
def doubleBound : Nat := Nat.pow 2 1024 - Nat.pow 2 970

/-- The double nearest to a whole number. -/
def floatOfInt (n : Int) : Float := nearestFloat (n < 0) n.natAbs 1

end NodeFlow.Decimal
