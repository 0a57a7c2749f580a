import NodeFlow.Decimal.Binary

/-!
# Shortest decimal text

A double is written with the fewest digits that read back as the same double; among the texts of
that length the nearest is taken.  Positional notation is used from `0.0001` up to `10 ^ 16`,
exponents outside.

Main results:

- Definition `shortestDigits`: the digits and the exponent of the first one.
- Definition `floatText`: the written form.
-/

namespace NodeFlow.Decimal

/-- Number of decimal digits of a whole number. -/
def digitCount (n : Nat) : Nat := (Nat.toDigits 10 n).length

/-- The exponent of the leading decimal digit of a positive quotient. -/
def leadExponent (num den : Nat) : Int :=
  if den ≤ num then (digitCount (num / den) : Int) - 1
  else
    let k := digitCount den - digitCount num
    if den ≤ num * Nat.pow 10 k then -(k : Int) else -((k : Int) + 1)

/-- The values that round to a double: twice the bounds of the interval and twice the value,
over one denominator, and whether the bounds belong to it. -/
structure Neighbourhood where
  low : Nat
  centre : Nat
  high : Nat
  den : Nat
  closed : Bool

/-- The neighbourhood of a positive finite double.  Below a power of two the doubles are twice
as dense. -/
def Binary.neighbourhood (b : Binary) : Neighbourhood :=
  let (num, den) := b.quotient
  -- One unit in the last place, over the same denominator as the value.
  let unit := if 0 ≤ b.exponent then Nat.pow 2 b.exponent.toNat else 1
  let atPower := b.mantissa == Nat.pow 2 52 && decide (-1074 < b.exponent)
  { low := 4 * num - (if atPower then unit else 2 * unit)
    centre := 4 * num
    high := 4 * num + 2 * unit
    den := 4 * den
    closed := b.mantissa % 2 == 0 }

/-- Whether `d` times the grid `gridNum / gridDen` lies in the neighbourhood. -/
def Neighbourhood.contains (v : Neighbourhood) (d gridNum gridDen : Nat) : Bool :=
  let point := d * gridNum * v.den
  if v.closed then v.low * gridDen ≤ point && point ≤ v.high * gridDen
  else v.low * gridDen < point && point < v.high * gridDen

/-- The nearest multiple of a power of ten that reads back, if one of the two next to the value
does. -/
def Neighbourhood.onGrid? (v : Neighbourhood) (power : Int) : Option Nat :=
  let gridNum := if 0 ≤ power then Nat.pow 10 power.toNat else 1
  let gridDen := if 0 ≤ power then 1 else Nat.pow 10 (-power).toNat
  let below := v.centre * gridDen / (gridNum * v.den)
  let nearest := roundDiv (v.centre * gridDen) (gridNum * v.den)
  let other := if nearest == below then below + 1 else below
  if v.contains nearest gridNum gridDen then some nearest
  else if v.contains other gridNum gridDen then some other
  else none

/-- Digits and exponent of the leading digit, tried with `count` digits and more. -/
def searchDigits (v : Neighbourhood) (lead : Int) : Nat → Nat → Nat × Int
  | 0, count => ((v.onGrid? (lead - count + 1)).getD 0, lead - count + 1)
  | fuel + 1, count =>
    let power := lead - count + 1
    match v.onGrid? power with
    | some d => (d, power)
    | none => searchDigits v lead fuel (count + 1)

/-- The shortest digits of a positive finite double, without trailing zeros, and the exponent of
the first of them. -/
def shortestDigits (b : Binary) : List Char × Int :=
  let v := b.neighbourhood
  let lead := leadExponent v.centre v.den
  let (digits, power) := searchDigits v lead 16 1
  let text := Nat.toDigits 10 digits
  let shown := (text.reverse.dropWhile (· == '0')).reverse
  (shown, power + text.length - 1)

/-- Lay digits out in positional notation or with an exponent. -/
def layOut (digits : List Char) (lead : Int) : List Char :=
  if lead < -4 || 16 ≤ lead then
    let mantissa := match digits with
      | [] => ['0']
      | [d] => [d]
      | d :: rest => d :: '.' :: rest
    let width := Nat.toDigits 10 lead.natAbs
    let size := if width.length < 2 then '0' :: width else width
    mantissa ++ 'e' :: (if lead < 0 then '-' else '+') :: size
  else if lead < 0 then
    '0' :: '.' :: List.replicate (lead.natAbs - 1) '0' ++ digits
  else
    let cut := lead.toNat + 1
    let whole := digits.take cut ++ List.replicate (cut - digits.length) '0'
    let rest := digits.drop cut
    whole ++ '.' :: (if rest.isEmpty then ['0'] else rest)

/-- The written form of a double. -/
def floatText (x : Float) : String :=
  match Binary.ofFloat? x with
  | none => if x != x then "nan" else if x < 0 then "-inf" else "inf"
  | some b =>
    let body := if b.mantissa == 0 then ['0', '.', '0']
      else
        let (digits, lead) := shortestDigits b
        layOut digits lead
    String.ofList (if b.negative then '-' :: body else body)

end NodeFlow.Decimal
