import NodeFlow.Text.Ranges

/-!
# Digits

Two classes of digits.  A decimal digit has a place value and may stand in a numeral; a digit in
the wider sense (a superscript two, a circled three) looks like a number and cannot be read as
one.

Main results:

- Definitions `digitValue?` and `isDigit`.
- Theorem `digitValue?_lt`: a place value is below ten.
-/

namespace NodeFlow.Text

/-- The code points of the zeros of all decimal scripts; the other nine digits follow each. -/
def decimalZeros : List Nat := [
  48, 1632, 1776, 1984, 2406, 2534, 2662, 2790, 2918, 3046, 3174, 3302, 3430, 3558, 3664, 3792,
  3872, 4160, 4240, 6112, 6160, 6470, 6608, 6784, 6800, 6992, 7088, 7232, 7248, 42528, 43216,
  43264, 43472, 43504, 43600, 44016, 65296, 66720, 68912, 69734, 69872, 69942, 70096, 70384,
  70736, 70864, 71248, 71360, 71472, 71904, 72016, 72784, 73040, 73120, 92768, 92864, 93008,
  120782, 120792, 120802, 120812, 120822, 123200, 123632, 125264, 130032]

/-- Digits that have no place value. -/
def ornamentRanges : List Range := [
  (178, 179), (185, 185), (4969, 4977), (6618, 6618), (8304, 8304), (8308, 8313), (8320, 8329),
  (9312, 9320), (9332, 9340), (9352, 9360), (9450, 9450), (9461, 9469), (9471, 9471),
  (10102, 10110), (10112, 10120), (10122, 10130), (68160, 68163), (69216, 69224), (69714, 69722),
  (127232, 127242)]

/-- The place value of a decimal digit of any script. -/
def digitValue? (c : Char) : Option Nat :=
  (decimalZeros.find? fun z => z ≤ c.toNat && c.toNat < z + 10).map (c.toNat - ·)

/-- A digit in the wider sense. -/
def isDigit (c : Char) : Bool := (digitValue? c).isSome || inRanges ornamentRanges c

/-- A decimal digit has a value below ten. -/
theorem digitValue?_lt {c : Char} {d : Nat} (h : digitValue? c = some d) : d < 10 := by
  simp only [digitValue?, Option.map_eq_some_iff] at h
  obtain ⟨z, hz, rfl⟩ := h
  have := List.find?_some hz
  simp only [Bool.and_eq_true, decide_eq_true_eq] at this
  omega

/-- Whether a text, less the hyphens in front of it, is a nonempty run of digits. -/
def looksNumeric (s : String) : Bool :=
  let digits := s.toList.dropWhile (· == '-')
  !digits.isEmpty && digits.all isDigit

end NodeFlow.Text
