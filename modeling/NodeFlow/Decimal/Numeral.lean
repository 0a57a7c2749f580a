import NodeFlow.Decimal.Binary
import NodeFlow.Text.Blank
import NodeFlow.Text.Digit

/-!
# Reading numerals

A numeral may have white space around it, a sign, and single underscores between its digits.  The
digits are those of a given script table, so the same reader serves numerals of all scripts and
plain ones.

Main results:

- Type `Reading` and definition `readInt`: a whole number, unless the text is no numeral or has more
  digits than are read.
- Definition `readFloat?`.
- Theorem `readDigits_of_not_digit`: a numeral starts with a digit.
-/

namespace NodeFlow.Decimal

open NodeFlow.Text

/-- Which characters count as digits, with their place values. -/
abbrev Digits := Char → Option Nat

/-- The digits of ASCII. -/
def plainDigit : Digits := fun c => if c.isDigit then some (c.toNat - '0'.toNat) else none

/-- Split a sign off. -/
def takeSign : List Char → Bool × List Char
  | '-' :: cs => (true, cs)
  | '+' :: cs => (false, cs)
  | cs => (false, cs)

/-- A run of digits with single underscores between them: the place values and the rest.  The
flag says whether a digit stands before, so that an underscore may join another one to it. -/
def readDigits (digit : Digits) : Bool → List Char → List Nat × List Char
  | _, [] => ([], [])
  | joined, c :: cs =>
    match digit c with
    | some d =>
      let (ds, rest) := readDigits digit true cs
      (d :: ds, rest)
    | none =>
      if joined && c == '_' then
        match readDigits digit false cs with
        | ([], _) => ([], c :: cs)
        | found => found
      else ([], c :: cs)

/-- Without a digit in front nothing is read. -/
theorem readDigits_of_not_digit {digit : Digits} {c : Char} (h : digit c = none)
    (cs : List Char) : readDigits digit false (c :: cs) = ([], c :: cs) := by
  simp [readDigits, h]

/-- The number that place values stand for. -/
def ofDigits (ds : List Nat) : Nat := ds.foldl (fun n d => 10 * n + d) 0

/-- The most digits that a whole number is read with. -/
def maxDigits : Nat := 4300

/-- What comes of reading a whole number. -/
inductive Reading where
  | whole (n : Int)
  /-- A numeral with more digits than are read. -/
  | tooLong (digits : Nat)
  | malformed
  deriving DecidableEq

/-- The whole number with a sign and place values. -/
def signed (negative : Bool) (ds : List Nat) : Int :=
  if negative then -(ofDigits ds : Int) else ofDigits ds

/-- Read a whole number: a sign, digits and nothing else, white space aside.  That there are too
many digits shows before what follows them. -/
def readInt (digit : Digits) (s : String) : Reading :=
  let (negative, cs) := takeSign (trimBoth isSpace s.toList)
  match readDigits digit false cs with
  | ([], _) => .malformed
  | (_, '_' :: _) => .malformed
  | (ds, rest) =>
    if maxDigits < ds.length then .tooLong ds.length
    else if rest.isEmpty then .whole (signed negative ds)
    else .malformed

/-- The double nearest to `digits * 10 ^ power`.  Powers far out of range are cut short, since the
answer no longer depends on them. -/
def scaleFloat (negative : Bool) (digits : Nat) (power : Int) : Float :=
  let size := (Nat.toDigits 10 digits).length
  if digits == 0 then nearestFloat negative 0 1
  else if 400 < power + size then nearestFloat negative (Nat.pow 10 400) 1
  else if power + size < -400 then nearestFloat negative 0 1
  else if 0 ≤ power then nearestFloat negative (digits * Nat.pow 10 power.toNat) 1
  else nearestFloat negative digits (Nat.pow 10 (-power).toNat)

/-- The exponent part of a decimal, if there is one and nothing follows it. -/
def readExponent? (digit : Digits) : List Char → Option Int
  | [] => some 0
  | c :: cs =>
    if c == 'e' || c == 'E' then
      let (negative, cs) := takeSign cs
      match readDigits digit false cs with
      | (d :: ds, []) =>
        let n := ofDigits (d :: ds)
        some (if negative then -(n : Int) else (n : Int))
      | _ => none
    else none

/-- Read a decimal with optional fraction and exponent, or one of the words for infinity and for
an undefined value. -/
def readFloat? (digit : Digits) (s : String) : Option Float :=
  let (negative, cs) := takeSign (trimBoth isSpace s.toList)
  let word := lowerWord cs
  if word == "inf" || word == "infinity" then
    some (if negative then -(1.0 / 0.0) else 1.0 / 0.0)
  else if word == "nan" then some (0.0 / 0.0)
  else
    let (whole, rest) := readDigits digit false cs
    let (fraction, rest) := match rest with
      | '.' :: rest => readDigits digit false rest
      | rest => ([], rest)
    if whole.isEmpty && fraction.isEmpty then none
    else
      (readExponent? digit rest).map fun power =>
        scaleFloat negative (ofDigits (whole ++ fraction)) (power - fraction.length)
where
  /-- The letters of a word in lower case. -/
  lowerWord (cs : List Char) : String := String.ofList (cs.map Char.toLower)

end NodeFlow.Decimal
