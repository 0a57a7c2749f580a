import NodeFlow.Decimal.Numeral

/-!
# Numerals in fields

A field for a number also takes a text, and reads it more freely than a bare numeral: zeros in
front may be joined by any number of underscores, a whole number may end in a fraction of zeros,
and single underscores may stand anywhere inside.

Main results:

- Definitions `wholeText` and `floatText?`: the number that a text in a field stands for.
- Definition `dropZeros?`: a numeral without the zeros in front.
- Theorems `dropZeros?_isSome_head` and `withoutJoints?_not_mem`: what is left of a numeral.
-/

namespace NodeFlow.Check

open NodeFlow.Text NodeFlow.Decimal

/-! ## Cleaning -/

/-- Drop zeros and underscores up to the first other digit or minus sign.  The last zero stays when
a point follows it or nothing does; then `last` is the character before. -/
def skipZeros? (last : Char) : List Char → Option (List Char)
  | [] => some [last]
  | c :: cs =>
    if c == '0' || c == '_' then skipZeros? c cs
    else if c.isDigit || c == '-' then some (c :: cs)
    else if c == '.' then some (last :: c :: cs)
    else none

/-- A numeral without the zeros in front.  It has to start with a digit or a minus sign. -/
def dropZeros? : List Char → Option (List Char)
  | [] => none
  | c :: cs =>
    if c == '0' then skipZeros? c cs
    else if c.isDigit || c == '-' then some (c :: cs)
    else none

/-- A numeral without a fraction of zeros at its end, which has at least one. -/
def dropFraction (cs : List Char) : List Char :=
  let (whole, fraction) := (cs.takeWhile (· != '.'), cs.dropWhile (· != '.'))
  match fraction with
  | '.' :: d :: ds => if (d :: ds).all (· == '0') then whole else cs
  | _ => cs

/-- Whether two underscores stand next to each other. -/
def hasDoubleJoint : List Char → Bool
  | '_' :: '_' :: _ => true
  | _ :: cs => hasDoubleJoint cs
  | [] => false

/-- A text without its underscores, which may stand neither at an end nor next to each other. -/
def withoutJoints? (cs : List Char) : Option (List Char) :=
  if cs.head? == some '_' || cs.getLast? == some '_' || hasDoubleJoint cs then none
  else some (cs.filter (· != '_'))

/-- Zeros can be dropped only from what starts with a digit or a sign. -/
theorem dropZeros?_isSome_head {cs : List Char} (h : (dropZeros? cs).isSome = true) :
    ∃ c rest, cs = c :: rest ∧ (c.isDigit = true ∨ c = '-') := by
  cases cs with
  | nil => simp [dropZeros?] at h
  | cons c rest =>
    refine ⟨c, rest, rfl, ?_⟩
    simp only [dropZeros?] at h
    split at h
    · rename_i h0
      left
      rw [beq_iff_eq.1 h0]
      decide
    · split at h
      · rename_i hc
        simpa using hc
      · simp at h

/-- Nothing is left of the underscores. -/
theorem withoutJoints?_not_mem {cs ds : List Char} (h : withoutJoints? cs = some ds) :
    '_' ∉ ds := by
  unfold withoutJoints? at h
  split at h
  · simp at h
  · simp only [Option.some.injEq] at h
    subst h
    simp

/-! ## Whole numbers -/

/-- Read digits with an optional minus sign in front and no zero before them.  The sign counts
among the digits for the limit. -/
def readPlain (cs : List Char) : Reading :=
  let (negative, body) := match cs with
    | '-' :: body => (true, body)
    | body => (false, body)
  let ds := body.takeWhile (·.isDigit)
  let rest := body.dropWhile (·.isDigit)
  if ds.isEmpty || (ds.head? == some '0' && ds != ['0']) then .malformed
  else if maxDigits < ds.length + (if negative then 1 else 0) then .tooLong ds.length
  else if rest.isEmpty then .whole (signed negative (ds.filterMap plainDigit))
  else .malformed

/-- The whole number that a text in a field stands for. -/
def wholeText (s : String) : Reading :=
  let cleaned := match trimBoth isSpace s.toList with
    | '+' :: '-' :: _ => none
    | '+' :: cs => dropZeros? cs
    | '-' :: cs => (dropZeros? cs).map ('-' :: ·)
    | cs => dropZeros? cs
  match cleaned.map dropFraction with
  | some cs => readPlain ((withoutJoints? cs).getD cs)
  | none => .malformed

/-! ## Doubles -/

/-- The double of a numeral with neither blanks nor underscores. -/
def plainFloat? (cs : List Char) : Option Float :=
  if cs.any fun c => c == '_' || isSpace c then none
  else readFloat? plainDigit (String.ofList cs)

/-- The double that a text in a field stands for.  Blanks around it count for nothing, unless it
has underscores. -/
def floatText? (s : String) : Option Float :=
  match plainFloat? (trimBoth isSpace s.toList) with
  | some x => some x
  | none => (withoutJoints? s.toList).bind plainFloat?

end NodeFlow.Check
