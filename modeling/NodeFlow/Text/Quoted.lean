import NodeFlow.Text.Printable

/-!
# Quoted text

The form in which a text stands inside another value or a message: single quotes, unless the
text holds a single quote and no double quote.  The quote in use, the backslash and everything
unprintable are escaped.

Main results:

- Definition `quote`.
- Theorem `chooseQuote_eq`: the quote is double exactly for a text with a single quote and no
  double quote.
-/

namespace NodeFlow.Text

/-- The quote that goes around a text. -/
def chooseQuote (s : List Char) : Char :=
  if s.contains '\'' && !s.contains '"' then '"' else '\''

/-- Double quotes are chosen for a text with single quotes and no double ones. -/
theorem chooseQuote_eq (s : List Char) :
    chooseQuote s = '"' ↔ '\'' ∈ s ∧ '"' ∉ s := by
  unfold chooseQuote
  split <;> simp_all

/-- The lower-case hexadecimal digits of a number, filled with zeros up to a width. -/
def hexDigits (width n : Nat) : List Char :=
  let digits := Nat.toDigits 16 n
  List.replicate (width - digits.length) '0' ++ digits

/-- One character inside quotes. -/
def quoteChar (q c : Char) : List Char :=
  if c == q || c == '\\' then ['\\', c]
  else if c == '\n' then ['\\', 'n']
  else if c == '\r' then ['\\', 'r']
  else if c == '\t' then ['\\', 't']
  else if isPrintable c then [c]
  else if c.toNat < 256 then '\\' :: 'x' :: hexDigits 2 c.toNat
  else if c.toNat < 65536 then '\\' :: 'u' :: hexDigits 4 c.toNat
  else '\\' :: 'U' :: hexDigits 8 c.toNat

/-- A text in quotes. -/
def quote (s : String) : String :=
  let q := chooseQuote s.toList
  String.ofList (q :: s.toList.flatMap (quoteChar q) ++ [q])

end NodeFlow.Text
