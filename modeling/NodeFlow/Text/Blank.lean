import NodeFlow.Text.Ranges

/-!
# Blank characters

Two classes of characters that are cut off both ends of a text before it is read.  A numeral may
have Unicode white space around it; where a text is cut on its own, the four information
separators go as well.

Main results:

- Definitions `isBlank`, `isSpace` and `strip`.
- Theorem `trimBoth_cons`: a leading blank does not matter.
-/

namespace NodeFlow.Text

/-- The blank characters, as ranges of code points. -/
def blankRanges : List Range := [
  (9, 13), (28, 32), (133, 133), (160, 160), (5760, 5760), (8192, 8202), (8232, 8233),
  (8239, 8239), (8287, 8287), (12288, 12288)]

/-- White space or an information separator. -/
def isBlank (c : Char) : Bool := inRanges blankRanges c

/-- White space in the narrower sense, without the information separators: what may stand around
a numeral. -/
def isSpace (c : Char) : Bool := isBlank c && !(28 ≤ c.toNat && c.toNat ≤ 31)

/-- Drop the characters of a class at both ends. -/
def trimBoth (p : Char → Bool) (s : List Char) : List Char :=
  ((s.dropWhile p).reverse.dropWhile p).reverse

/-- Cut the blanks off both ends. -/
def strip (s : String) : String := String.ofList (trimBoth isBlank s.toList)

/-- A character that is trimmed does not count at the front. -/
theorem trimBoth_cons {p : Char → Bool} {c : Char} (h : p c = true) (s : List Char) :
    trimBoth p (c :: s) = trimBoth p s := by
  simp [trimBoth, h]

/-- Drop one given character at the end, as often as it stands there. -/
def stripEnd (c : Char) (s : String) : String :=
  String.ofList ((s.toList.reverse.dropWhile (· == c)).reverse)

end NodeFlow.Text
