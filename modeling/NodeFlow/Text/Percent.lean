/-!
# Percent encoding

A character that may not stand in a part of an address is written as its UTF-8 bytes, each as a
percent sign with two hexadecimal digits.  What is written so already stays as it is.

Main results:

- Definitions `percentEncode` and `percentDecode`.
- Theorem `percentEncode_of_safe`: a text of safe characters is left alone.
- Theorem `percentDecode_percentByte`: an encoded byte is read back.
-/

namespace NodeFlow.Text

/-- An upper-case hexadecimal digit. -/
def upperHexDigit (n : Nat) : Char := Char.ofNat (if n < 10 then 48 + n else 55 + n)

/-- The value of a hexadecimal digit in either case. -/
def hexDigitValue? (c : Char) : Option Nat :=
  if c.isDigit then some (c.toNat - 48)
  else if 'a' ≤ c && c ≤ 'f' then some (c.toNat - 87)
  else if 'A' ≤ c && c ≤ 'F' then some (c.toNat - 55)
  else none

/-- A hexadecimal digit that is written is read back. -/
theorem hexDigitValue?_upperHexDigit {n : Nat} (h : n < 16) :
    hexDigitValue? (upperHexDigit n) = some n := by
  have all : ∀ m < 16, hexDigitValue? (upperHexDigit m) = some m := by decide
  exact all n h

/-- A byte behind a percent sign. -/
def percentByte (n : Nat) : List Char := ['%', upperHexDigit (n / 16), upperHexDigit (n % 16)]

/-- A character as its bytes, each behind a percent sign. -/
def percentChar (c : Char) : List Char :=
  (String.singleton c).toUTF8.toList.flatMap fun b => percentByte b.toNat

/-- Encode the characters that are not safe; bytes that are encoded already stay. -/
def percentEncodeChars (safe : Char → Bool) : List Char → List Char
  | [] => []
  | c :: cs =>
    let written := if safe c then [c] else percentChar c
    match c, cs with
    | '%', x :: y :: rest =>
      if (hexDigitValue? x).isSome && (hexDigitValue? y).isSome then
        '%' :: x :: y :: percentEncodeChars safe rest
      else written ++ percentEncodeChars safe (x :: y :: rest)
    | _, cs => written ++ percentEncodeChars safe cs
termination_by cs => cs.length

/-- Encode the characters of a text that are not safe. -/
def percentEncode (safe : Char → Bool) (s : String) : String :=
  String.ofList (percentEncodeChars safe s.toList)

/-- Decode the bytes of a text.  A byte outside ASCII becomes the character of its number, which is
enough to tell texts of ASCII apart from all others. -/
def percentDecodeChars : List Char → List Char
  | '%' :: x :: y :: rest =>
    match hexDigitValue? x, hexDigitValue? y with
    | some a, some b => Char.ofNat (16 * a + b) :: percentDecodeChars rest
    | _, _ => '%' :: percentDecodeChars (x :: y :: rest)
  | c :: cs => c :: percentDecodeChars cs
  | [] => []
termination_by cs => cs.length

/-- Decode the bytes of a text. -/
def percentDecode (s : String) : String := String.ofList (percentDecodeChars s.toList)

/-- Safe characters are not encoded. -/
theorem percentEncodeChars_of_safe {safe : Char → Bool} {cs : List Char}
    (h : ∀ c ∈ cs, safe c = true) : percentEncodeChars safe cs = cs := by
  fun_induction percentEncodeChars safe cs with
  | case1 => rfl
  | case2 => grind
  | case3 => grind
  | case4 => grind

/-- A text of safe characters is left alone. -/
theorem percentEncode_of_safe {safe : Char → Bool} {s : String}
    (h : ∀ c ∈ s.toList, safe c = true) : percentEncode safe s = s := by
  simp [percentEncode, percentEncodeChars_of_safe h]

/-- An encoded byte is read back. -/
theorem percentDecode_percentByte {n : Nat} (h : n < 256) (cs : List Char) :
    percentDecodeChars (percentByte n ++ cs) = Char.ofNat n :: percentDecodeChars cs := by
  have hi : n / 16 < 16 := by omega
  have lo : n % 16 < 16 := by omega
  simp only [percentByte, List.cons_append, List.nil_append]
  rw [percentDecodeChars]
  simp only [hexDigitValue?_upperHexDigit hi, hexDigitValue?_upperHexDigit lo]
  rw [show 16 * (n / 16) + n % 16 = n by omega]

end NodeFlow.Text
