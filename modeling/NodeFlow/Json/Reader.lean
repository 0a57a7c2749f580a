import NodeFlow.Decimal.Numeral
import NodeFlow.Json.Basic

/-!
# Reading JSON text

A reader for JSON text that keeps the order of members and the difference between whole numbers
and doubles.  A member named twice keeps its first place and its last value.  The reader has
limits on digits and nesting, and stops at the first thing that is wrong.

Main results:

- Types `Json.Flaw` and `Json.Limits`; definition `Json.read`: the value of a whole text, or what
  is wrong with it.
- Definition `Json.parse?`: the value of a whole text of any size.
- Theorem `Json.parse?_empty`: the empty text has none.
-/

namespace NodeFlow.Json

/-- What is wrong with a text. -/
inductive Flaw where
  | malformed
  /-- A whole number with too many digits. -/
  | tooLong (digits : Nat)
  /-- Values nested too deep; the innermost is an object or an array. -/
  | tooDeep (isObject : Bool)
  deriving DecidableEq

/-- How many digits a whole number may have, and how deep values may be nested. -/
structure Limits where
  digits : Nat
  nesting : Nat

/-- The limits that hold for the texts of others. -/
def Limits.usual : Limits := ⟨Decimal.maxDigits, 975⟩

/-- Limits that no text of the given length meets. -/
def Limits.above (length : Nat) : Limits := ⟨length, length⟩

/-- What was read and the rest of the text. -/
abbrev Found := Except Flaw (Json × List Char)

/-- The value of a hexadecimal digit. -/
def hexValue? (c : Char) : Option Nat :=
  if c.isDigit then some (c.toNat - '0'.toNat)
  else if 'a' ≤ c && c ≤ 'f' then some (c.toNat - 'a'.toNat + 10)
  else if 'A' ≤ c && c ≤ 'F' then some (c.toNat - 'A'.toNat + 10)
  else none

/-- A code unit written with four hexadecimal digits. -/
def readUnit? : List Char → Option (Nat × List Char)
  | a :: b :: c :: d :: rest => do
    let a ← hexValue? a
    let b ← hexValue? b
    let c ← hexValue? c
    let d ← hexValue? d
    pure (((a * 16 + b) * 16 + c) * 16 + d, rest)
  | _ => none

/-- The character of a code unit, joined with the unit after it when both form a pair.  A unit
without its partner becomes the replacement character. -/
def joinUnits (first : Nat) (rest : List Char) : Char × List Char :=
  let alone : Char × List Char :=
    (if 0xD800 ≤ first && first < 0xE000 then Char.ofNat 0xFFFD else Char.ofNat first, rest)
  if 0xD800 ≤ first && first < 0xDC00 then
    match rest with
    | '\\' :: 'u' :: more =>
      match readUnit? more with
      | some (second, more) =>
        if 0xDC00 ≤ second && second < 0xE000 then
          (Char.ofNat (0x10000 + (first - 0xD800) * 0x400 + (second - 0xDC00)), more)
        else alone
      | none => alone
    | _ => alone
  else alone

/-- The character that a letter after a backslash stands for. -/
def escaped? : Char → Option Char
  | '"' => some '"'
  | '\\' => some '\\'
  | '/' => some '/'
  | 'b' => some (Char.ofNat 8)
  | 'f' => some (Char.ofNat 12)
  | 'n' => some '\n'
  | 'r' => some '\r'
  | 't' => some '\t'
  | _ => none

/-- The characters of a text up to its closing quote, in reverse order, and the rest. -/
def readText? : Nat → List Char → List Char → Option (List Char × List Char)
  | 0, _, _ => none
  | _ + 1, _, [] => none
  | fuel + 1, acc, c :: rest =>
    if c == '"' then some (acc, rest)
    else if c == '\\' then
      match rest with
      | 'u' :: rest => do
        let (first, rest) ← readUnit? rest
        let (c, rest) := joinUnits first rest
        readText? fuel (c :: acc) rest
      | e :: rest => do
        let c ← escaped? e
        readText? fuel (c :: acc) rest
      | [] => none
    else if c.toNat < 32 then none
    else readText? fuel (c :: acc) rest

/-- Split off the decimal digits in front. -/
def spanDigits (cs : List Char) : List Char × List Char :=
  (cs.takeWhile (·.isDigit), cs.dropWhile (·.isDigit))

/-- The number with the given digits. -/
def natOf (ds : List Char) : Nat := ds.foldl (fun n d => 10 * n + (d.toNat - '0'.toNat)) 0

/-- An exponent with at least one digit, if one stands in front. -/
def readPower (cs : List Char) : Option Int × List Char :=
  match cs with
  | e :: rest =>
    if e == 'e' || e == 'E' then
      let (negative, body) := Decimal.takeSign rest
      match spanDigits body with
      | ([], _) => (none, cs)
      | (ds, rest) => (some (if negative then -(natOf ds : Int) else natOf ds), rest)
    else (none, cs)
  | [] => (none, cs)

/-- A number without sign: whole when it has neither fraction nor exponent. -/
def readNumber (limits : Limits) (negative : Bool) (cs : List Char) : Found :=
  let (ds, rest) := spanDigits cs
  let (whole, rest) := match ds with
    | '0' :: more => (['0'], more ++ rest)
    | ds => (ds, rest)
  if whole.isEmpty then .error .malformed
  else
    let (fraction, rest) := match rest with
      | '.' :: more =>
        match spanDigits more with
        | ([], _) => ([], rest)
        | found => found
      | _ => ([], rest)
    let (power, rest) := readPower rest
    if fraction.isEmpty && power.isNone then
      if limits.digits < whole.length then .error (.tooLong whole.length)
      else .ok (.int (if negative then -(natOf whole : Int) else natOf whole), rest)
    else
      let value := Decimal.scaleFloat negative (natOf (whole ++ fraction))
        (power.getD 0 - fraction.length)
      .ok (.float value, rest)

/-- Skip the blanks that JSON allows between tokens. -/
def skipBlanks (cs : List Char) : List Char :=
  cs.dropWhile fun c => c == ' ' || c == '\n' || c == '\r' || c == '\t'

/-- Drop an expected beginning. -/
def expect? : List Char → List Char → Option (List Char)
  | [], cs => some cs
  | w :: ws, c :: cs => if w == c then expect? ws cs else none
  | _ :: _, [] => none

/-- One of the words that stand for a value. -/
def readWord? (cs : List Char) : Option (Json × List Char) :=
  [("null", Json.null), ("true", .bool true), ("false", .bool false),
    ("NaN", .float (0.0 / 0.0)), ("Infinity", .float (1.0 / 0.0)),
    ("-Infinity", .float (-(1.0 / 0.0)))].findSome? fun (word, value) =>
      (expect? word.toList cs).map fun rest => (value, rest)

/-- A text after its opening quote. -/
def readQuoted (cs : List Char) : Except Flaw (String × List Char) :=
  match readText? (cs.length + 1) [] cs with
  | some (acc, rest) => .ok (String.ofList acc.reverse, rest)
  | none => .error .malformed

mutual
/-- One value and the rest of the text.  Every character costs at most two units of fuel, and
`room` says how many more arrays and objects may be opened inside each other. -/
def readValue (limits : Limits) : Nat → Nat → List Char → Found
  | 0, _, _ => .error .malformed
  | fuel + 1, room, cs =>
    match cs with
    | '"' :: rest => do
      let (s, rest) ← readQuoted rest
      pure (.str s, rest)
    | '[' :: rest =>
      match room with
      | 0 => .error (.tooDeep false)
      | room + 1 =>
        match skipBlanks rest with
        | ']' :: rest => .ok (.arr [], rest)
        | rest => readItems limits fuel room [] rest
    | '\x7b' :: rest =>
      match room with
      | 0 => .error (.tooDeep true)
      | room + 1 =>
        match skipBlanks rest with
        | '\x7d' :: rest => .ok (.obj [], rest)
        | rest => readMembers limits fuel room [] rest
    | cs =>
      match readWord? cs with
      | some found => .ok found
      | none =>
        match cs with
        | '-' :: rest => readNumber limits true rest
        | cs => readNumber limits false cs

/-- The items of an array after those already read, which are in reverse order. -/
def readItems (limits : Limits) : Nat → Nat → List Json → List Char → Found
  | 0, _, _, _ => .error .malformed
  | fuel + 1, room, acc, cs => do
    let (value, rest) ← readValue limits fuel room (skipBlanks cs)
    match skipBlanks rest with
    | ',' :: rest => readItems limits fuel room (value :: acc) rest
    | ']' :: rest => pure (.arr (value :: acc).reverse, rest)
    | _ => .error .malformed

/-- The members of an object after those already read. -/
def readMembers (limits : Limits) : Nat → Nat → Members → List Char → Found
  | 0, _, _, _ => .error .malformed
  | fuel + 1, room, acc, cs =>
    match skipBlanks cs with
    | '"' :: rest => do
      let (name, rest) ← readQuoted rest
      match skipBlanks rest with
      | ':' :: rest => do
        let (value, rest) ← readValue limits fuel room (skipBlanks rest)
        let acc := acc.set name value
        match skipBlanks rest with
        | ',' :: rest => readMembers limits fuel room acc rest
        | '\x7d' :: rest => pure (.obj acc, rest)
        | _ => .error .malformed
      | _ => .error .malformed
    | _ => .error .malformed
end

/-- The value of a text that holds one value and blanks around it, or what is wrong first. -/
def read (limits : Limits) (text : String) : Except Flaw Json := do
  let cs := text.toList
  let (value, rest) ← readValue limits (2 * cs.length + 2) limits.nesting (skipBlanks cs)
  if (skipBlanks rest).isEmpty then pure value else .error .malformed

/-- The value of a text of any size that holds one value and blanks around it. -/
def parse? (text : String) : Option Json := (read (.above text.length) text).toOption

/-- An empty text is no JSON. -/
theorem parse?_empty : parse? "" = none := by
  rfl

end NodeFlow.Json
