import NodeFlow.Decimal.Shortest
import NodeFlow.Json.Basic

/-!
# Writing JSON text

The compact text of a value.  A double without a JSON form, an infinity say, is written as an
object that names it.

Main results:

- Definition `Json.render`.
-/

namespace NodeFlow.Json

/-- A lower-case hexadecimal digit. -/
def hexDigit (n : Nat) : Char := (Nat.toDigits 16 n).headD '0'

/-- Append one character of a text. -/
def writeChar (acc : String) (c : Char) : String :=
  if c == '"' then acc ++ "\\\""
  else if c == '\\' then acc ++ "\\\\"
  else if c == '\n' then acc ++ "\\n"
  else if c == '\r' then acc ++ "\\r"
  else if c == '\t' then acc ++ "\\t"
  else if c.toNat < 32 then
    ((acc ++ "\\u00").push (hexDigit (c.toNat / 16))).push (hexDigit (c.toNat % 16))
  else acc.push c

/-- Append a text in double quotes. -/
def writeText (acc s : String) : String := (s.toList.foldl writeChar (acc.push '"')).push '"'

/-- Append a double. -/
def writeFloat (acc : String) (x : Float) : String :=
  let text := Decimal.floatText x
  match Decimal.Binary.ofFloat? x with
  | some _ => acc ++ text
  | none => acc ++ "\x7b\"$float\":\"" ++ text ++ "\"\x7d"

mutual
/-- Append a value. -/
def write : Json → String → String
  | null, acc => acc ++ "null"
  | bool true, acc => acc ++ "true"
  | bool false, acc => acc ++ "false"
  | int n, acc => acc ++ toString n
  | float x, acc => writeFloat acc x
  | str s, acc => writeText acc s
  | arr xs, acc => (writeItems true xs (acc.push '[')).push ']'
  | obj ms, acc => (writeMembers true ms (acc.push '\x7b')).push '\x7d'

/-- Append items, with a comma before each but the first. -/
def writeItems : Bool → List Json → String → String
  | _, [], acc => acc
  | first, x :: xs, acc => writeItems false xs (x.write (if first then acc else acc.push ','))

/-- Append members, with a comma before each but the first. -/
def writeMembers : Bool → List (String × Json) → String → String
  | _, [], acc => acc
  | first, (k, x) :: ms, acc =>
    let acc := if first then acc else acc.push ','
    writeMembers false ms (x.write ((writeText acc k).push ':'))
end

/-- The compact text of a value. -/
def render (v : Json) : String := v.write ""

end NodeFlow.Json
