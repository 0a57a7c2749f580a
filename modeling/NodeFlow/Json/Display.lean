import NodeFlow.Decimal.Shortest
import NodeFlow.Json.Basic
import NodeFlow.Text.Quoted

/-!
# Displayed values

The text that stands for a value in messages and prompt keys.  A text shows itself; inside an
array or an object it is quoted.

Main results:

- Definitions `Json.display` and `Json.quoted`.
-/

namespace NodeFlow.Json

/-- The text of a value that holds no others. -/
def atomText : Json → String
  | null => "None"
  | bool true => "True"
  | bool false => "False"
  | int n => toString n
  | float x => Decimal.floatText x
  | str s => Text.quote s
  | _ => ""

mutual
/-- The form of a value inside other values. -/
def quoted : Json → String
  | arr xs => "[" ++ quotedItems xs ++ "]"
  | obj ms => "\x7b" ++ quotedMembers ms ++ "\x7d"
  | null => atomText null
  | bool b => atomText (bool b)
  | int n => atomText (int n)
  | float x => atomText (float x)
  | str s => atomText (str s)

/-- Items with commas between them. -/
def quotedItems : List Json → String
  | [] => ""
  | [x] => x.quoted
  | x :: xs => x.quoted ++ ", " ++ quotedItems xs

/-- Members with commas between them. -/
def quotedMembers : List (String × Json) → String
  | [] => ""
  | [(k, x)] => Text.quote k ++ ": " ++ x.quoted
  | (k, x) :: ms => Text.quote k ++ ": " ++ x.quoted ++ ", " ++ quotedMembers ms
end

/-- The text of a value in a message. -/
def display : Json → String
  | str s => s
  | v => v.quoted

@[simp] theorem display_str (s : String) : display (.str s) = s := rfl

end NodeFlow.Json
