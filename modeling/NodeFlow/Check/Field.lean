import NodeFlow.Check.Basic
import NodeFlow.Check.Numeral
import NodeFlow.Json.Number
import NodeFlow.NodeId

/-!
# Checking fields

How a field of a record takes a value.  Numbers are taken generously: a numeral in a text, a
truth value and a double without fraction all count as whole numbers.

Main results:

- Definitions `Check.int`, `Check.float`, `Check.text`, `Check.bool`, `Check.list`,
  `Check.object`, `Check.nodeId`: one checker for each kind of field.
- Definitions `Check.required`, `Check.optional`, `Check.nullable` and `Check.record`: how the
  fields of a record are found.
-/

namespace NodeFlow.Check

open Decimal

/-! ## Single values -/

/-- The largest absolute value, plus one, that a double may have to count as a whole number. -/
def wholeBound : Nat := Nat.pow 2 63

/-- A value with more digits than a whole number may have. -/
def oversized : Checked Int :=
  Checked.fail "int_parsing_size"
    "Unable to parse input string as an integer, exceeded maximum size"

/-- A whole number. -/
def int : Json → Checked Int
  | .int n => pure n
  | .bool b => pure (if b then 1 else 0)
  | .float x =>
    match Binary.ofFloat? x with
    | none => Checked.fail "finite_number" "Input should be a finite number"
    | some b =>
      if !b.isWhole then
        Checked.fail "int_from_float"
          "Input should be a valid integer, got a number with a fractional part"
      else if b.truncate.natAbs < wholeBound then pure b.truncate
      else oversized
  | .str s =>
    match wholeText s with
    | .whole n => pure n
    | .tooLong _ => oversized
    | .malformed =>
      Checked.fail "int_parsing"
        "Input should be a valid integer, unable to parse string as an integer"
  | _ => Checked.fail "int_type" "Input should be a valid integer"

/-- A whole number that is at least one. -/
def positive (v : Json) : Checked Int := do
  let c := int v
  if c.issues.isEmpty && c.value < 1 then
    Checked.fail "greater_than_equal" "Input should be greater than or equal to 1"
  else c

/-- A double. -/
def float : Json → Checked Float
  | .int n => if n.natAbs < doubleBound then pure (floatOfInt n) else mistyped
  | .bool b => pure (if b then 1.0 else 0.0)
  | .float x => pure x
  | .str s =>
    match floatText? s with
    | some x => pure x
    | none =>
      Checked.fail "float_parsing"
        "Input should be a valid number, unable to parse string as a number"
  | _ => mistyped
where
  /-- A value that is no number, or one that no double comes near to. -/
  mistyped : Checked Float := Checked.fail "float_type" "Input should be a valid number"

/-- A text. -/
def text : Json → Checked String
  | .str s => pure s
  | _ => Checked.fail "string_type" "Input should be a valid string"

/-- The words for the two truth values. -/
def boolWord? (s : String) : Option Bool :=
  let word := s.map Char.toLower
  if ["1", "on", "t", "true", "y", "yes"].contains word then some true
  else if ["0", "off", "f", "false", "n", "no"].contains word then some false
  else none

/-- A truth value. -/
def bool : Json → Checked Bool
  | .bool b => pure b
  | .int n =>
    if n = 0 then pure false
    else if n = 1 then pure true
    else if -wholeBound ≤ n && n < wholeBound then unclear
    else mistyped
  | .float x =>
    if x == 0.0 then pure false
    else if x == 1.0 then pure true
    else
      match Binary.ofFloat? x with
      | some b => if b.isWhole && b.truncate.natAbs < wholeBound then unclear else mistyped
      | none => mistyped
  | .str s =>
    match boolWord? s with
    | some b => pure b
    | none => unclear
  | _ => mistyped
where
  /-- A value of a fitting type that is neither. -/
  unclear : Checked Bool :=
    Checked.fail "bool_parsing" "Input should be a valid boolean, unable to interpret input"
  /-- A value of another type, or a number too large. -/
  mistyped : Checked Bool := Checked.fail "bool_type" "Input should be a valid boolean"

/-- Any value. -/
def any (v : Json) : Checked Json := pure v

/-- A node id: a text stays a text, all else has to count as a whole number. -/
def nodeId : Json → Checked NodeId
  | .str s => pure (.name s)
  | v =>
    let c := int v
    if c.issues.isEmpty then pure (.number c.value)
    else
      ⟨.number 0, (c.under (.field "int")).issues ++ ((text v).under (.field "str")).issues⟩

/-- A node reference in an event, where the text is tried first. -/
def eventNode : Json → Checked NodeId
  | .str s => pure (.name s)
  | v =>
    let c := int v
    if c.issues.isEmpty then pure (.number c.value)
    else
      ⟨.number 0, ((text v).under (.field "str")).issues ++ (c.under (.field "int")).issues⟩

/-! ## Compound values -/

/-- Check items one after the other, each at its position. -/
def items {α : Type} (item : Json → Checked α) : Nat → List Json → Checked (List α)
  | _, [] => pure []
  | i, v :: vs => do
    let x ← (item v).under (.index i)
    let xs ← items item (i + 1) vs
    pure (x :: xs)

/-- A list whose items pass the given check. -/
def list {α : Type} (item : Json → Checked α) : Json → Checked (List α)
  | .arr vs => items item 0 vs
  | _ => Checked.fail "list_type" "Input should be a valid list"

/-- Any object. -/
def object : Json → Checked Members
  | .obj ms => pure ms
  | _ => Checked.fail "dict_type" "Input should be a valid dictionary"

/-- Check the values of a table, each under its name. -/
def entries {α : Type} (value : Json → Checked α) : Members → Checked (Table α)
  | [] => pure []
  | (k, v) :: ms => do
    let x ← (value v).under (.field k)
    let xs ← entries value ms
    pure ((k, x) :: xs)

/-- An object whose values pass the given check. -/
def table {α : Type} (value : Json → Checked α) (v : Json) : Checked (Table α) :=
  match v with
  | .obj ms => entries value ms
  | _ => Checked.fail "dict_type" "Input should be a valid dictionary"

/-! ## Fields of a record -/

/-- A value that may also be null. -/
def nullable {α : Type} (check : Json → Checked α) : Json → Checked (Option α)
  | .null => pure none
  | v => do
    let x ← check v
    pure (some x)

/-- A field that has to be there. -/
def required {α : Type} [Inhabited α] (ms : Members) (name : String) (check : Json → Checked α) :
    Checked α :=
  match ms.get? name with
  | some v => (check v).under (.field name)
  | none => (Checked.fail "missing" "Field required").under (.field name)

/-- A field with a value of its own when it is absent. -/
def optional {α : Type} (ms : Members) (name : String) (absent : α) (check : Json → Checked α) :
    Checked α :=
  match ms.get? name with
  | some v => (check v).under (.field name)
  | none => pure absent

/-- A field that may be absent or null. -/
def maybe {α : Type} (ms : Members) (name : String) (check : Json → Checked α) :
    Checked (Option α) :=
  optional ms name none (nullable check)

/-- A record, which only an object can be. -/
def record {α : Type} [Inhabited α] (subject : String) (fields : Members → Checked α) :
    Json → Checked α
  | .obj ms => fields ms
  | _ =>
    Checked.fail "model_type"
      ("Input should be a valid dictionary or instance of " ++ subject)

/-- The members that are no fields. -/
def others (fields : List String) (ms : Members) : Members :=
  ms.filter fun m => !fields.contains m.1

end NodeFlow.Check
