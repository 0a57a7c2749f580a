import NodeFlow.Json.Arithmetic
import NodeFlow.Widget.Basic

/-!
# Value control

A control widget advances the widget in front of it after every submission: by a step up or down
that stops at the bounds, or to a random value between them.

Main results:

- Type `ControlMode` and definition `ControlMode.ofJson?`.
- Definitions `ControlMode.nextChoice` and `ControlMode.nextNumber`: the value a control leads
  to.
- Definition `ControlMode.next?`: both, by the kind of the widget.
-/

namespace NodeFlow

/-- The ways in which a value moves. -/
inductive ControlMode where
  | increment
  | decrement
  | randomize
  deriving DecidableEq, Inhabited

namespace ControlMode

/-- The name of control widgets. -/
def widgetName : String := "control_after_generate"

/-- What a control widget offers; the first choice leaves the value alone. -/
def names : List String := ["fixed", "increment", "decrement", "randomize"]

/-- Random values keep this distance from zero. -/
def randomRange : Int := 1125899906842624

/-- The mode that a control value stands for, if it moves anything. -/
def ofJson? : Json → Option ControlMode
  | .str "increment" => some .increment
  | .str "decrement" => some .decrement
  | .str "randomize" => some .randomize
  | _ => none

/-- The choices in a widget's options: a list, or the characters of a text.  Values that count as
false stand for no choices. -/
def choicesOf (w : Widget) : Except Fault (List Json) :=
  match (w.options.get? "values").getD .null with
  | .arr xs => .ok xs
  | .str s => .ok (s.toList.map fun c => .str c.toString)
  | v =>
    if v.truthy then
      .error (.noPart ("'" ++ v.typeName ++ "' object has no attribute 'index'"))
    else .ok []

/-- Where a word first occurs in a text. -/
def occurrence? (word : List Char) : List Char → Option Nat
  | [] => if word.isEmpty then some 0 else none
  | c :: cs =>
    if word.isPrefixOf (c :: cs) then some 0 else (occurrence? word cs).map (· + 1)

/-- The position of the value among the choices, the first one if it is none of them. -/
def currentPosition (w : Widget) (choices : List Json) : Except Fault Nat :=
  match (w.options.get? "values").getD .null, w.value with
  | .str s, .str t => .ok ((occurrence? t.toList s.toList).getD 0)
  | .str _, v => .error (.mistyped ("must be str, not " ++ v.typeName))
  | _, v => .ok ((v.position? choices).getD 0)

/-- The position a choice moves to. -/
def nextPosition (mode : ControlMode) (current size : Nat) (r : Random) : Nat × Random :=
  match mode with
  | .increment => (min (current + 1) (size - 1), r)
  | .decrement => (current - 1, r)
  | .randomize => r.index size

/-- The choice to move to. -/
def nextChoice (mode : ControlMode) (w : Widget) (r : Random) :
    Except Fault (Option Json) × Random :=
  match choicesOf w with
  | .error e => (.error e, r)
  | .ok [] => (.ok none, r)
  | .ok (x :: xs) =>
    match currentPosition w (x :: xs) with
    | .error e => (.error e, r)
    | .ok current =>
      let (i, r) := mode.nextPosition current (x :: xs).length r
      (.ok (some ((x :: xs).getD i .null)), r)

/-- A random value: a whole number of steps above the lower bound. -/
def randomValue (step low high : Json) (r : Random) : Except Fault Json × Random :=
  let span : Except Fault Json := do
    let low ← Json.larger (.int (-randomRange)) low
    let high ← Json.smaller (.int randomRange) high
    let steps ← Json.dividedBy (← Json.minus high low) step
    pure (.arr [low, .int (← Json.toWhole steps)])
  match span with
  | .error e => (.error e, r)
  | .ok v =>
    let low := v.items.getD 0 .null
    let steps := v.items.getD 1 .null
    let (x, r) := r.fraction
    let value : Except Fault Json := do
      let count ← Json.floorOf (← Json.times x steps)
      Json.plus (← Json.times (.int count) step) low
    (value, r)

/-- A value cut to its bounds; a null bound is none. -/
def clamp (low high v : Json) : Except Fault Json := do
  let v ← if high.isNull then pure v
    else do if ← Json.before high v then pure high else pure v
  if low.isNull then pure v
  else do if ← Json.before v low then pure low else pure v

/-- The number to move to.  A value that is no number counts as the lower bound. -/
def nextNumber (mode : ControlMode) (w : Widget) (r : Random) : Except Fault Json × Random :=
  let stated := (w.options.get? "step").getD (.int 1)
  let step := if stated.truthy then stated else .int 1
  let low := (w.options.get? "min").getD (.int 0)
  let high := (w.options.get? "max").getD (.int randomRange)
  let value := if w.value.number?.isSome then w.value else low
  let (moved, r) := match mode with
    | .increment => (Json.plus value step, r)
    | .decrement => (Json.minus value step, r)
    | .randomize => randomValue step low high r
  let settled : Except Fault Json := do
    let v ← clamp low high (← moved)
    if ((w.options.get? "precision").getD .null).same (.int 0) then
      pure (.int (← Json.toWhole v))
    else pure v
  (settled, r)

/-- The value to move to, if the widget moves at all. -/
def next? (mode : ControlMode) (w : Widget) (r : Random) :
    Except Fault (Option Json) × Random :=
  if w.kind == "combo" then mode.nextChoice w r
  else
    let (v, r) := mode.nextNumber w r
    (v.map some, r)

end ControlMode

end NodeFlow
