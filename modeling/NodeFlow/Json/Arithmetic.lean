import NodeFlow.Decimal.Numeral
import NodeFlow.Fault
import NodeFlow.Json.Compare

/-!
# Arithmetic on values

Sums, differences, products and quotients of the numbers that widgets hold.  Whole numbers stay
exact; as soon as one operand is a double, the other one is rounded to a double.  Operands that
are no numbers are refused, and so are whole numbers that no double can stand for.

Main results:

- Definitions `Json.plus`, `Json.minus`, `Json.times`, `Json.dividedBy`.
- Definitions `Json.toWhole` and `Json.toDouble`: the number that a value is read as.
- Theorems `Json.plus_int` and `Json.minus_int`: whole numbers are added and subtracted exactly.
-/

namespace NodeFlow.Json

open Decimal

/-- A whole number as a double. -/
def intToDouble (n : Int) : Except Fault Float :=
  if n.natAbs < doubleBound then .ok (floatOfInt n)
  else .error (.overflow "int too large to convert to float")

/-- A number as a double. -/
def numberToDouble : Number → Except Fault Float
  | .int n => intToDouble n
  | .float x => .ok x

/-- The fault of an operation on values that are no numbers. -/
def unsupported (symbol : String) (v w : Json) : Fault :=
  .mistyped ("unsupported operand type(s) for " ++ symbol ++ ": '" ++ v.typeName ++ "' and '" ++
    w.typeName ++ "'")

/-- Apply an operation to two numbers, exactly on whole numbers. -/
def onNumbers (symbol : String) (whole : Int → Int → Int) (double : Float → Float → Float)
    (v w : Json) : Except Fault Json :=
  match v.number?, w.number? with
  | some (.int m), some (.int n) => .ok (.int (whole m n))
  | some a, some b => do
    let x ← numberToDouble a
    let y ← numberToDouble b
    pure (.float (double x y))
  | _, _ => .error (unsupported symbol v w)

/-- The sum of two values; texts and arrays are joined. -/
def plus (v w : Json) : Except Fault Json :=
  match v, w with
  | str s, str t => .ok (.str (s ++ t))
  | arr xs, arr ys => .ok (.arr (xs ++ ys))
  | v, w => onNumbers "+" (· + ·) (· + ·) v w

/-- The difference of two numbers. -/
def minus (v w : Json) : Except Fault Json := onNumbers "-" (· - ·) (· - ·) v w

/-- The product of two numbers. -/
def times (v w : Json) : Except Fault Json := onNumbers "*" (· * ·) (· * ·) v w

/-- The quotient of two numbers, always a double. -/
def dividedBy (v w : Json) : Except Fault Json :=
  match v.number?, w.number? with
  | some (.int m), some (.int n) =>
    if n = 0 then .error (.overflow "division by zero")
    else
      let x := nearestFloat (decide (m < 0) != decide (n < 0) && m != 0) m.natAbs n.natAbs
      if (Binary.ofFloat? x).isSome then .ok (.float x)
      else .error (.overflow "integer division result too large for a float")
  | some a, some b => do
    let x ← numberToDouble a
    let y ← numberToDouble b
    pure (.float (x / y))
  | _, _ => .error (unsupported "/" v w)

@[simp] theorem plus_int (m n : Int) : plus (.int m) (.int n) = .ok (.int (m + n)) := rfl

@[simp] theorem minus_int (m n : Int) : minus (.int m) (.int n) = .ok (.int (m - n)) := rfl

@[simp] theorem times_int (m n : Int) : times (.int m) (.int n) = .ok (.int (m * n)) := rfl

/-! ## Order -/

mutual
/-- Whether the first value comes before the second.  Numbers compare by value, texts and arrays
in dictionary order; nothing else has an order. -/
def before : Json → Json → Except Fault Bool
  | str s, str t => .ok (s < t)
  | arr xs, arr ys => beforeItems xs ys
  | v, w =>
    match v.number?, w.number? with
    | some a, some b => .ok (a.compare? b == some .lt)
    | _, _ =>
      .error (.mistyped ("'<' not supported between instances of '" ++ v.typeName ++ "' and '" ++
        w.typeName ++ "'"))

/-- Dictionary order of arrays: the first differing items decide. -/
def beforeItems : List Json → List Json → Except Fault Bool
  | [], [] => .ok false
  | [], _ :: _ => .ok true
  | _ :: _, [] => .ok false
  | x :: xs, y :: ys => if x.same y then beforeItems xs ys else before x y
end

/-- The larger of two values, the first one when they are equal. -/
def larger (v w : Json) : Except Fault Json := do
  if ← before v w then pure w else pure v

/-- The smaller of two values, the first one when they are equal. -/
def smaller (v w : Json) : Except Fault Json := do
  if ← before w v then pure w else pure v

/-! ## Conversions -/

/-- A double that has to be finite to become a whole number. -/
def finite (x : Float) : Except Fault Binary :=
  match Binary.ofFloat? x with
  | some b => .ok b
  | none =>
    if x != x then .error (.badValue "cannot convert float NaN to integer")
    else .error (.overflow "cannot convert float infinity to integer")

/-- The whole number a value is read as; a double loses its fraction. -/
def toWhole : Json → Except Fault Int
  | int n => .ok n
  | bool b => .ok (if b then 1 else 0)
  | float x => (finite x).map Binary.truncate
  | str s => Fault.readWhole s
  | v =>
    .error (.mistyped ("int() argument must be a string, a bytes-like object or a real number, " ++
      "not '" ++ v.typeName ++ "'"))

/-- The double a value is read as. -/
def toDouble : Json → Except Fault Float
  | int n => intToDouble n
  | bool b => .ok (if b then 1.0 else 0.0)
  | float x => .ok x
  | str s =>
    match readFloat? Text.digitValue? s with
    | some x => .ok x
    | none => .error (.badValue ("could not convert string to float: " ++ Text.quote s))
  | v =>
    .error (.mistyped ("float() argument must be a string or a real number, not '" ++
      v.typeName ++ "'"))

/-- The largest whole number that is not above a number. -/
def floorOf (v : Json) : Except Fault Int :=
  match v.number? with
  | some (.int n) => .ok n
  | some (.float x) => (finite x).map Binary.floor
  | none => .error (.mistyped ("must be real number, not " ++ v.typeName))

end NodeFlow.Json
