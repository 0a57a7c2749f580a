import NodeFlow.Table

/-!
# Values

The values that documents, widgets and backends exchange: JSON with whole numbers kept apart from
doubles and with the members of an object in document order.

Main results:

- Type `Json` and the views `Json.get?`, `Json.items`, `Json.string?`.
- Definition `Json.truthy`: which values count as true.
- Definition `Json.depth`: how deep a value is nested, the bound for reading nested documents.
-/

namespace NodeFlow

/-- A value.  Whole numbers are unbounded and differ from doubles (`8` is not `8.0`). -/
inductive Json where
  | null
  | bool (b : Bool)
  | int (n : Int)
  | float (x : Float)
  | str (s : String)
  | arr (items : List Json)
  | obj (members : List (String × Json))
  deriving Inhabited

/-- The members of an object. -/
abbrev Members := Table Json

namespace Json

/-- The member of that name, if the value is an object that has it. -/
def get? : Json → String → Option Json
  | obj members, name => Table.get? members name
  | _, _ => none

/-- The items of an array; nothing for any other value. -/
def items : Json → List Json
  | arr xs => xs
  | _ => []

/-- The members of an object; nothing for any other value. -/
def members : Json → Members
  | obj ms => ms
  | _ => []

/-- The text, if the value is one. -/
def string? : Json → Option String
  | str s => some s
  | _ => none

/-- Whether the value is the null value. -/
def isNull : Json → Bool
  | null => true
  | _ => false

/-- Whether the value is an array. -/
def isArray : Json → Bool
  | arr _ => true
  | _ => false

/-- The value, or null in place of an absent one. -/
def ofOption : Option Json → Json
  | some v => v
  | none => null

/-- Null is absent, every other value is there. -/
def toOption : Json → Option Json
  | null => none
  | v => some v

/-- Zero, the empty text, array and object, null and false count as false, all else as true. -/
def truthy : Json → Bool
  | null => false
  | bool b => b
  | int n => n ≠ 0
  | float x => !(x == 0.0)
  | str s => s ≠ ""
  | arr xs => !xs.isEmpty
  | obj ms => !ms.isEmpty

/-- The whole number a value stands for where one is asked: a truth value is 0 or 1. -/
def whole? : Json → Option Int
  | int n => some n
  | bool b => some (if b then 1 else 0)
  | _ => none

/-- The kind of a value, as messages name it. -/
def typeName : Json → String
  | null => "NoneType"
  | bool _ => "bool"
  | int _ => "int"
  | float _ => "float"
  | str _ => "str"
  | arr _ => "list"
  | obj _ => "dict"

/-! ## Nesting -/

mutual
/-- One more than the deepest value inside. -/
def depth : Json → Nat
  | arr xs => depthItems xs + 1
  | obj ms => depthMembers ms + 1
  | _ => 1

/-- The depth of the deepest item. -/
def depthItems : List Json → Nat
  | [] => 0
  | x :: xs => max x.depth (depthItems xs)

/-- The depth of the deepest member. -/
def depthMembers : List (String × Json) → Nat
  | [] => 0
  | (_, x) :: ms => max x.depth (depthMembers ms)
end

/-- An item is nested no deeper than the list. -/
theorem depth_le_depthItems {x : Json} {xs : List Json} (h : x ∈ xs) :
    x.depth ≤ depthItems xs := by
  induction xs with
  | nil => cases h
  | cons y ys ih =>
    simp only [depthItems]
    rcases List.mem_cons.1 h with rfl | h
    · exact Nat.le_max_left ..
    · exact Nat.le_trans (ih h) (Nat.le_max_right ..)

/-- A member is nested less deep than the record. -/
theorem depth_lt_of_get? {v w : Json} {name : String} (h : v.get? name = some w) :
    w.depth < v.depth := by
  cases v with
  | obj ms =>
    simp only [get?] at h
    simp only [depth, Nat.lt_succ_iff]
    induction ms with
    | nil => simp [Table.get?] at h
    | cons e ms ih =>
      obtain ⟨k, x⟩ := e
      simp only [depthMembers]
      by_cases hk : k = name
      · simp only [Table.get?, hk, if_true, Option.some.injEq] at h
        subst h
        exact Nat.le_max_left ..
      · simp only [Table.get?, hk, if_false] at h
        exact Nat.le_trans (ih h) (Nat.le_max_right ..)
  | _ => simp [get?] at h

end Json

end NodeFlow
