import NodeFlow.Json.Display

/-!
# Node ids

A node is named by a whole number or by a text.  The two spellings of one number (`3` and `"3"`)
are different ids, and a graph accepts either in a lookup.

Main results:

- Type `NodeId`, its key text `NodeId.key` and its quoted form.
- Theorem `NodeId.key_name`: a text is its own key.
-/

namespace NodeFlow

/-- The id of a node. -/
inductive NodeId where
  | number (n : Int)
  | name (s : String)
  deriving DecidableEq, Inhabited

namespace NodeId

/-- The text of an id: the key of its step in a prompt. -/
def key : NodeId → String
  | number n => toString n
  | name s => s

/-- The id as a value. -/
def toJson : NodeId → Json
  | number n => .int n
  | name s => .str s

/-- The id as messages quote it. -/
def quoted (id : NodeId) : String := id.toJson.quoted

@[simp] theorem key_name (s : String) : (name s).key = s := rfl

/-- The id of an inner node, made unique by the id of its group. -/
def within (group inner : NodeId) : NodeId := name (group.key ++ ":" ++ inner.key)

end NodeId

end NodeFlow
