import NodeFlow.Json.Display

/-!
# Missing node types

The report of the node types of a document that are not registered.  Type names are shown without
the characters that have a meaning in markup.

Main results:

- Type `MissingType` and definition `sanitize`.
- Theorem `sanitize_clean`: a sanitized name is free of those characters.
- Definition `MissingType.listing`: the text of the dialog.
-/

namespace NodeFlow

/-- The characters that have a meaning in markup. -/
def markupChars : List Char := "&<>\"'`=".toList

/-- A name without characters that have a meaning in markup. -/
def sanitize (name : String) : String :=
  String.ofList (name.toList.filter fun c => !markupChars.contains c)

/-- No character of markup is left of a cleaned name. -/
theorem sanitize_clean (name : String) : ∀ c ∈ (sanitize name).toList, c ∉ markupChars := by
  intro c h
  simp only [sanitize, String.toList_ofList, List.mem_filter] at h
  simpa using h.2

/-- A node type that is not registered, the name it is shown under, and a hint from whoever
reported it. -/
structure MissingType where
  type : String
  shown : String
  hint : Json := .null
  deriving Inhabited

/-- An entry of the report while it is being made: extensions may add any value. -/
inductive MissingEntry where
  | known (m : MissingType)
  | reported (v : Json)
  deriving Inhabited

namespace MissingType

/-- The sentence about a missing type. -/
def message (m : MissingType) : String := "Node type '" ++ m.type ++ "' is not registered"

/-- The missing type that an entry stands for.  A reported name is shown as it is. -/
def ofEntry : MissingEntry → MissingType
  | .known m => m
  | .reported (.obj ms) =>
    let name := ((Table.get? ms "type").getD (.str "")).display
    ⟨name, name, (Table.get? ms "hint").getD .null⟩
  | .reported v => ⟨v.display, v.display, .null⟩

/-- The line about a missing type, under the name it is shown under. -/
def line (m : MissingType) : String :=
  if m.hint.truthy then m.shown ++ " (" ++ m.hint.display ++ ")" else m.shown

/-- One line for each shown name, the first one that comes. -/
def lines (ms : List MissingType) : Table String :=
  ms.foldl (fun seen m => if seen.has m.shown then seen else seen.set m.shown m.line) []

/-- The text of the dialog about missing types. -/
def listing (ms : List MissingType) (nodesAdded : Bool) : String :=
  "\n".intercalate
    (["When loading the graph, the following node types were not found:"] ++
      (lines ms).map (fun e => "  - " ++ e.2) ++
      if nodesAdded then ["Nodes that have failed to load will show as red on the graph."] else [])

/-- A missing type as a value. -/
def toJson (m : MissingType) : Json :=
  .obj [("type", .str m.type), ("sanitized_type", .str m.shown), ("hint", m.hint)]

end MissingType

end NodeFlow
