import NodeFlow.Check.Field
import NodeFlow.Fault

/-!
# Node definitions

A definition says which inputs and outputs the nodes of a class have.

Main results:

- Type `Definition`, its reader `Definition.read` and its written form `Definition.write`.
- Definition `Definition.inputs`: the inputs in the order in which nodes show them.
-/

namespace NodeFlow

/-- What is known about a node class. -/
structure Definition where
  name : String
  displayName : Option String := none
  description : String := ""
  category : String := ""
  required : Table (List Json) := []
  optionals : Table (List Json) := []
  hidden : Members := []
  outputs : List Json := []
  outputNames : List String := []
  outputLists : List Bool := []
  isOutput : Bool := false
  deriving Inhabited

/-- An input of a definition. -/
structure InputSpec where
  name : String
  type : Json
  options : Members

namespace Definition

/-- The options part of an input's description. -/
def optionsOf : List Json → Members
  | .obj options :: _ => options
  | _ => []

/-- The input that a description stands for; an empty description stands for none. -/
def inputOf? (entry : String × List Json) : Option InputSpec :=
  match entry.2 with
  | [] => none
  | type :: rest => some ⟨entry.1, type, optionsOf rest⟩

/-- The required inputs, then the optional ones. -/
def inputs (d : Definition) : List InputSpec := (d.required ++ d.optionals).filterMap inputOf?

/-- The choices of a required input, if its type is a list of choices. -/
def choices? (d : Definition) (name : String) : Option (List Json) :=
  match d.required.get? name with
  | some (.arr choices :: _) => some choices
  | _ => none

/-- Check the three groups of inputs. -/
def checkInputs : Json → Checked (Table (List Json) × Table (List Json) × Members) :=
  Check.record "NodeInputs" fun ms => do
    let required ← Check.optional ms "required" [] (Check.table (Check.list Check.any))
    let optionals ← Check.optional ms "optional" [] (Check.table (Check.list Check.any))
    let hidden ← Check.optional ms "hidden" [] Check.object
    pure (required, optionals, hidden)

/-- Check a definition. -/
def check : Json → Checked Definition :=
  Check.record "NodeDefinition" fun ms => do
    let name ← Check.required ms "name" Check.text
    let displayName ← Check.maybe ms "display_name" Check.text
    let description ← Check.optional ms "description" "" Check.text
    let category ← Check.optional ms "category" "" Check.text
    let (required, optionals, hidden) ← Check.optional ms "input" ([], [], []) checkInputs
    let outputs ← Check.optional ms "output" [] (Check.list Check.any)
    let outputNames ← Check.optional ms "output_name" [] (Check.list Check.text)
    let outputLists ← Check.optional ms "output_is_list" [] (Check.list Check.bool)
    let isOutput ← Check.optional ms "output_node" false Check.bool
    pure { name, displayName, description, category, required, optionals, hidden, outputs,
           outputNames, outputLists, isOutput }

/-- Read a definition. -/
def read (v : Json) : Except Fault Definition := Fault.ofIssues "NodeDefinition" (check v)

/-- Read a definition under a name that replaces its own. -/
def readAs (name : Json) : Json → Except Fault Definition
  | .obj ms => read (.obj (Table.set ms "name" name))
  | v => .error (.mistyped ("'" ++ v.typeName ++ "' object is not a mapping"))

/-- A group of inputs as a value. -/
def groupToJson (group : Table (List Json)) : Json :=
  .obj (group.map fun (name, spec) => (name, .arr (Json.portableItems spec)))

/-- The definition as a value. -/
def toJson (d : Definition) : Json :=
  .obj [("name", .str d.name),
    ("display_name", Json.ofOption (d.displayName.map .str)),
    ("description", .str d.description),
    ("category", .str d.category),
    ("input", .obj [("required", groupToJson d.required), ("optional", groupToJson d.optionals),
      ("hidden", .obj (Json.portableMembers d.hidden))]),
    ("output", .arr (Json.portableItems d.outputs)),
    ("output_name", .arr (d.outputNames.map .str)),
    ("output_is_list", .arr (d.outputLists.map .bool)),
    ("output_node", .bool d.isOutput)]

/-- How deep the free values of the definition are nested. -/
def depth (d : Definition) : Nat :=
  ([Json.depthMembers d.hidden, Json.depthItems d.outputs] ++
    (d.required ++ d.optionals).map fun e => Json.depthItems e.2).foldr max 0

/-- The definition as a value, unless it is nested too deep to be written. -/
def write (d : Definition) : Except Fault Json := Fault.shallowOnly d.depth d.toJson

end Definition

end NodeFlow
