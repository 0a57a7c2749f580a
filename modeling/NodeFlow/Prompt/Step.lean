import NodeFlow.Check.Field
import NodeFlow.Fault

/-!
# Steps of a prompt

A step names the class to run and its inputs.  An input is a literal or a reference to an output
of another step.

Main results:

- Types `Step` and `Output`; definition `Reference.ofJson?`: which values are references.
- Definition `Output.prune`: inputs that refer to a step outside the output are dropped.
- Theorem `Output.prune_names`: pruning drops no step.
- Theorem `Step.refersInto_keep`: after pruning, every reference names a step.
-/

namespace NodeFlow

/-- A reference to an output slot of another step. -/
structure Reference where
  origin : String
  slot : Int
  deriving DecidableEq

/-- A pair of a text and a whole number is a reference. -/
def Reference.ofJson? : Json → Option Reference
  | .arr [.str origin, .int slot] => some ⟨origin, slot⟩
  | _ => none

/-- The reference as a value. -/
def Reference.toJson (r : Reference) : Json := .arr [.str r.origin, .int r.slot]

@[simp] theorem Reference.ofJson?_toJson (r : Reference) : ofJson? r.toJson = some r := rfl

/-- A value that reads as a reference is how the reference is written. -/
theorem Reference.eq_toJson_of_ofJson? {v : Json} {r : Reference} (h : ofJson? v = some r) :
    v = r.toJson := by
  unfold ofJson? at h
  split at h
  · cases h
    rfl
  · cases h

/-- What a step shows of its node besides the inputs. -/
structure StepMeta where
  title : Option String
  deriving DecidableEq, Inhabited

/-- A step of a prompt. -/
structure Step where
  className : String
  inputs : Members
  meta? : Option StepMeta
  deriving Inhabited

/-- The steps of a prompt under the keys of their nodes. -/
abbrev Output := Table Step

namespace Step

/-- The inputs that are references, in order. -/
def references (s : Step) : Table Reference :=
  s.inputs.filterMap fun (name, v) => (Reference.ofJson? v).map fun r => (name, r)

/-- The title part of a step, if there is one; an absent title leaves it empty. -/
def titlePart (s : Step) : Members :=
  match s.meta? with
  | none => []
  | some m => [("_meta", .obj (m.title.toList.map fun t => ("title", .str t)))]

/-- The step as the backend reads it. -/
def toJson (s : Step) : Json :=
  .obj ([("class_type", .str s.className), ("inputs", .obj s.inputs)] ++ s.titlePart)

/-- The step of a key with its references listed, inputs and references in order. -/
def summary (key : String) (s : Step) : Json :=
  .obj ([("id", .str key), ("class_type", .str s.className),
    ("inputs", .arr (s.inputs.map fun m => .arr [.str m.1, m.2]))] ++ s.titlePart ++
    [("refs", .arr (s.references.map fun r => .arr [.str r.1, .str r.2.origin, .int r.2.slot]))])

/-- Read the title part of a step. -/
def checkMeta : Json → Checked StepMeta :=
  Check.record "StepMeta" fun ms => do
    let title ← Check.maybe ms "title" Check.text
    pure ⟨title⟩

/-- Read a step.  Its title part may stand under either of two names. -/
def check : Json → Checked Step :=
  Check.record "CompiledStep" fun ms => do
    let className ← Check.required ms "class_type" Check.text
    let inputs ← Check.optional ms "inputs" [] Check.object
    let title ← Check.maybe ms (if ms.has "_meta" then "_meta" else "meta") checkMeta
    pure ⟨className, inputs, title⟩

/-- Whether a value is no reference, or one into the given output. -/
def refersInto (output : Output) (v : Json) : Bool :=
  match Reference.ofJson? v with
  | some r => output.has r.origin
  | none => true

/-- The step without the inputs that refer to no step. -/
def keep (output : Output) (s : Step) : Step :=
  { s with inputs := s.inputs.filter fun m => refersInto output m.2 }

/-- What a step keeps refers to steps of the output only. -/
theorem refersInto_keep (output : Output) (s : Step) {name : String} {v : Json}
    (h : (name, v) ∈ (s.keep output).inputs) : refersInto output v = true := by
  simp only [keep, List.mem_filter] at h
  exact h.2

end Step

namespace Output

/-- Drop the inputs that refer to no step of the output. -/
def prune (output : Output) : Output := output.map fun (key, s) => (key, s.keep output)

/-- How many inputs pruning drops. -/
def danglingCount (output : Output) : Nat :=
  (output.map fun (_, s) => s.inputs.countP fun m => !Step.refersInto output m.2).foldl (· + ·) 0

/-- Pruning takes references away, and no steps. -/
theorem prune_names (output : Output) : output.prune.names = output.names := by
  simp [prune, Table.names, Function.comp_def]

/-- The steps in order, each with its references listed. -/
def summary (output : Output) : Json := .arr (output.map fun (key, s) => s.summary key)

/-- The output as the backend reads it. -/
def toJson (output : Output) : Json := .obj (output.map fun (key, s) => (key, s.toJson))

end Output

end NodeFlow
