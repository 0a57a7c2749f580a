import NodeFlow.Document
import NodeFlow.Prompt.Step

/-!
# Prompts

A prompt is a compiled output together with the document it was compiled from.

Main results:

- Type `Prompt` and definition `Prompt.body`: what is sent to submit one, unless its document is
  nested too deep.
-/

namespace NodeFlow

/-- A compiled output and the document it was compiled from. -/
structure Prompt where
  workflow : Document
  output : Output
  deriving Inhabited

namespace Prompt

/-- Check a prompt. -/
def check : Json → Checked Prompt :=
  Check.record "Prompt" fun ms => do
    let workflow ← Check.required ms "workflow" Document.check
    let output ← Check.optional ms "output" [] (Check.table Step.check)
    pure ⟨workflow, output⟩

/-- Where a submission goes in the queue of the backend: `-1` is the front, `0` the back. -/
def placeOf (number : Int) : Members :=
  if number = -1 then [("front", .bool true)]
  else if number ≠ 0 then [("number", .int number)]
  else []

/-- The body of a submission. -/
def body (p : Prompt) (clientId : String) (number : Int) : Except Fault Json := do
  let workflow ← p.workflow.write
  pure (.obj ([("client_id", .str clientId), ("prompt", p.output.toJson),
    ("extra_data", .obj [("extra_pnginfo", .obj [("workflow", workflow)])])] ++ placeOf number))

end Prompt

end NodeFlow
