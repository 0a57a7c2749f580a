import NodeFlow.Check.Basic
import NodeFlow.Decimal.Numeral
import NodeFlow.Json.Portable
import NodeFlow.Json.Reader
import NodeFlow.NodeId

/-!
# Faults

Everything that can go wrong, as causes.  A structural fault of a workflow carries the data that
the editor shows as diagnostics; the wording of all faults stands here and nowhere else.

Main results:

- Types `Raise` and `Fault`.
- Definitions `Fault.kind`, `Fault.message`, `Fault.diagnostics`.
- Definitions `Fault.ofFlaw`, `Fault.readWhole`, `Fault.writableOnly`, `Fault.portableOnly` and
  `Fault.shallowOnly`: a numeral read, an id or a value let through, or the fault that stands
  against it.
- Theorem `Fault.isStructural_iff`: which faults abort a compilation without being a defect of the
  editor.
-/

namespace NodeFlow

/-- The kinds of failure that a collaborator may report. -/
inductive RaiseKind where
  | runtime
  | value
  | connection
  | timeout
  | system
  deriving DecidableEq, Inhabited

/-- A failure reported by a collaborator: a hook, an extension, a backend or the editor. -/
structure Raise where
  kind : RaiseKind := .runtime
  text : String := ""
  deriving DecidableEq, Inhabited

/-- Causes of failure. -/
inductive Fault where
  /-- A document that cannot be read or applied: the place in the document, and the place in the
  program that refused it, as far as they are known. -/
  | configuration (detail : String) (location source : Option String)
  /-- Nodes that depend on each other in a circle. -/
  | cyclic (ids : List NodeId)
  /-- A chain of pass-through nodes that does not end within the bound. -/
  | endlessChain (node : NodeId) (slot : Int) (hops : Nat)
  /-- A prompt that the backend refused. -/
  | rejected (detail : String) (response : Json) (status : Json)
  /-- A record with issues. -/
  | invalid (subject : String) (issues : List Issue)
  /-- A value out of its range of meaning. -/
  | badValue (text : String)
  /-- A position outside a list. -/
  | noPosition (text : String)
  /-- A name that a table does not have. -/
  | noEntry (text : String)
  /-- A value of a kind that the operation does not take. -/
  | mistyped (text : String)
  /-- A value without the asked part. -/
  | noPart (text : String)
  /-- A number too large for a double. -/
  | overflow (text : String)
  /-- A reply that is not JSON. -/
  | unreadable
  /-- A text nested deeper than it can be read. -/
  | exhausted (text : String)
  /-- An address that cannot be used. -/
  | badAddress
  /-- A server that does not answer. -/
  | unreachable (text : String)
  /-- A reply with a status that reports failure. -/
  | badStatus (status : Nat) (reason : String) (url : String)
  /-- A failure reported by a collaborator. -/
  | raised (r : Raise)
  deriving Inhabited

/-- The name of a kind of reported failure. -/
def RaiseKind.name : RaiseKind → String
  | runtime => "RuntimeError"
  | value => "ValueError"
  | connection => "ConnectionError"
  | timeout => "TimeoutError"
  | system => "OSError"

namespace Fault

/-- A position outside a list, without further detail. -/
def outside : Fault := .noPosition "list index out of range"

/-- An address whose kind is not named. -/
def unknownKind (address : String) : Fault :=
  .badValue ("unknown url type: " ++ Text.quote address)

/-- A value that is nested too deep to be written. -/
def tooDeep : Fault := .badValue "Maximum serialization depth exceeded"

/-- A value to be sent with a double that JSON text has no numeral for. -/
def notPortable : Fault := .badValue "Out of range float values are not JSON compliant"

/-- The value, unless it holds a double that JSON text has no numeral for. -/
def portableOnly (v : Json) : Except Fault Json :=
  if v.isPortable then .ok v else .error notPortable

/-- The value, unless what it was made from is nested too deep. -/
def shallowOnly (depth : Nat) (v : Json) : Except Fault Json :=
  if depth ≤ Json.maxNesting then .ok v else .error tooDeep

/-- A value that cannot be a key. -/
def unhashable (v : Json) : Fault := .mistyped ("unhashable type: '" ++ v.typeName ++ "'")

/-- A numeral with more digits than are read. -/
def tooManyDigits (digits : Nat) : Fault :=
  .badValue ("Exceeds the limit (" ++ toString Decimal.maxDigits ++
    " digits) for integer string conversion: value has " ++ toString digits ++
    " digits; use sys.set_int_max_str_digits() to increase the limit")

/-- A whole number with more digits than are written. -/
def tooLongToWrite : Fault :=
  .badValue ("Exceeds the limit (" ++ toString Decimal.maxDigits ++
    " digits) for integer string conversion; use sys.set_int_max_str_digits() to increase the limit")

/-- The id, unless it is a number with more digits than are written. -/
def writableOnly : NodeId → Except Fault NodeId
  | .number n =>
    if (Nat.toDigits 10 n.natAbs).length ≤ Decimal.maxDigits then .ok (.number n)
    else .error tooLongToWrite
  | .name s => .ok (.name s)

/-- What is wrong with a text that should be JSON. -/
def ofFlaw : Json.Flaw → Fault
  | .malformed => unreadable
  | .tooLong digits => tooManyDigits digits
  | .tooDeep isObject =>
    exhausted ("maximum recursion depth exceeded while decoding a JSON " ++
      (if isObject then "object" else "array") ++ " from a unicode string")

/-- A text that is no numeral; at most two hundred characters of its quoted form are shown. -/
def noNumeral (s : String) : Fault :=
  .badValue ("invalid literal for int() with base 10: " ++
    String.ofList ((Text.quote s).toList.take 200))

/-- The whole number that a text stands for, in the digits of any script. -/
def readWhole (s : String) : Except Fault Int :=
  match Decimal.readInt Text.digitValue? s with
  | .whole n => .ok n
  | .tooLong digits => .error (tooManyDigits digits)
  | .malformed => .error (noNumeral s)

/-- The name of the kind of a fault. -/
def kind : Fault → String
  | configuration .. => "GraphConfigurationError"
  | cyclic _ => "CyclicGraph"
  | endlessChain .. => "MalformedBypassChain"
  | rejected .. => "SubmissionRejected"
  | invalid .. => "ValidationError"
  | badValue _ => "ValueError"
  | noPosition _ => "IndexError"
  | noEntry _ => "KeyError"
  | mistyped _ => "TypeError"
  | noPart _ => "AttributeError"
  | overflow _ => "OverflowError"
  | unreadable => "JSONDecodeError"
  | exhausted _ => "RecursionError"
  | badAddress => "InvalidURL"
  | unreachable _ => "ConnectError"
  | badStatus .. => "HTTPStatusError"
  | raised r => r.kind.name

/-- Whether the fault lies in the structure of a workflow. -/
def isStructural : Fault → Bool
  | configuration .. => true
  | cyclic _ => true
  | endlessChain .. => true
  | _ => false

/-- The faults that stop a compilation but say something about the workflow. -/
theorem isStructural_iff (f : Fault) : f.isStructural = true ↔
    (∃ d l s, f = .configuration d l s) ∨ (∃ ids, f = .cyclic ids) ∨
      ∃ n s h, f = .endlessChain n s h := by
  cases f <;> simp [isStructural]

/-- Whether the fault comes from the exchange with a server. -/
def isTransport : Fault → Bool
  | unreachable _ => true
  | badStatus .. => true
  | _ => false

/-- What is written in place of the program location that refused a document. -/
def tracePlace : String := "<source>"

/-- The first line of the report on a record with issues. -/
def issueSummary (subject : String) (count : Nat) : String :=
  toString count ++ (if count = 1 then " validation error for " else " validation errors for ") ++
    subject

/-- How the class of a status is called in messages. -/
def statusClass (status : Nat) : String :=
  match status / 100 with
  | 1 => "Informational response"
  | 3 => "Redirect response"
  | 4 => "Client error"
  | 5 => "Server error"
  | _ => "Invalid status code"

/-- A text between two others, or nothing for an absent or empty text. -/
def remark (before after : String) : Option String → String
  | some t => if t = "" then "" else before ++ t ++ after
  | none => ""

/-- The message of a fault. -/
def message : Fault → String
  | configuration detail location source =>
    detail ++ remark " (at " ")" location ++ remark " [source: " "]" source
  | cyclic ids => "Cycle detected involving nodes: " ++ ", ".intercalate (ids.map NodeId.key)
  | endlessChain node slot hops =>
    "Could not resolve input " ++ toString slot ++ " of node " ++ node.key ++
      ": bypass/reroute chain does not terminate after " ++ toString hops ++ " hops"
  | rejected detail _ _ => detail
  | invalid subject issues => issueSummary subject issues.length
  | badValue text => text
  | noPosition text => text
  | noEntry text => Text.quote text
  | mistyped text => text
  | noPart text => text
  | overflow text => text
  | unreadable => ""
  | exhausted text => text
  | badAddress => ""
  | unreachable text => text
  | badStatus status reason url =>
    statusClass status ++ " '" ++ toString status ++ " " ++ reason ++ "' for url '" ++ url ++ "'"
  | raised r => r.text

/-- The message without the place in the document and the program. -/
def detail : Fault → String
  | configuration detail _ _ => detail
  | f => f.message

/-- Kind and data of a structural fault, as the editor shows them. -/
def diagnostics (f : Fault) : Members :=
  ("type", .str f.kind) :: match f with
    | configuration _ location source =>
      (location.toList.map fun l => ("location", Json.str l)) ++
        source.toList.map fun s => ("source", Json.str s)
    | cyclic ids => [("node_ids", .arr (ids.map NodeId.toJson))]
    | endlessChain node slot hops =>
      [("node_id", node.toJson), ("slot", .int slot), ("hops", .int hops)]
    | _ => []

/-- The fault of a record with issues. -/
def ofIssues {α : Type} (subject : String) (c : Checked α) : Except Fault α :=
  match c.toExcept with
  | .ok a => .ok a
  | .error issues => .error (.invalid subject issues)

end Fault

end NodeFlow
