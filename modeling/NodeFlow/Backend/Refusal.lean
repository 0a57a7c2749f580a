import NodeFlow.Backend.Report

/-!
# Showing failures

The text of the dialog for a failure.  A refusal by the backend shows what the backend said about
the prompt and about each node; every other failure shows its kind and message.

Main results:

- Definition `Fault.shown`: the text for a failure, if the refusal can be read.
- Definition `dialogText`: the part of a text that a dialog keeps.
- Definition `showReport`: the text for any value reported as a failure.
-/

namespace NodeFlow

/-- The text for a failure about which nothing is known. -/
def unknownFailure : String := "(unknown error)"

/-- The lines about the complaints on one node. -/
def NodeError.shown (e : NodeError) : String :=
  "\n" ++ (optionalText e.className).display ++ ":" ++
    String.join (e.complaints.map fun c =>
      "\n    - " ++ c.message ++ ": " ++ (optionalText c.details).display)

/-- The first line about a refusal: what the backend says is wrong, or the message of the refusal
where it says nothing. -/
def refusalHead (detail : String) (said : Json) : String :=
  let orElse (v : Json) : String := if v.truthy then v.display else detail
  match said with
  | .obj ms =>
    let details := (Table.get? ms "details").getD .null
    orElse ((Table.get? ms "message").getD .null) ++
      if details.truthy then ": " ++ details.display else ""
  | v => orElse v

namespace Fault

/-- The complaints about nodes in a refusal. -/
def complaints (response : Json) : Table NodeError :=
  if response.truthy then NodeError.readTable ((response.get? "node_errors").getD .null) else []

/-- The text for a failure. -/
def shown (f : Fault) : Except Fault String :=
  let plain := f.kind ++ ": " ++ f.message
  match f with
  | .rejected detail response _ =>
    if response.truthy then
      match response with
      | .obj ms =>
        .ok (refusalHead detail ((Table.get? ms "error").getD .null) ++
          String.join ((complaints response).map fun e => e.2.shown))
      | v => .error (.noPart ("'" ++ v.typeName ++ "' object has no attribute 'get'"))
    else .ok plain
  | _ => .ok plain

end Fault

/-- The kinds of failure whose message is not part of a dialog. -/
def bareKinds : List String :=
  [Fault.unreadable.kind, (Fault.mistyped "").kind, (Fault.noPart "").kind, (Fault.noEntry "").kind]

/-- Whether a text is about a failure of the given kind. -/
def isAbout (text kind : String) : Bool := (kind ++ ":").toList.isPrefixOf text.toList

/-- The part of a text that a dialog keeps: of a record with issues the first line, of some kinds
of failure the kind alone. -/
def dialogText (text : String) : String :=
  match bareKinds.find? (isAbout text) with
  | some kind => kind
  | none =>
    if isAbout text (Fault.invalid "" []).kind then
      String.ofList (text.toList.takeWhile (· ≠ '\n'))
    else text

/-- The text for a reported value: a text is shown as it is. -/
def showReport : Json → String
  | .str s => s
  | _ => unknownFailure

end NodeFlow
