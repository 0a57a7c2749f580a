import NodeFlow.Check.Basic
import NodeFlow.Service.Route

/-!
# Replies of the service

An answer has a status and a body.  What a route grants is shown without its internal members; a
body has to be portable, and a request for the head of an answer gets no body.

Main results:

- Type `ServiceReply` and the answers `ServiceReply.granted`, `ServiceReply.refused`,
  `ServiceReply.ofFault` and `ServiceReply.ofMatch`.
- Definition `Json.visible`: a value without internal members.
- Definition `ServiceReply.send`: what leaves the service.
- Theorem `Json.visible_visible`: leaving internal members out once is enough.
-/

namespace NodeFlow

/-! ## Internal members -/

/-- Whether a member is internal, as its name says. -/
def isInternal (name : String) : Bool := "_sa".toList.isPrefixOf name.toList

mutual
/-- A value without the internal members of its objects. -/
def Json.visible : Json → Json
  | .arr xs => .arr (visibleItems xs)
  | .obj ms => .obj (visibleMembers ms)
  | v => v

/-- Items without internal members. -/
def Json.visibleItems : List Json → List Json
  | [] => []
  | x :: xs => x.visible :: visibleItems xs

/-- The members that are not internal, each without internal members. -/
def Json.visibleMembers : List (String × Json) → List (String × Json)
  | [] => []
  | (k, x) :: ms => if isInternal k then visibleMembers ms else (k, x.visible) :: visibleMembers ms
end

mutual
/-- What can be shown already is shown as it is. -/
theorem Json.visible_visible (v : Json) : v.visible.visible = v.visible := by
  cases v with
  | arr xs => simp [Json.visible, Json.visibleItems_visibleItems xs]
  | obj ms => simp [Json.visible, Json.visibleMembers_visibleMembers ms]
  | null => rfl
  | bool b => rfl
  | int n => rfl
  | float x => rfl
  | str s => rfl

/-- The items of a list that can be shown already stay. -/
theorem Json.visibleItems_visibleItems (xs : List Json) :
    visibleItems (visibleItems xs) = visibleItems xs := by
  cases xs with
  | nil => rfl
  | cons x xs =>
    simp [Json.visibleItems, Json.visible_visible x, Json.visibleItems_visibleItems xs]

/-- The members of a record that can be shown already stay. -/
theorem Json.visibleMembers_visibleMembers (ms : List (String × Json)) :
    visibleMembers (visibleMembers ms) = visibleMembers ms := by
  cases ms with
  | nil => rfl
  | cons m ms =>
    by_cases h : isInternal m.1 = true <;>
      simp [Json.visibleMembers, h, Json.visible_visible m.2,
        Json.visibleMembers_visibleMembers ms]
end

/-! ## Replies -/

/-- The answer to a request. -/
structure ServiceReply where
  status : Nat
  body : Json
  deriving Inhabited

namespace ServiceReply

/-- An answer that shows a value as it is. -/
def shown (v : Json) : ServiceReply := ⟨200, v⟩

/-- An answer that grants what was asked, without internal members. -/
def granted (members : Members) : ServiceReply := shown (Json.obj members).visible

/-- An answer that says what is wrong. -/
def refused (status : Nat) (detail : Json) : ServiceReply := ⟨status, .obj [("detail", detail)]⟩

/-- The answer to a body with issues. -/
def unsound (issues : List Issue) : ServiceReply :=
  refused 422 (.arr (issues.map fun i => (i.under (.field "body")).toJson))

/-- The answer that a message with data about it is wrong. -/
def faulty (message : String) (diagnostics : Members) : ServiceReply :=
  ⟨422, .obj [("message", .str message), ("diagnostics", .obj diagnostics)]⟩

/-- The answer to a request that failed for a fault in the structure of a workflow. -/
def ofFault (f : Fault) : ServiceReply := faulty f.detail f.diagnostics

/-- The answer to a request without route. -/
def ofMatch : RouteMatch → ServiceReply
  | .page => ⟨200, .null⟩
  | .redirected => ⟨307, .null⟩
  | .wrongMethod => refused 405 (.str "Method Not Allowed")
  | _ => refused 404 (.str "Not Found")

/-- What leaves the service: a body that is JSON, or none where only the head was asked for. -/
def send (method : String) (r : ServiceReply) : Except Fault ServiceReply := do
  let body ← Fault.portableOnly r.body
  pure ⟨r.status, if method = "HEAD" then .null else body⟩

end ServiceReply

end NodeFlow
