import NodeFlow.Backend.Wire

/-!
# Backends

A backend answers submissions and knows node definitions.  One kind follows a list of replies,
which may also change the graph before they answer; the other kind talks over the wire.

Main results:

- Types `Verdict`, `BackendReply` and `Backend`.
-/

namespace NodeFlow

/-- How a backend answers a submission. -/
inductive Verdict where
  | accept
  | answer (v : Json)
  | reject (message : String) (response status : Json)
  | raise (r : Raise)
  deriving Inhabited

/-- A reply to a submission: what happens to the graph first, and the answer. -/
structure BackendReply where
  removes : Option Json := none
  loads : Option Json := none
  verdict : Verdict := .accept
  deriving Inhabited

/-- A backend that follows a list of replies. -/
structure ReplyList where
  replies : List (Option BackendReply) := []
  /-- How often a submission lets others run before it is answered. -/
  ticks : Nat := 0
  definitions : Json := .obj []
  /-- The submissions so far. -/
  count : Nat := 0
  deriving Inhabited

/-- A backend. -/
inductive Backend where
  | replying (r : ReplyList)
  | wire (c : WireClient)
  deriving Inhabited

end NodeFlow
