import NodeFlow.Extension.Basic

/-!
# Calling extensions

A hook is called on every extension that declares it, in the order of registration.  A failing
extension is skipped.  When hooks may wait, all of them start first; then, round by round, those
whose wait is over finish, again in the order of registration.

Main results:

- Type `Scene` and definition `ExtensionHook.perform`: one hook doing its deeds.
- Definitions `Extension.announce` and `Extension.broadcast`: both ways of calling a hook.
-/

namespace NodeFlow

/-- The subjects that hooks work on, and the outside. -/
structure Scene where
  subjects : List Subject
  outside : Outside

namespace Scene

/-- Add an entry to the trace. -/
def record (entry : Trace.Entry) (s : Scene) : Scene :=
  { s with outside := s.outside.record entry }

/-- Do deeds in turn, up to the first one that does not fit; whether all did, and the scene after
those that did. -/
def perform (s : Scene) : List Deed → Bool × Scene
  | [] => (true, s)
  | d :: ds =>
    match d.applied? s.subjects with
    | some subjects => perform { s with subjects := subjects } ds
    | none => (false, s)

end Scene

namespace ExtensionHook

/-- The call of a hook as it is seen. -/
def start (owner : Json) (name : String) (s : Scene) : Scene :=
  s.record (.extensionCalled owner name (s.subjects.map Subject.summary))

/-- A hook does its deeds and answers, or fails. -/
def perform (owner : Json) (name : String) (h : ExtensionHook) (s : Scene) :
    Option Json × Scene :=
  match s.perform h.deeds with
  | (false, s) => (none, s)
  | (true, s) =>
    let s := if h.deeds.isEmpty && h.ticks = 0 then s else s.record (.extensionDone owner name)
    (if h.raises.isSome then none else some h.returns, s)

end ExtensionHook

namespace Extension

/-- Call a hook on every extension that declares it; the answers of those that do not fail.  A
hook that may wait is not waited for and does nothing. -/
def announce (name : String) : List Extension → Scene → List Json × Scene
  | [], s => ([], s)
  | e :: es, s =>
    match e.hook? name with
    | none => announce name es s
    | some h =>
      if h.mayWait then
        let (rest, s) := announce name es s
        (.null :: rest, s)
      else
        let (answer, s) := h.perform e.name name (ExtensionHook.start e.name name s)
        let (rest, s) := announce name es s
        (answer.toList ++ rest, s)

/-- How a hook of a broadcast stands: it has answered (none stands for no hook and for failure),
or it waits. -/
inductive Standing where
  | answered (v : Option Json)
  | waiting (owner : Json) (hook : ExtensionHook)

/-- Start a hook on every extension.  Hooks that need not wait finish at once. -/
def startAll (name : String) : List Extension → Scene → List Standing × Scene
  | [], s => ([], s)
  | e :: es, s =>
    match e.hook? name with
    | none =>
      let (rest, s) := startAll name es s
      (.answered none :: rest, s)
    | some h =>
      let s := ExtensionHook.start e.name name s
      if h.wait = 0 then
        let (answer, s) := h.perform e.name name s
        let (rest, s) := startAll name es s
        (.answered answer :: rest, s)
      else
        let (rest, s) := startAll name es s
        (.waiting e.name h :: rest, s)

/-- Finish the hooks whose wait is over in a round. -/
def finishRound (name : String) (round : Nat) : List Standing → Scene → List Standing × Scene
  | [], s => ([], s)
  | .waiting owner h :: rest, s =>
    if h.wait = round then
      let (answer, s) := h.perform owner name s
      let (rest, s) := finishRound name round rest s
      (.answered answer :: rest, s)
    else
      let (rest, s) := finishRound name round rest s
      (.waiting owner h :: rest, s)
  | .answered v :: rest, s =>
    let (rest, s) := finishRound name round rest s
    (.answered v :: rest, s)

/-- The longest wait. -/
def longestWait : List Standing → Nat
  | [] => 0
  | .waiting _ h :: rest => max h.wait (longestWait rest)
  | .answered _ :: rest => longestWait rest

/-- Run the given number of rounds, the first of them with the given number. -/
def finishRounds (name : String) : Nat → Nat → List Standing → Scene → List Standing × Scene
  | 0, _, standings, s => (standings, s)
  | left + 1, round, standings, s =>
    let (standings, s) := finishRound name round standings s
    finishRounds name left (round + 1) standings s

/-- The answer of a hook; null stands for no hook, for failure and for waiting on. -/
def Standing.answer : Standing → Json
  | answered v => v.getD .null
  | waiting _ _ => .null

/-- Call a hook on every extension and wait for all of them; one answer for each. -/
def broadcast (name : String) (es : List Extension) (s : Scene) : List Json × Scene :=
  let (standings, s) := startAll name es s
  let (standings, s) := finishRounds name (longestWait standings) 1 standings s
  (standings.map Standing.answer, s)

end Extension

end NodeFlow
