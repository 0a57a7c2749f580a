import NodeFlow.Definition
import NodeFlow.Document
import NodeFlow.Load.Missing
import NodeFlow.Outside
import NodeFlow.Widget.Basic

/-!
# Extensions

An extension is a named set of hooks.  A hook gets subjects, values that it may change, and does
its deeds on them in turn; a deed that does not fit its subject makes the hook fail.

Main results:

- Types `Subject`, `Deed`, `ExtensionHook` and `Extension`; definition `ExtensionHook.wait`.
- Definition `Deed.applied?`: the subjects after a deed.
- Definition `Extension.enlist`: the extensions after a registration.
-/

namespace NodeFlow

/-- What a hook is given. -/
inductive Subject where
  | document (d : Document)
  | missing (entries : List MissingEntry)
  | definition (d : Definition)
  | node (id : NodeId) (title : Option String) (widgets : List Widget)
  | data (v : Json)
  | editor
  deriving Inhabited

/-- What a hook may do to its subjects. -/
inductive Deed where
  /-- Report a missing type by a value. -/
  | report (v : Json)
  /-- Report a missing type as such. -/
  | reportType (m : MissingType)
  /-- Change the type of a node of the document. -/
  | retype (position : Int) (type : String)
  /-- Change the title of the node. -/
  | retitle (title : Option String)
  /-- Change a widget of the node. -/
  | setWidget (position : Int) (v : Json)
  /-- Change the displayed name of the definition. -/
  | rename (name : String)
  /-- Add a definition. -/
  | define (name : String) (raw : Json)
  deriving Inhabited

/-- A hook of an extension.  It waits for its ticks before its deeds if it may wait at all. -/
structure ExtensionHook where
  mayWait : Bool := false
  ticks : Nat := 0
  deeds : List Deed := []
  raises : Option Raise := none
  returns : Json := .null
  deriving Inhabited

/-- How long a hook waits while others run. -/
def ExtensionHook.wait (h : ExtensionHook) : Nat := if h.mayWait then h.ticks else 0

/-- A named set of hooks.  What is stored under a hook's name need not be a hook. -/
structure Extension where
  name : Json := .null
  hooks : Table (Option ExtensionHook) := []
  deriving Inhabited

namespace Subject

/-- What a trace shows of a missing type. -/
def entrySummary : MissingEntry → Json
  | .known m => .str m.type
  | .reported v => v

/-- What a trace shows of a subject. -/
def summary : Subject → Json
  | document d => .int d.nodes.length
  | missing entries => .arr (entries.map entrySummary)
  | definition d => .str d.name
  | node id _ _ => id.toJson
  | data (.obj ms) => .arr (ms.map fun m => .str m.1)
  | data v => v
  | editor => .str "ctx"

end Subject

namespace Deed

/-- A change of the first subject. -/
def onFirst (change : Subject → Option Subject) : List Subject → Option (List Subject)
  | [] => none
  | s :: rest => (change s).map (· :: rest)

/-- Change an item of a list, at a position counted from either end. -/
def modifyAt? {α : Type} (xs : List α) (i : Int) (f : α → α) : Option (List α) :=
  (position? xs.length i).map fun n => xs.modify n f

/-- Add an entry to the second subject.  An array takes values only. -/
def addReport (entry : MissingEntry) : List Subject → Option (List Subject)
  | first :: .missing entries :: rest => some (first :: .missing (entries ++ [entry]) :: rest)
  | first :: .data (.arr xs) :: rest =>
    match entry with
    | .reported v => some (first :: .data (.arr (xs ++ [v])) :: rest)
    | .known _ => none
  | _ => none

/-- The subjects after a deed, if it fits them. -/
def applied? (subjects : List Subject) : Deed → Option (List Subject)
  | report v => addReport (.reported v) subjects
  | reportType m => addReport (.known m) subjects
  | retype i type => onFirst (fun
    | .document d =>
      (modifyAt? d.nodes i fun n => { n with type := type }).map fun nodes =>
        .document { d with nodes := nodes }
    | _ => none) subjects
  | retitle title => onFirst (fun
    | .node id _ ws => some (.node id title ws)
    | .document d => some (.document d)
    | .editor => some .editor
    | _ => none) subjects
  | setWidget i v => onFirst (fun
    | .node id title ws => (modifyAt? ws i (·.withValue v)).map (.node id title)
    | _ => none) subjects
  | rename name => onFirst (fun
    | .definition d => some (.definition { d with displayName := some name })
    | .document d => some (.document d)
    | .node id title ws => some (.node id title ws)
    | .editor => some .editor
    | _ => none) subjects
  | define name raw => onFirst (fun
    | .data (.obj ms) => some (.data (.obj (Table.set ms name raw)))
    | _ => none) subjects

end Deed

namespace Extension

/-- The hook of a name, if the extension declares one. -/
def hook? (e : Extension) (name : String) : Option ExtensionHook :=
  match e.hooks.get? name with
  | some found => found
  | none => none

/-- The extensions after one more has been registered.  Its name has to be there and to be new. -/
def enlist (known : List Extension) (e : Extension) : Except Fault (List Extension) :=
  if !e.name.truthy then .error (.badValue "Extensions must have a 'name' property.")
  else if known.any fun k => k.name.same e.name then
    .error (.badValue ("Extension named '" ++ e.name.display ++ "' already registered."))
  else .ok (known ++ [e])

end Extension

end NodeFlow
