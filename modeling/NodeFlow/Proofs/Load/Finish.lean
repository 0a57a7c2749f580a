import NodeFlow.Proofs.Compile.Values
import NodeFlow.Proofs.Load.Dump
import NodeFlow.Proofs.Load.Names
import NodeFlow.Proofs.Load.Sweep

/-!
# Finishing again

A primitive gets its widgets from the first widget that it is linked to, and the saved values go
into them.  Given the values that its widgets had in the end, a primitive that is finished again
among nodes that look the same becomes what it was.

Main results:

- Definition `Node.unfinish`: a primitive as it stands before its widgets exist.
- Definition `Node.face`: what a primitive sees of a node.
- Theorem `Graph.finished_unfinish`: a primitive that is finished again.
- Definition `Graph.sweep` and theorem `Graph.Redo.sweep_eq`: nodes that are finished one after the
  other.
- Theorem `Workflow.finish_unfinish`: workflows that are finished again.
-/

namespace NodeFlow

/-! ## Before widgets exist -/

section Unfinish

variable {γ : Type}

/-- A primitive with widgets as it stands before they exist, any other node as it is. -/
def Node.unfinish (n : Node γ) : Node γ :=
  match n.kind with
  | .primitive none =>
    { n with kind := .primitive (some (n.widgets.map (·.value))), widgets := [] }
  | _ => n

/-- A primitive whose widgets do not exist yet, or no primitive. -/
def Node.IsFresh (n : Node γ) : Prop :=
  ∀ pending, n.kind = .primitive pending → pending ≠ none ∧ n.widgets = []

/-- A primitive remembers saved values if and only if it has no widgets. -/
def Node.IsSettled (n : Node γ) : Prop :=
  ∀ pending, n.kind = .primitive pending → (pending = none ↔ n.widgets ≠ [])

/-- What a primitive sees of a node. -/
def Node.face (n : Node γ) : NodeId × List InputSlot × List Widget :=
  (n.id, n.inputs.map InputSlot.trim, n.widgets.map Widget.bare)

/-- The nodes are the same for primitives, and the second one is settled. -/
structure Node.Matches (n m : Node γ) : Prop where
  face : m.face = n.face
  outputs : m.outputs = n.outputs
  isCutOff : m.isCutOff = n.isCutOff
  isPrimitive : m.kind.isPrimitive = n.kind.isPrimitive
  settled : m.IsSettled

/-- A node that is no primitive has nothing to undo. -/
theorem Node.unfinish_of_not_primitive {n : Node γ} (h : n.kind.isPrimitive = false) :
    n.unfinish = n := by
  unfold Node.unfinish
  split
  · rename_i hkind
    rw [hkind] at h
    cases h
  · rfl

private theorem Node.unfinish_of_pending {n : Node γ} {vs : List Json}
    (h : n.kind = .primitive (some vs)) : n.unfinish = n := by
  unfold Node.unfinish
  rw [h]

private theorem Node.unfinish_of_filled {n : Node γ} (h : n.kind = .primitive none) :
    n.unfinish = { n with kind := .primitive (some (n.widgets.map (·.value))), widgets := [] } := by
  unfold Node.unfinish
  rw [h]

/-- A group is no primitive. -/
theorem Node.isPrimitive_of_group? {n : Node γ} {x : γ} (h : n.group? = some x) :
    n.kind.isPrimitive = false := by
  unfold Node.group? at h
  cases hkind : n.kind with
  | primitive pending =>
    rw [hkind] at h
    cases h
  | _ => rfl

/-- What is inside a group has nothing to do with finishing it. -/
theorem Node.group?_unfinish (n : Node γ) : n.unfinish.group? = n.group? := by
  unfold Node.unfinish
  split
  · rename_i hkind
    rw [Node.group?, Node.group?, hkind]
  · rfl

/-- A node that is not finished yet has its id. -/
theorem Node.id_unfinish (n : Node γ) : n.unfinish.id = n.id := by
  unfold Node.unfinish
  split <;> rfl

private theorem Node.outputs_unfinish (n : Node γ) : n.unfinish.outputs = n.outputs := by
  unfold Node.unfinish
  split <;> rfl

private theorem Node.isCutOff_unfinish (n : Node γ) : n.unfinish.isCutOff = n.isCutOff := by
  unfold Node.unfinish
  split <;> rfl

/-- Primitives are told from other nodes by their kind. -/
theorem Kind.isPrimitive_iff {k : Kind γ} :
    k.isPrimitive = true ↔ ∃ pending, k = .primitive pending := by
  cases k <;> simp [Kind.isPrimitive]

end Unfinish

/-! ## What a primitive sees -/

/-- The name of the widget that an input was made from. -/
def InputSlot.target? (s : InputSlot) : Option String :=
  match s.widget with
  | .str name => if name = "" then none else some name
  | _ => none

private theorem InputSlot.target?_trim (s : InputSlot) : s.trim.target? = s.target? := by
  cases htruthy : s.widget.truthy with
  | true => simp [trim, htruthy]
  | false =>
    cases hwidget : s.widget with
    | str name =>
      have hempty : name = "" := by simpa [hwidget, Json.truthy] using htruthy
      simp [trim, target?, hwidget, hempty, Json.truthy]
    | _ => simp [trim, target?, hwidget, hwidget ▸ htruthy]

namespace Graph

variable {γ : Type} {g h : Graph γ}

/-- Primitives see the same in both graphs. -/
structure Alike (g h : Graph γ) : Prop where
  links : h.links = g.links
  faces : h.nodes.map Node.face = g.nodes.map Node.face

private theorem Alike.at?_face (halike : Alike g h) (id : NodeId) :
    (h.at? id).map Node.face = (g.at? id).map Node.face := by
  have hfind : ∀ x : Graph γ, (x.at? id).map Node.face = (x.nodes.map Node.face).find? (·.1 == id) := by
    intro x
    rw [List.find?_map]
    rfl
  rw [hfind, hfind, halike.faces]

/-- The widget at the far end of a link, as far as it can be seen from there. -/
def reachedFrom (l : Link) (n : Node γ) : Except Fault (Option (NodeId × Nat)) :=
  if (n.inputs.length : Int) ≤ l.targetSlot.val then .ok none
  else
    match (position? n.inputs.length l.targetSlot.val).bind (n.inputs[·]?) with
    | none => .error Fault.outside
    | some slot => .ok (slot.target?.bind fun name =>
      (Widget.position? n.widgets name).map fun i => (n.id, i))

/-- The target of a link is looked up in the graph, and its slot among the inputs there. -/
theorem targetOf_eq (g : Graph γ) (l : Link) : g.targetOf l = (do
    match ← g.lookup? l.target with
    | none => pure none
    | some n => reachedFrom l n) := by
  rw [targetOf]
  cases g.lookup? l.target with
  | error f => rfl
  | ok found =>
    cases found with
    | none => rfl
    | some n =>
      simp only [bind, Except.bind, reachedFrom]
      split
      · rfl
      · cases hslot : (position? n.inputs.length l.targetSlot.val).bind (n.inputs[·]?) with
        | none => rfl
        | some slot =>
          simp only [InputSlot.target?]
          cases slot.widget with
          | str name => by_cases hname : name = "" <;> simp only [hname, if_true, if_false] <;> rfl
          | _ => rfl

private theorem reachedFrom_congr {n m : Node γ} (hface : m.face = n.face) (l : Link) :
    reachedFrom l m = reachedFrom l n := by
  have hid : m.id = n.id := congrArg (·.1) hface
  have hinputs : m.inputs.map InputSlot.trim = n.inputs.map InputSlot.trim := congrArg (·.2.1) hface
  have hwidgets : m.widgets.map Widget.bare = n.widgets.map Widget.bare := congrArg (·.2.2) hface
  have hlength : m.inputs.length = n.inputs.length := by
    simpa using congrArg List.length hinputs
  have hposition : ∀ name, Widget.position? m.widgets name = Widget.position? n.widgets name := by
    intro name
    have hbare : ∀ ws : List Widget, Widget.position? ws name =
        (ws.map Widget.bare).findIdx? (·.name == name) := by
      intro ws
      rw [List.findIdx?_map]
      rfl
    rw [hbare, hbare, hwidgets]
  have hslots : ∀ p? : Option Nat, (p?.bind (m.inputs[·]?)).map InputSlot.target? =
      (p?.bind (n.inputs[·]?)).map InputSlot.target? := by
    intro p?
    cases p? with
    | none => rfl
    | some i =>
      have htrim : ∀ slots : List InputSlot, slots[i]?.map InputSlot.target? =
          ((slots.map InputSlot.trim)[i]?).map InputSlot.target? := by
        intro slots
        rw [List.getElem?_map, Option.map_map]
        exact congrArg (slots[i]?.map ·) (funext fun s => (InputSlot.target?_trim s).symm)
      simp only [Option.bind_some]
      rw [htrim m.inputs, hinputs, ← htrim]
  have hslot := hslots (position? n.inputs.length l.targetSlot.val)
  simp only [reachedFrom, hlength, hid, hposition]
  split
  · rfl
  · cases hn : (position? n.inputs.length l.targetSlot.val).bind (n.inputs[·]?) with
    | none =>
      rw [hn, Option.map_none, Option.map_eq_none_iff] at hslot
      rw [hslot]
    | some slot =>
      rw [hn] at hslot
      rcases Option.map_eq_some_iff.1 hslot with ⟨slot', hslot', hsame⟩
      rw [hslot']
      simp only [hsame]

/-- What is at the far end of a link is seen by looking at the node that the link leads to. -/
theorem targetOf_congr {β : Type} {φ : Node γ → β}
    (hat : ∀ id, (h.at? id).map φ = (g.at? id).map φ) {l : Link}
    (hreached : ∀ n m, φ m = φ n → reachedFrom l m = reachedFrom l n) :
    h.targetOf l = g.targetOf l := by
  rw [Graph.targetOf_eq, Graph.targetOf_eq]
  have hlookup := lookup?_map_congr hat l.target
  cases hg : g.lookup? l.target with
  | error f =>
    rw [hg] at hlookup
    cases hh : h.lookup? l.target with
    | error f' =>
      rw [hh] at hlookup
      cases hlookup
      rfl
    | ok found =>
      rw [hh] at hlookup
      cases hlookup
  | ok found =>
    rw [hg] at hlookup
    rcases Fault.map_eq_ok_iff.1 hlookup with ⟨found', hfound', hsame⟩
    rw [hfound']
    cases found with
    | none => rw [Option.map_eq_none_iff.1 hsame]
    | some n =>
      rcases Option.map_eq_some_iff.1 hsame with ⟨m, rfl, hseen⟩
      exact hreached n m hseen

/-- Where links have the same targets, so have lists of links. -/
theorem targetsOf_congr (htarget : ∀ l, h.targetOf l = g.targetOf l) (ls : List Link) :
    h.targetsOf ls = g.targetsOf ls := by
  induction ls with
  | nil => rfl
  | cons l ls ih => rw [targetsOf, targetsOf, htarget, ih]

private theorem Alike.targetsOf_eq (halike : Alike g h) (ls : List Link) :
    h.targetsOf ls = g.targetsOf ls :=
  targetsOf_congr (fun l => targetOf_congr halike.at?_face fun _ _ hface =>
    reachedFrom_congr hface l) ls

/-- Nodes with the same links in graphs with the same links. -/
theorem outLinks?_congr (hlinks : h.links = g.links) {n m : Node γ}
    (houtputs : m.outputs.map (·.links) = n.outputs.map (·.links)) (hcut : m.isCutOff = n.isCutOff)
    (slot : Int) : h.outLinks? m slot = g.outLinks? n slot := by
  have hlength : m.outputs.length = n.outputs.length := by
    simpa using congrArg List.length houtputs
  have hlink : h.link? = g.link? := by
    funext id
    rw [link?, link?, hlinks]
  simp only [outLinks?, hlength, hcut]
  split
  · rfl
  · have hget : ∀ p? : Option Nat, (p?.bind (m.outputs[·]?)).map (·.links) =
        (p?.bind (n.outputs[·]?)).map (·.links) := by
      intro p?
      cases p? with
      | none => rfl
      | some i =>
        simp only [Option.bind_some]
        rw [← List.getElem?_map, houtputs, List.getElem?_map]
    have hsame := hget (position? n.outputs.length slot)
    cases hn : (position? n.outputs.length slot).bind (n.outputs[·]?) with
    | none =>
      rw [hn, Option.map_none, Option.map_eq_none_iff] at hsame
      rw [hsame]
    | some o =>
      rw [hn] at hsame
      rcases Option.map_eq_some_iff.1 hsame with ⟨o', ho', hlinks⟩
      rw [ho']
      simp only [hlinks, hlink]

/-- Nodes with the same links lead to the same widgets. -/
theorem Alike.targets_eq (halike : Alike g h) {n m : Node γ}
    (houtputs : m.outputs.map (·.links) = n.outputs.map (·.links)) (hcut : m.isCutOff = n.isCutOff) :
    h.targets m = g.targets n := by
  simp only [targets, outLinks?_congr halike.links houtputs hcut, halike.targetsOf_eq]

private theorem Alike.widgetAt?_eq (halike : Alike g h) (c : NodeId × Nat) :
    (h.widgetAt? c).map (fun e => (e.1.face, e.2.bare)) =
      (g.widgetAt? c).map fun e => (e.1.face, e.2.bare) := by
  have hsplit : ∀ x : Graph γ, (x.widgetAt? c).map (fun e => (e.1.face, e.2.bare)) =
      ((x.at? c.1).map Node.face).bind fun f => f.2.2[c.2]?.map fun w => (f, w) := by
    intro x
    rw [widgetAt?]
    cases x.at? c.1 with
    | none => rfl
    | some n =>
      have hget : n.face.2.2[c.2]? = n.widgets[c.2]?.map Widget.bare := List.getElem?_map ..
      simp only [Option.map_some, Option.bind_some, hget]
      cases hw : n.widgets[c.2]? <;> simp [hw]
  rw [hsplit, hsplit, halike.at?_face]

/-! ## The widgets of a primitive -/

section Refill

variable {node node' : Node γ} {target target' : Widget}

/-- The widgets of a primitive are a copy of the target and, for a number that the node has a
control for, a control of its own. -/
theorem primitiveWidgets_eq (node : Node γ) (target : Widget) (pending : List Json) :
    primitiveWidgets node target pending =
      let w : Widget := { name := target.name, value := pending.headD target.value
                          kind := target.kind, options := target.options.erase "linked_control" }
      if target.kind == "number" &&
          (Widget.position? node.widgets ControlMode.widgetName).isSome then
        [{ w with options := w.options.set "linked_control" (.str ControlMode.widgetName) },
          (Widget.control .shared).withValue (pending.getD 1 (Widget.control .shared).value)]
      else [w] := by
  unfold primitiveWidgets Widget.withControl
  dsimp only
  split
  · rcases pending with _ | ⟨v, _ | ⟨v', vs⟩⟩ <;> rfl
  · rfl

private theorem primitiveWidgets_ne_nil (node : Node γ) (target : Widget) (pending : List Json) :
    primitiveWidgets node target pending ≠ [] := by
  rw [primitiveWidgets_eq]
  dsimp only
  split <;> exact List.cons_ne_nil _ _

private theorem position?_of_bare {ws ws' : List Widget}
    (h : ws'.map Widget.bare = ws.map Widget.bare)
    (name : String) : Widget.position? ws' name = Widget.position? ws name := by
  have hbare : ∀ us : List Widget, Widget.position? us name =
      (us.map Widget.bare).findIdx? (·.name == name) := by
    intro us
    rw [List.findIdx?_map]
    rfl
  rw [hbare, hbare, h]

/-- A primitive takes the values of its widgets back. -/
theorem primitiveWidgets_refill (hnode : node'.widgets.map Widget.bare = node.widgets.map Widget.bare)
    (htarget : target'.bare = target.bare) {pending : List Json} {ws : List Widget}
    (hws : ws.map Widget.bare = (primitiveWidgets node target pending).map Widget.bare) :
    primitiveWidgets node' target' (ws.map (·.value)) = ws := by
  have hname : target'.name = target.name := congrArg (·.name) htarget
  have hkind : target'.kind = target.kind := congrArg (·.kind) htarget
  have hoptions : target'.options = target.options := congrArg (·.options) htarget
  rw [primitiveWidgets_eq] at hws ⊢
  simp only [position?_of_bare hnode, hname, hkind, hoptions]
  dsimp only at hws
  split at hws
  · rename_i hcontrolled
    rw [if_pos hcontrolled]
    rcases ws with _ | ⟨w, _ | ⟨c, _ | ⟨_, _⟩⟩⟩ <;> simp only [List.map_cons, List.map_nil] at hws
    · cases hws
    · cases (List.cons.inj hws).2
    · rcases List.cons.inj hws with ⟨hw, hc⟩
      exact congrArg₂ (fun a b => [a, b]) (Widget.eq_of_bare hw.symm rfl)
        (Widget.eq_of_bare (List.cons.inj hc).1.symm rfl)
    · cases (List.cons.inj (List.cons.inj hws).2).2
  · rename_i hplain
    rw [if_neg hplain]
    rcases ws with _ | ⟨w, _ | ⟨_, _⟩⟩ <;> simp only [List.map_cons, List.map_nil] at hws
    · cases hws
    · exact congrArg (fun a => [a]) (Widget.eq_of_bare (List.cons.inj hws).1.symm rfl)
    · cases (List.cons.inj hws).2

/-- The type of the input of a name. -/
def inputType? (node : Node γ) (name : String) : Option String :=
  ((node.inputPosition? name).bind (node.inputs[·]?)).map (·.type)

private theorem inputType?_of_trim
    (h : node'.inputs.map InputSlot.trim = node.inputs.map InputSlot.trim)
    (name : String) : inputType? node' name = inputType? node name := by
  have hsplit : ∀ n : Node γ, inputType? n name =
      (((n.inputs.map InputSlot.trim).findIdx? (·.name == name)).bind fun i =>
        (n.inputs.map InputSlot.trim)[i]?.map (·.type)) := by
    intro n
    have hposition : (n.inputs.map InputSlot.trim).findIdx? (·.name == name) =
        n.inputPosition? name := by
      rw [List.findIdx?_map]
      rfl
    rw [hposition, inputType?]
    cases n.inputPosition? name with
    | none => rfl
    | some i =>
      simp only [Option.bind_some, List.getElem?_map, Option.map_map]
      rfl
  rw [hsplit, hsplit, h]

/-- The first output of a primitive takes the type of the input it feeds. -/
theorem primitiveOutputs_eq (outputs : List OutputSlot) (node : Node γ) (name : String) :
    primitiveOutputs outputs node name =
      (match inputType? node name with
      | some type => outputs.modify 0 fun o => { o with type := type }
      | none => outputs) := by
  unfold primitiveOutputs inputType?
  cases (node.inputPosition? name).bind (node.inputs[·]?) <;> rfl

/-- The outputs of a primitive take on a name and keep their links. -/
theorem links_primitiveOutputs (outputs : List OutputSlot) (node : Node γ) (name : String) :
    (primitiveOutputs outputs node name).map (·.links) = outputs.map (·.links) := by
  rw [primitiveOutputs_eq]
  cases inputType? node name with
  | none => rfl
  | some type => cases outputs <;> rfl

private theorem primitiveOutputs_again
    (h : node'.inputs.map InputSlot.trim = node.inputs.map InputSlot.trim)
    (outputs : List OutputSlot) (name : String) :
    primitiveOutputs (primitiveOutputs outputs node name) node' name =
      primitiveOutputs outputs node name := by
  rw [primitiveOutputs_eq _ node', inputType?_of_trim h, primitiveOutputs_eq]
  cases inputType? node name with
  | none => rfl
  | some type => cases outputs <;> rfl

end Refill

/-! ## A primitive that is finished again -/

/-- The node and the widget that a primitive takes its widgets from. -/
def model? (g : Graph γ) (n : Node γ) : Except Fault (Option (Node γ × Widget)) :=
  (g.targets n).map fun places => places.head?.bind g.widgetAt?

/-- A primitive after a look for the widget it takes its widgets from. -/
def filled (n : Node γ) (pending : List Json) : Option (Node γ × Widget) → Node γ
  | none => n
  | some (node, target) =>
    { n with
      kind := .primitive none
      widgets := primitiveWidgets node target pending
      outputs := primitiveOutputs n.outputs node target.name }

/-- A primitive without widgets is finished by filling in the widgets of its model. -/
theorem finished_eq {n : Node γ} {pending : Option (List Json)} (hkind : n.kind = .primitive pending)
    (hwidgets : n.widgets = []) :
    g.finished n = (g.model? n).map (filled n (pending.getD [])) := by
  unfold finished model?
  simp only [hkind, hwidgets, List.isEmpty_nil, Bool.not_true, Bool.false_eq_true, if_false]
  cases g.targets n with
  | error f => rfl
  | ok places =>
    simp only [bind, Except.bind, Except.map]
    cases places.head?.bind g.widgetAt? with
    | none => rfl
    | some e => rfl

/-- A node that is no primitive is finished as it is. -/
theorem finished_of_not_primitive {n : Node γ} (h : n.kind.isPrimitive = false) :
    g.finished n = .ok n := by
  unfold finished
  cases hkind : n.kind with
  | primitive pending =>
    rw [hkind] at h
    cases h
  | _ => rfl

/-- A primitive looks at the same widget in both graphs. -/
theorem Alike.model?_eq (halike : Alike g h) {n m : Node γ}
    (houtputs : m.outputs.map (·.links) = n.outputs.map (·.links)) (hcut : m.isCutOff = n.isCutOff) :
    (h.model? m).map (·.map fun e => (e.1.face, e.2.bare)) =
      (g.model? n).map (·.map fun e => (e.1.face, e.2.bare)) := by
  rw [model?, model?, halike.targets_eq houtputs hcut]
  cases g.targets n with
  | error f => rfl
  | ok places =>
    have hsame : (places.head?.bind h.widgetAt?).map (fun e => (e.1.face, e.2.bare)) =
        (places.head?.bind g.widgetAt?).map fun e => (e.1.face, e.2.bare) := by
      cases places.head? with
      | none => rfl
      | some c => exact halike.widgetAt?_eq c
    exact congrArg Except.ok hsame

/-- Filling in widgets does not bear on whether a node is cut off. -/
theorem isCutOff_filled (n : Node γ) (pending : List Json) (found : Option (Node γ × Widget)) :
    (filled n pending found).isCutOff = n.isCutOff := by cases found <;> rfl

/-- Filling in widgets keeps the links of outputs. -/
theorem links_filled (n : Node γ) (pending : List Json) (found : Option (Node γ × Widget)) :
    (filled n pending found).outputs.map (·.links) = n.outputs.map (·.links) := by
  rcases found with _ | ⟨node, target⟩
  · rfl
  · exact links_primitiveOutputs n.outputs node target.name

/-- A primitive stays one when its widgets are filled in. -/
theorem isPrimitive_filled {n : Node γ} (h : n.kind.isPrimitive = true) (pending : List Json)
    (found : Option (Node γ × Widget)) : (filled n pending found).kind.isPrimitive = true := by
  cases found
  · exact h
  · rfl

/-- A primitive that is linked to no widget keeps the saved values. -/
theorem finished_unfinish_of_unlinked {m : Node γ} {pending : Option (List Json)}
    (hkind : m.kind = .primitive pending) (hsettled : m.IsSettled) (hwidgets : m.widgets = [])
    (hmodel : h.model? m.unfinish = .ok none) : h.finished m.unfinish = .ok m := by
  cases pending with
  | none => exact absurd hwidgets ((hsettled none hkind).1 rfl)
  | some vs =>
    rw [Node.unfinish_of_pending hkind] at hmodel ⊢
    rw [finished_eq hkind hwidgets, hmodel]
    rfl

/-- The saved values of a primitive go back into widgets like those that they were saved from. -/
theorem finished_unfinish_of_linked {m node node' : Node γ} {target target' : Widget}
    {pending : List Json} {outputs : List OutputSlot} (hkind : m.kind = .primitive none)
    (hmodel : h.model? m.unfinish = .ok (some (node', target'))) (hface : node'.face = node.face)
    (htarget : target'.bare = target.bare)
    (hwidgets : m.widgets.map Widget.bare =
      (primitiveWidgets node target pending).map Widget.bare)
    (houtputs : m.outputs = primitiveOutputs outputs node target.name) :
    h.finished m.unfinish = .ok m := by
  have hname : target'.name = target.name := congrArg (·.name) htarget
  have hrefilled : primitiveWidgets node' target' (m.widgets.map (·.value)) = m.widgets :=
    primitiveWidgets_refill (congrArg (·.2.2) hface) htarget hwidgets
  have hslots : primitiveOutputs m.outputs node' target'.name = m.outputs := by
    rw [houtputs, hname]
    exact primitiveOutputs_again (congrArg (·.2.1) hface) outputs target.name
  rw [Node.unfinish_of_filled hkind] at hmodel ⊢
  rw [finished_eq rfl rfl, hmodel]
  simp only [Except.map, filled, Option.getD_some, hrefilled, hslots]
  rw [← hkind]

/-- A primitive that is finished again, among nodes that look the same and with the values that its
widgets have, becomes what it was. -/
theorem finished_unfinish (halike : Alike g h) {n n' m : Node γ} (hfresh : n.IsFresh)
    (hfinished : g.finished n = .ok n') (hm : n'.Matches m) : h.finished m.unfinish = .ok m := by
  cases hprimitive : n.kind.isPrimitive with
  | false =>
    rw [finished_of_not_primitive hprimitive] at hfinished
    cases hfinished
    have hplain : m.kind.isPrimitive = false := hm.isPrimitive.trans hprimitive
    rw [Node.unfinish_of_not_primitive hplain, finished_of_not_primitive hplain]
  | true =>
    rcases Kind.isPrimitive_iff.1 hprimitive with ⟨pending, hkind⟩
    have hnone : n.widgets = [] := (hfresh pending hkind).2
    rw [finished_eq hkind hnone] at hfinished
    rcases Fault.map_eq_ok_iff.1 hfinished with ⟨found, hfound, rfl⟩
    rcases Kind.isPrimitive_iff.1 (hm.isPrimitive.trans (isPrimitive_filled hprimitive _ _)) with
      ⟨pending', hkind'⟩
    -- both look at the same place for the widget to copy
    have houtputs : m.unfinish.outputs.map (·.links) = n.outputs.map (·.links) := by
      rw [Node.outputs_unfinish, hm.outputs, links_filled]
    have hcut : m.unfinish.isCutOff = n.isCutOff := by
      rw [Node.isCutOff_unfinish, hm.isCutOff, isCutOff_filled]
    have hmodel := halike.model?_eq houtputs hcut
    rw [hfound] at hmodel
    rcases Fault.map_eq_ok_iff.1 hmodel with ⟨found', hfound', hsame⟩
    have hbare : m.widgets.map Widget.bare =
        (filled n (pending.getD []) found).widgets.map Widget.bare := congrArg (·.2.2) hm.face
    rcases found with _ | ⟨node, target⟩
    · cases Option.map_eq_none_iff.1 hsame
      have hwidgets : m.widgets = [] := by simpa [filled, hnone] using hbare
      exact finished_unfinish_of_unlinked hkind' hm.settled hwidgets hfound'
    · rcases Option.map_eq_some_iff.1 hsame with ⟨⟨node', target'⟩, rfl, heq⟩
      rcases Prod.mk.inj heq with ⟨hface, htarget⟩
      have hne : m.widgets ≠ [] := by
        intro hwidgets
        rw [hwidgets] at hbare
        exact primitiveWidgets_ne_nil node target _ (List.map_eq_nil_iff.1 hbare.symm)
      cases (hm.settled pending' hkind').2 hne
      exact finished_unfinish_of_linked hkind' hfound' hface htarget hbare hm.outputs

/-- A fresh node is settled once it is finished. -/
theorem isSettled_finished {n n' : Node γ} (hfresh : n.IsFresh) (h : g.finished n = .ok n') :
    n'.IsSettled := by
  intro pending' hkind'
  cases hprimitive : n.kind.isPrimitive with
  | false =>
    rw [finished_of_not_primitive hprimitive] at h
    cases h
    rw [hkind'] at hprimitive
    cases hprimitive
  | true =>
    rcases Kind.isPrimitive_iff.1 hprimitive with ⟨pending, hkind⟩
    rcases hfresh pending hkind with ⟨hsome, hnone⟩
    rw [finished_eq hkind hnone] at h
    rcases Fault.map_eq_ok_iff.1 h with ⟨found, -, rfl⟩
    rcases found with _ | ⟨node, target⟩
    · rw [filled, hkind] at hkind'
      cases hkind'
      simp [filled, hsome, hnone]
    · cases hkind'
      simp [filled, primitiveWidgets_ne_nil]

/-- A fresh node looks like what is left of the finished one. -/
theorem face_unfinish {n n' m : Node γ} (hfresh : n.IsFresh) (h : g.finished n = .ok n')
    (hm : n'.Matches m) : m.unfinish.face = n.face := by
  cases hprimitive : n.kind.isPrimitive with
  | false =>
    rw [finished_of_not_primitive hprimitive] at h
    cases h
    rw [Node.unfinish_of_not_primitive (hm.isPrimitive.trans hprimitive), hm.face]
  | true =>
    rcases Kind.isPrimitive_iff.1 hprimitive with ⟨pending, hkind⟩
    have hnone := (hfresh pending hkind).2
    rw [finished_eq hkind hnone] at h
    rcases Fault.map_eq_ok_iff.1 h with ⟨found, -, rfl⟩
    rcases Kind.isPrimitive_iff.1 (hm.isPrimitive.trans (isPrimitive_filled hprimitive _ _)) with
      ⟨pending', hkind'⟩
    have hwidgets : m.unfinish.widgets = [] := by
      unfold Node.unfinish
      split
      · rfl
      · rename_i hnot
        by_contra hne
        have hsome : pending' ≠ none := fun heq => hnot (heq ▸ hkind')
        exact hsome ((hm.settled pending' hkind').2 hne)
    have hkept : m.unfinish.face.1 = m.face.1 ∧ m.unfinish.face.2.1 = m.face.2.1 := by
      unfold Node.unfinish
      split <;> exact ⟨rfl, rfl⟩
    have hfilled : ∀ found : Option (Node γ × Widget), (filled n (pending.getD []) found).id = n.id ∧
        (filled n (pending.getD []) found).inputs = n.inputs := by
      rintro (_ | ⟨node, target⟩) <;> exact ⟨rfl, rfl⟩
    rcases hkept with ⟨hid, hinputs⟩
    rw [hm.face] at hid hinputs
    refine Prod.ext (hid.trans (hfilled found).1) (Prod.ext (hinputs.trans ?_) ?_)
    · exact congrArg (List.map InputSlot.trim) (hfilled found).2
    · simp [Node.face, hwidgets, hnone]

/-! ## Sweeps that are done again -/

/-- Each node that a computation comes to can be undone, and the computation then comes to it
again among nodes that look the same. -/
structure Redo (f : Graph γ → Node γ → Except Fault (Node γ)) (fresh : Node γ → Prop)
    (matched : Node γ → Node γ → Prop) (undo : Node γ → Node γ) : Prop where
  face : ∀ {n m}, matched n m → m.face = n.face
  undone : ∀ {g n n' m}, fresh n → f g n = .ok n' → matched n' m → (undo m).face = n.face
  redone : ∀ {g h n n' m}, Alike g h → fresh n → f g n = .ok n' → matched n' m →
    f h (undo m) = .ok m

namespace Redo

variable {f : Graph γ → Node γ → Except Fault (Node γ)} {fresh : Node γ → Prop}
  {matched : Node γ → Node γ → Prop} {undo : Node γ → Node γ} (hredo : Redo f fresh matched undo)

include hredo

private theorem faces_undo {front ns ns' ms : List (Node γ)} (hswept : Swept f g front ns ns')
    (hfresh : ∀ n ∈ ns, fresh n) (hms : List.Forall₂ matched ns' ms) :
    (ms.map undo).map Node.face = ns.map Node.face := by
  induction hswept generalizing ms with
  | nil =>
    cases hms
    rfl
  | cons hnode _ ih =>
    cases hms with
    | cons hm hrest =>
      rw [List.map_cons, List.map_cons, List.map_cons,
        hredo.undone (hfresh _ List.mem_cons_self) hnode hm,
        ih (fun n hn => hfresh n (List.mem_cons_of_mem _ hn)) hrest]

/-- What the nodes become does not depend on more than what can be seen of them. -/
theorem swept {front front' ns ns' ms : List (Node γ)} (hlinks : h.links = g.links)
    (hfront : front'.map Node.face = front.map Node.face) (hswept : Swept f g front ns ns')
    (hfresh : ∀ n ∈ ns, fresh n) (hms : List.Forall₂ matched ns' ms) :
    Swept f h front' (ms.map undo) ms := by
  induction hswept generalizing front' ms with
  | nil =>
    cases hms
    exact .nil front'
  | @cons front ns ns' n n' hnode hrest ih =>
    have hrestFresh : ∀ n ∈ ns, fresh n := fun n hn => hfresh n (List.mem_cons_of_mem _ hn)
    cases hms with
    | @cons _ m _ ms hm hms =>
      have hn := hfresh n List.mem_cons_self
      have hfaces : (front' ++ undo m :: ms.map undo).map Node.face =
          (front ++ n :: ns).map Node.face := by
        rw [List.map_append, List.map_append, List.map_cons, List.map_cons, hfront,
          hredo.undone hn hnode hm, hredo.faces_undo hrest hrestFresh hms]
      have halike : Alike { g with nodes := front ++ n :: ns }
          { h with nodes := front' ++ undo m :: ms.map undo } := ⟨hlinks, hfaces⟩
      refine .cons (hredo.redone halike hn hnode hm) (ih ?_ hrestFresh hms)
      rw [List.map_append, List.map_append, hfront, List.map_singleton, List.map_singleton,
        hredo.face hm]

/-- A sweep over what is left of the nodes comes to the nodes again. -/
theorem sweep_eq (hid : ∀ g n n', f g n = .ok n' → n'.id = n.id)
    (hids : (g.nodes.map (·.id)).Nodup) (hfresh : ∀ n ∈ g.nodes, fresh n) {g' : Graph γ}
    (hsweep : sweep f g (g.nodes.map (·.id)) = .ok g') (hlinks : h.links = g'.links)
    (hms : List.Forall₂ matched g'.nodes h.nodes) :
    sweep f (h.mapNodes undo) ((h.mapNodes undo).nodes.map (·.id)) = .ok h := by
  rcases (sweep_eq_ok_iff hid (List.nil_append g.nodes).symm hids).1 hsweep with ⟨ns', hswept, rfl⟩
  have hfaces := hredo.faces_undo hswept hfresh hms
  have hids' : ((h.mapNodes undo).nodes.map (·.id)).Nodup := by
    have hsame : ∀ ns : List (Node γ), ns.map (·.id) = (ns.map Node.face).map (·.1) := by
      intro ns
      rw [List.map_map]
      rfl
    rw [hsame] at hids ⊢
    exact hfaces ▸ hids
  refine (sweep_eq_ok_iff hid (List.nil_append (h.mapNodes undo).nodes).symm hids').2
    ⟨h.nodes, ?_, rfl⟩
  exact hredo.swept (g := g) (h := h.mapNodes undo) hlinks rfl hswept hfresh hms

end Redo

private theorem redo_finished : Redo (γ := γ) finished Node.IsFresh Node.Matches Node.unfinish where
  face := Node.Matches.face
  undone := face_unfinish
  redone halike hfresh hfinished hm := finished_unfinish halike hfresh hfinished hm

/-- Finishing nodes one by one is one sweep over them. -/
theorem finishAll_eq_sweep (g : Graph γ) (ids : List NodeId) :
    g.finishAll ids = sweep finished g ids := by
  induction ids generalizing g with
  | nil => rfl
  | cons id ids ih =>
    rw [finishAll, sweep]
    exact congrArg (g.finishNode id >>= ·) (funext fun g' => ih g')

end Graph

/-! ## Workflows -/

/-- The groups are the same for primitives. -/
structure Group.Matches (x y : Group) : Prop where
  links : y.graph.links = x.graph.links
  nodes : List.Forall₂ Node.Matches x.graph.nodes y.graph.nodes

/-- The nodes are the same for primitives, also inside groups. -/
structure Node.MatchesDeep (n m : Node Group) : Prop where
  outside : n.Matches m
  inside : Option.Rel Group.Matches n.group? m.group?

/-- A node that is not finished yet, and the nodes inside it. -/
structure Node.IsFreshDeep (n : Node Group) : Prop where
  outside : n.IsFresh
  inside : ∀ x, n.group? = some x → ∀ m ∈ x.graph.nodes, m.IsFresh
  distinct : ∀ x, n.group? = some x → (x.graph.nodes.map (·.id)).Nodup

private theorem Node.face_onGroup (f : Subgraph → Subgraph) (n : Node Group) :
    (n.onGroup f).face = n.face := by
  unfold Node.onGroup
  split <;> rfl

/-- The node as it stands before the widgets of primitives exist, also inside groups. -/
def Node.unfinishDeep (n : Node Group) : Node Group := n.unfinish.onGroup (·.mapNodes unfinish)

namespace Workflow

/-- A node with its widgets, and the nodes inside it with theirs. -/
def finishedDeep (g : Workflow) (n : Node Group) : Except Fault (Node Group) :=
  match n.group? with
  | none => Graph.finished g n
  | some x => (x.graph.finishAll (x.graph.nodes.map (·.id))).map fun inner => n.onGroup fun _ => inner

/-- A node is finished by itself, or it is a group and the nodes inside it are. -/
theorem finishedDeep_cases {g : Workflow} {n n' : Node Group} (h : finishedDeep g n = .ok n') :
    (n.group? = none ∧ n'.group? = none ∧ Graph.finished g n = .ok n') ∨
      ∃ x inner, n.group? = some x ∧ x.graph.finishAll (x.graph.nodes.map (·.id)) = .ok inner ∧
        n' = n.onGroup fun _ => inner := by
  cases hgroup : n.group? with
  | none =>
    simp only [finishedDeep, hgroup] at h
    exact .inl ⟨rfl, (Graph.group?_finished h).trans hgroup, h⟩
  | some x =>
    simp only [finishedDeep, hgroup] at h
    rcases Fault.map_eq_ok_iff.1 h with ⟨inner, hinner, rfl⟩
    exact .inr ⟨x, inner, rfl, hinner, rfl⟩

private theorem modifyGroup_eq (host : NodeId) (f : Subgraph → Subgraph) (g : Workflow) :
    modifyGroup host f g = g.modifyNode host (Node.onGroup f) := rfl

private theorem finishDeep_eq_sweepNode (g : Workflow) (id : NodeId) :
    finishDeep g id = Graph.sweepNode finishedDeep g id := by
  unfold finishDeep Graph.sweepNode Graph.finishNode
  cases hn : g.at? id with
  | none => simp [bind, Except.bind, hn, pure, Except.pure]
  | some n =>
    have hid := Graph.id_of_at? hn
    cases hgroup : n.group? with
    | none =>
      simp only [finishedDeep, hgroup]
      cases hfinished : Graph.finished g n with
      | error f => rfl
      | ok n' =>
        have hnone : n'.group? = none := (Graph.group?_finished hfinished).trans hgroup
        have hat := Graph.at?_modifyNode_const hn ((Graph.id_finished hfinished).trans hid)
        simp only [bind, Except.bind, pure, Except.pure, hat, Option.bind_some, hnone]
    | some x =>
      have hfinished := Graph.finished_of_not_primitive (g := g) (Node.isPrimitive_of_group? hgroup)
      have hat := Graph.at?_modifyNode_const hn hid
      simp only [finishedDeep, hfinished, hgroup]
      simp only [bind, Except.bind, pure, Except.pure, hat, Option.bind_some, hgroup]
      cases x.graph.finishAll (x.graph.nodes.map (·.id)) with
      | error f => rfl
      | ok inner =>
        have htwice : modifyGroup id (fun _ => inner) (g.modifyNode id fun _ => n) =
            g.modifyNode id fun _ => n.onGroup fun _ => inner := by
          rw [modifyGroup_eq]
          simp only [Graph.modifyNode, List.map_map]
          refine congrArg (fun ns => { g with nodes := ns }) (List.map_congr_left fun m _ => ?_)
          by_cases hm : m.id = id <;> simp [hm, hid]
        exact congrArg Except.ok htwice

/-- Finishing a workflow, groups included, is one sweep over its nodes. -/
theorem finish_eq_sweep (g : Workflow) :
    finish g = Graph.sweep finishedDeep g (g.nodes.map (·.id)) := by
  have heach : ∀ (ids : List NodeId) (g : Workflow),
      finishEach g ids = Graph.sweep finishedDeep g ids := by
    intro ids
    induction ids with
    | nil => exact fun _ => rfl
    | cons id ids ih =>
      intro g
      rw [finishEach, Graph.sweep, finishDeep_eq_sweepNode]
      exact congrArg (Graph.sweepNode finishedDeep g id >>= ·) (funext ih)
  exact heach _ g

/-- Finishing a node and what is inside it keeps its id. -/
theorem id_finishedDeep {g : Workflow} {n n' : Node Group} (h : finishedDeep g n = .ok n') :
    n'.id = n.id := by
  rcases finishedDeep_cases h with ⟨-, -, hfinished⟩ | ⟨x, inner, -, -, rfl⟩
  · exact Graph.id_finished hfinished
  · exact Node.id_onGroup _ n

/-- A group is finished again with the nodes inside it. -/
theorem finishedDeep_unfinishDeep {h : Workflow} {n m : Node Group} {x y : Group} {inner : Subgraph}
    (hfresh : n.IsFreshDeep) (hgroup : n.group? = some x) (hm : m.group? = some y)
    (hinner : x.graph.finishAll (x.graph.nodes.map (·.id)) = .ok inner)
    (hmatches : Group.Matches { x with graph := inner } y) : finishedDeep h m.unfinishDeep = .ok m := by
  rw [Graph.finishAll_eq_sweep] at hinner
  have hredone := Graph.redo_finished.sweep_eq (fun _ _ _ => Graph.id_finished)
    (hfresh.distinct x hgroup) (hfresh.inside x hgroup) hinner hmatches.links hmatches.nodes
  rw [Node.unfinishDeep, Node.unfinish_of_not_primitive (Node.isPrimitive_of_group? hm), finishedDeep,
    Node.group?_onGroup, hm]
  simp only [Option.map_some, Graph.finishAll_eq_sweep, hredone, Except.map, Node.onGroup_onGroup]
  rw [Node.onGroup_of_group? _ hm, ← Node.kind_eq_of_group? hm]

private theorem redo_finishedDeep :
    Graph.Redo finishedDeep Node.IsFreshDeep Node.MatchesDeep Node.unfinishDeep where
  face h := h.outside.face
  undone := by
    intro g n n' m hfresh h hm
    rw [Node.unfinishDeep, Node.face_onGroup]
    rcases finishedDeep_cases h with ⟨-, -, hfinished⟩ | ⟨x, inner, hgroup, -, rfl⟩
    · exact Graph.face_unfinish hfresh.outside hfinished hm.outside
    · have hplain : (n.onGroup fun _ => inner).kind.isPrimitive = false := by
        rw [Node.onGroup_of_group? _ hgroup]
        rfl
      rw [Node.unfinish_of_not_primitive (hm.outside.isPrimitive.trans hplain), hm.outside.face,
        Node.face_onGroup]
  redone := by
    intro g h n n' m halike hfresh hfinished hm
    have hinside := hm.inside
    rcases finishedDeep_cases hfinished with ⟨-, hnone, hfinished⟩ | ⟨x, inner, hgroup, hinner, rfl⟩
    · have hnone' : m.group? = none := by
        rw [hnone] at hinside
        cases hm' : m.group? with
        | none => rfl
        | some y =>
          rw [hm'] at hinside
          cases hinside
      have hundone : m.unfinish.group? = none := by rw [Node.group?_unfinish, hnone']
      rw [Node.unfinishDeep, Node.onGroup_of_none _ hundone, finishedDeep, hundone]
      exact Graph.finished_unfinish halike hfresh.outside hfinished hm.outside
    · rw [Node.group?_onGroup, hgroup, Option.map_some] at hinside
      cases hm' : m.group? with
      | none =>
        rw [hm'] at hinside
        cases hinside
      | some y =>
        rw [hm'] at hinside
        cases hinside with
        | some hmatches => exact finishedDeep_unfinishDeep hfresh hgroup hm' hinner hmatches

/-- A workflow that is finished again, with the values that its widgets have, becomes what it was. -/
theorem finish_unfinish {g g' h : Workflow} (hids : (g.nodes.map (·.id)).Nodup)
    (hfresh : ∀ n ∈ g.nodes, n.IsFreshDeep) (hfinish : finish g = .ok g')
    (hlinks : h.links = g'.links) (hms : List.Forall₂ Node.MatchesDeep g'.nodes h.nodes) :
    finish (h.mapNodes Node.unfinishDeep) = .ok h := by
  rw [finish_eq_sweep] at hfinish ⊢
  exact redo_finishedDeep.sweep_eq (fun _ _ _ => id_finishedDeep) hids hfresh hfinish hlinks hms

end Workflow

end NodeFlow
