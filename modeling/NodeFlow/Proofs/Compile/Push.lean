import NodeFlow.Proofs.Compile.Values
import NodeFlow.Proofs.Copy
import NodeFlow.Proofs.Outcome

/-!
# Primitives as copies

A primitive copies the value of its first widget to its targets.  Which widgets these are, and
whether a callback refuses a value, depends on the shape of the graph and not on the values in it, as
long as no callback fails some of its calls only.

Main results:

- Definitions `Hook.IsSteady`, `Widget.TellsSteadily`, `Widget.IsSteady` and `Widget.IsSilent`.
- Definition `Graph.copiesOf`: what the node of an id copies, or why it fails.
- Theorem `Graph.copiesOf_mapNodes`: it depends on the shape only.
- Theorem `Graph.exec_pushValue`: pushing a value makes these copies and changes nothing else.
-/

namespace NodeFlow

/-! ## Hooks that fail always or never -/

/-- Every call of the hook fails or none does. -/
def Hook.IsSteady (h : Hook) : Prop := h.script.raises.isSome = true → h.script.raiseLimit = none

/-- What comes of a call, of whatever number. -/
def Hook.outcome (h : Hook) : Except Fault Unit :=
  match h.script.raises with
  | some r => .error (.raised r)
  | none => .ok ()

/-- Calling a hook never waits. -/
theorem Hook.call_isStraight (h : Hook) (entry : Trace.Entry) : (h.call entry).IsStraight := by
  refine .bind (.modify _) fun _ => .bind (.ofExec _) fun count => ?_
  split
  · exact .lift _
  · exact .pure _

private theorem Hook.failure?_of_isSteady {h : Hook} (hsteady : h.IsSteady) (count : Nat) :
    h.failure? count = h.script.raises := by
  cases hr : h.script.raises with
  | none => simp [failure?, hr]
  | some r => simp [failure?, hr, hsteady (by rw [hr]; rfl)]

/-- A steady hook comes to the same whenever it is called. -/
theorem Hook.exec_call {h : Hook} (hsteady : h.IsSteady) (entry : Trace.Entry) (o : Outside) :
    ((h.call entry).exec o).1 = h.outcome := by
  rw [call, note, Act.exec_bind, Act.exec_modify]
  dsimp only
  rw [Act.exec_bind, Act.exec_ofExec]
  dsimp only
  rw [failure?_of_isSteady hsteady, outcome]
  cases h.script.raises <;> rfl

namespace Widget

/-- The callback of the widget, if there is one, fails always or never. -/
def TellsSteadily (w : Widget) : Prop := ∀ h, w.callback = some h → h.IsSteady

/-- The widget has no hook that runs before a submission, and the hooks that run with one fail
always or never. -/
structure IsSteady (w : Widget) : Prop where
  beforeQueued : w.beforeQueued = none
  callback : ∀ h, w.callback = some h → h.IsSteady
  serializer : ∀ h, w.serializer = some h → h.IsSteady

/-- The widget has no hook that runs before or with a submission. -/
structure IsSilent (w : Widget) : Prop where
  beforeQueued : w.beforeQueued = none
  callback : w.callback = none
  serializer : w.serializer = none

/-- A widget without hooks is steady. -/
theorem IsSilent.isSteady {w : Widget} (h : w.IsSilent) : w.IsSteady where
  beforeQueued := h.beforeQueued
  callback := by simp [h.callback]
  serializer := by simp [h.serializer]

/-- Whether a callback is steady does not depend on the value of its widget. -/
theorem tellsSteadily_bare (w : Widget) : w.bare.TellsSteadily ↔ w.TellsSteadily := Iff.rfl

/-- Whether a widget is steady does not depend on its value. -/
theorem isSteady_bare (w : Widget) : w.bare.IsSteady ↔ w.IsSteady :=
  ⟨fun h => ⟨h.1, h.2, h.3⟩, fun h => ⟨h.1, h.2, h.3⟩⟩

/-- Whether a widget has hooks does not depend on its value. -/
theorem isSilent_bare (w : Widget) : w.bare.IsSilent ↔ w.IsSilent :=
  ⟨fun h => ⟨h.1, h.2, h.3⟩, fun h => ⟨h.1, h.2, h.3⟩⟩

/-- What comes of telling the callback about a value. -/
def told (w : Widget) : Except Fault Unit :=
  match w.callback with
  | some h => h.outcome
  | none => .ok ()

/-- Assigning a value never waits. -/
theorem assign_isStraight (i : Nat) (v : Json) : (assign i v).IsStraight := by
  refine .bind (.modify _) fun _ => .bind .get fun b => ?_
  split
  · rename_i w _
    refine .focus ?_ _ _
    unfold announce
    split
    · exact Hook.call_isStraight _ _
    · exact .pure _
  · exact .pure _

/-- Applying a control never waits. -/
theorem applyControl_isStraight (target : Widget) (source : RandomSource) (mode : Json) (i : Nat) :
    (applyControl target source mode i).IsStraight := by
  unfold applyControl
  split
  · exact .pure _
  · refine .bind (.focus (.ofExec _) _ _) fun _ => .bind (.lift _) fun next => ?_
    split
    · exact assign_isStraight _ _
    · exact .pure _

/-- The widget that is changed has the new value. -/
theorem getElem?_modify_withValue {ws : List Widget} {i : Nat} {w : Widget} (hw : ws[i]? = some w)
    (v : Json) : (ws.modify i (·.withValue v))[i]? = some (w.withValue v) := by
  rw [List.getElem?_modify, hw]
  simp

/-- An assignment stores the value, and then tells it to the callback of the widget. -/
theorem exec_assign_eq {ws : List Widget} {i : Nat} {w : Widget} (hw : ws[i]? = some w) (v : Json)
    (o : Outside) : (assign i v).exec (ws, o) =
      (outward ((w.withValue v).announce v)).exec (ws.modify i (·.withValue v), o) := by
  rw [assign, Act.exec_bind, Act.exec_modify]
  dsimp only
  rw [Act.exec_bind, Act.exec_get]
  simp only [getElem?_modify_withValue hw]

/-- An assignment gives the widget the value, also if the callback then fails. -/
theorem exec_assign {ws : List Widget} {i : Nat} {w : Widget} (hw : ws[i]? = some w)
    (hsteady : w.TellsSteadily) (v : Json) (o : Outside) :
    ∃ o', (assign i v).exec (ws, o) = (w.told, (ws.modify i (·.withValue v), o')) ∧
      (w.IsSilent → o' = o) := by
  rw [exec_assign_eq hw, exec_outward]
  refine ⟨_, Prod.ext ?_ rfl, ?_⟩
  · cases hc : w.callback with
    | none => simp [announce, told, hc, withValue]
    | some h =>
      simp only [announce, told, hc, withValue]
      exact Hook.exec_call (hsteady h hc) _ _
  · intro hsilent
    simp [announce, hsilent.callback, withValue]

end Widget

namespace Graph

variable {γ : Type} {g g' : Graph γ}

/-! ## One value -/

/-- Give the widget at a place a value. -/
def setValue (c : NodeId × Nat) (v : Json) (g : Graph γ) : Graph γ :=
  g.modifyNode c.1 fun n => { n with widgets := n.widgets.modify c.2 (·.withValue v) }

/-- A change of one node is a change of all nodes that leaves the others. -/
theorem modifyNode_eq_mapNodes (id : NodeId) (f : Node γ → Node γ) (g : Graph γ) :
    g.modifyNode id f = g.mapNodes fun n => if n.id = id then f n else n := rfl

/-- A new value leaves everything else about the graph. -/
theorem shape_setValue (c : NodeId × Nat) (v : Json) (g : Graph γ) :
    (g.setValue c v).mapNodes Node.bare = g.mapNodes Node.bare := by
  have hnodes : (g.setValue c v).nodes.map Node.bare = g.nodes.map Node.bare := by
    simp only [setValue, modifyNode, List.map_map]
    refine List.map_congr_left fun n _ => ?_
    by_cases hid : n.id = c.1
    · simp [hid, Node.bare, Widget.map_bare_modify]
    · simp [hid]
  have hself : ∀ h : Graph γ, h.mapNodes Node.bare =
      { h with nodes := h.nodes.map Node.bare } := fun _ => rfl
  rw [hself, hself, hnodes]
  rfl

private theorem at?_setValue (c : NodeId × Nat) (v : Json) (g : Graph γ) (id : NodeId) :
    (g.setValue c v).at? id = (g.at? id).map fun n =>
      if n.id = c.1 then { n with widgets := n.widgets.modify c.2 (·.withValue v) } else n := by
  rw [setValue, modifyNode_eq_mapNodes]
  refine at?_mapNodes ⟨fun n => ?_, fun n => ?_, fun n => ?_⟩ g id <;> split <;> rfl

/-- A value that is set is there, and no other one changes. -/
theorem valueAt_setValue {c : NodeId × Nat} (hc : (g.widgetAt? c).isSome = true) (v : Json)
    (k : NodeId × Nat) :
    (g.setValue c v).valueAt k = if k = c then some v else g.valueAt k := by
  rcases Option.isSome_iff_exists.1 hc with ⟨⟨n, w⟩, hc⟩
  rcases widgetAt?_eq_some.1 hc with ⟨hm, hu⟩
  rw [valueAt_eq, valueAt_eq, at?_setValue]
  by_cases hid : k.1 = c.1
  · have hn : n.id = c.1 := id_of_at? hm
    rw [hid, hm]
    simp only [Option.map_some, hn, if_true, Option.bind_some, List.getElem?_modify]
    by_cases hi : k.2 = c.2
    · rw [if_pos (Prod.ext hid hi), hi, hu]
      simp
    · have hne : k ≠ c := fun h => hi (congrArg Prod.snd h)
      rw [if_neg hne]
      simp [Ne.symm hi]
  · have hne : k ≠ c := fun h => hid (congrArg Prod.fst h)
    rw [if_neg hne]
    cases hk : g.at? k.1 with
    | none => rfl
    | some m => simp [id_of_at? hk, hid]

/-- The widgets of a node with one value changed, in their place. -/
theorem modifyNode_widgets (hids : (g.nodes.map (·.id)).Nodup) {c : NodeId × Nat} {n : Node γ}
    (hn : g.at? c.1 = some n) (v : Json) :
    (g.modifyNode c.1 fun m => { m with widgets := n.widgets.modify c.2 (·.withValue v) }) =
      g.setValue c v := by
  simp only [setValue, modifyNode]
  congr 1
  refine List.map_congr_left fun m hm => ?_
  by_cases hid : m.id = c.1
  · have hat := at?_of_mem hids hm
    rw [hid, hn] at hat
    rw [Option.some.inj hat]
  · rw [if_neg hid, if_neg hid]

/-- An assignment to a widget of a graph. -/
theorem exec_onWidgets_assign (hids : (g.nodes.map (·.id)).Nodup)
    (hsteady : g.AllWidgets Widget.TellsSteadily) {c : NodeId × Nat} {n : Node γ} {w : Widget}
    (hc : g.widgetAt? c = some (n, w)) (v : Json) (o : Outside) :
    ∃ o', (onWidgets c.1 (Widget.assign c.2 v)).exec (g, o) = (w.told, (g.setValue c v, o')) ∧
      (w.IsSilent → o' = o) := by
  rcases widgetAt?_eq_some.1 hc with ⟨hm, hu⟩
  have htells := hsteady n (mem_of_at? hm) w (List.mem_of_getElem? hu)
  rcases Widget.exec_assign hu htells v o with ⟨o', hexec, ho⟩
  refine ⟨o', ?_, ho⟩
  rw [onWidgets, (Widget.assign_isStraight c.2 v).exec_focus, hm]
  simp only [Option.map_some, Option.getD_some, hexec, modifyNode_widgets hids hm]

/-! ## One value to many widgets -/

/-- What comes of telling the callback of a widget. -/
def tell (g : Graph γ) (c : NodeId × Nat) : Except Fault Unit :=
  ((g.widgetAt? c).map (·.2.told)).getD (.ok ())

/-- What comes of telling the callbacks of widgets, one after the other. -/
def tellAll (g : Graph γ) : List (NodeId × Nat) → Except Fault Unit
  | [] => .ok ()
  | c :: cs => do
    g.tell c
    tellAll g cs

/-- Changes that leave alone where primitives find their targets. -/
structure IsNamed (f : Node γ → Node γ) : Prop extends IsNeutral f where
  outputs : ∀ n, (f n).outputs = n.outputs
  isCutOff : ∀ n, (f n).isCutOff = n.isCutOff
  names : ∀ n, (f n).widgets.map (·.name) = n.widgets.map (·.name)

/-- Changes that leave alone what primitives look at. -/
structure IsNominal (f : Node γ → Node γ) : Prop extends IsNeutral f where
  outputs : ∀ n, (f n).outputs = n.outputs
  isCutOff : ∀ n, (f n).isCutOff = n.isCutOff
  isPrimitive : ∀ n, (f n).kind.isPrimitive = n.kind.isPrimitive
  widgets : ∀ n, (f n).widgets.map Widget.bare = n.widgets.map Widget.bare

/-- A change that leaves alone what primitives look at leaves the names of inputs and widgets. -/
theorem IsNominal.isNamed {f : Node γ → Node γ} (hf : IsNominal f) : IsNamed f where
  toIsNeutral := hf.toIsNeutral
  outputs := hf.outputs
  isCutOff := hf.isCutOff
  names n := by
    have hnames : ∀ ws : List Widget, ws.map (·.name) = (ws.map Widget.bare).map (·.name) := by
      intro ws
      rw [List.map_map]
      rfl
    rw [hnames, hnames n.widgets, hf.widgets]

/-- Values are nothing that primitives look at. -/
theorem isNominal_bare : IsNominal (Node.bare (γ := γ)) where
  toIsNeutral := Node.isNeutral_bare
  outputs _ := rfl
  isCutOff _ := rfl
  isPrimitive _ := rfl
  widgets n := by
    rw [Node.bare, List.map_map]
    rfl

/-- The values inside groups are nothing that primitives look at. -/
theorem isNominal_hollow : IsNominal Node.hollow where
  toIsNeutral := Node.isNeutral_hollow
  outputs _ := rfl
  isCutOff _ := rfl
  isPrimitive n := by
    unfold Node.hollow
    cases n.kind <;> rfl
  widgets _ := rfl

section Nominal

variable {f : Node γ → Node γ} (hf : IsNominal f) (g : Graph γ)

include hf

private theorem bare_getElem?_nominal (n : Node γ) (i : Nat) :
    (f n).widgets[i]?.map Widget.bare = n.widgets[i]?.map Widget.bare := by
  rw [← List.getElem?_map, hf.widgets, List.getElem?_map]

private theorem tell_mapNodes (c : NodeId × Nat) : (g.mapNodes f).tell c = g.tell c := by
  have htold : ∀ n : Node γ, (f n).widgets[c.2]?.map Widget.told = n.widgets[c.2]?.map Widget.told := by
    intro n
    have hbare : Widget.told ∘ Widget.bare = Widget.told := rfl
    rw [← hbare, ← Option.map_map, bare_getElem?_nominal hf, Option.map_map]
  have htell : ∀ h : Graph γ, h.tell c =
      ((h.at? c.1).bind fun n => n.widgets[c.2]?.map Widget.told).getD (.ok ()) := by
    intro h
    rw [tell, widgetAt?]
    cases h.at? c.1 with
    | none => rfl
    | some n => cases hw : n.widgets[c.2]? <;> simp [hw]
  rw [htell, htell, at?_mapNodes hf.toIsNeutral]
  cases g.at? c.1 with
  | none => rfl
  | some n => simp [htold]

private theorem tellAll_mapNodes (cs : List (NodeId × Nat)) :
    (g.mapNodes f).tellAll cs = g.tellAll cs := by
  induction cs with
  | nil => rfl
  | cons c cs ih => rw [tellAll, tellAll, tell_mapNodes hf, ih]

end Nominal

section Named

variable {f : Node γ → Node γ} (hf : IsNamed f) (g : Graph γ)

include hf

private theorem position?_named (n : Node γ) (name : String) :
    Widget.position? (f n).widgets name = Widget.position? n.widgets name := by
  have hnames : ∀ ws : List Widget, Widget.position? ws name =
      (ws.map (·.name)).findIdx? (· == name) := by
    intro ws
    rw [List.findIdx?_map]
    rfl
  rw [hnames, hnames, hf.names]

/-- Where a link leads does not change. -/
theorem targetOf_mapNodes (l : Link) : (g.mapNodes f).targetOf l = g.targetOf l := by
  simp only [targetOf, lookup?_mapNodes hf.toIsNeutral]
  cases g.lookup? l.target with
  | error e => rfl
  | ok found =>
    cases found with
    | none => rfl
    | some n =>
      simp only [Except.map, Option.map_some, bind, Except.bind, hf.inputs, hf.id,
        position?_named hf]

private theorem targetsOf_mapNodes (ls : List Link) :
    (g.mapNodes f).targetsOf ls = g.targetsOf ls := by
  induction ls with
  | nil => rfl
  | cons l ls ih => simp only [targetsOf, targetOf_mapNodes hf, ih]

/-- Where a primitive leads does not change. -/
theorem targets_mapNodes (n : Node γ) : (g.mapNodes f).targets (f n) = g.targets n := by
  have hlinks : (g.mapNodes f).outLinks? (f n) 0 = g.outLinks? n 0 := by
    simp only [outLinks?, hf.outputs, hf.isCutOff]
    rfl
  simp only [targets, hlinks, targetsOf_mapNodes hf]

end Named

/-- A target is a widget of the node at the far end of a link, the first one of the name that the
input there is made from. -/
theorem targetOf_eq_some {l : Link} {c : NodeId × Nat} (h : g.targetOf l = .ok (some c)) :
    ∃ n slot name, g.lookup? l.target = .ok (some n) ∧
      (position? n.inputs.length l.targetSlot.val).bind (n.inputs[·]?) = some slot ∧
      slot.widget = .str name ∧ n.id = c.1 ∧ Widget.position? n.widgets name = some c.2 := by
  rcases Fault.bind_eq_ok_iff.1 h with ⟨found, hfound, h⟩
  cases found with
  | none => cases h
  | some n =>
    simp only at h
    split at h
    · cases h
    · split at h
      · cases h
      · rename_i slot hslot
        split at h
        · rename_i name hname
          split at h
          · cases h
          · rcases Option.map_eq_some_iff.1 (Except.ok.inj h) with ⟨i, hi, rfl⟩
            exact ⟨n, slot, name, hfound, hslot, hname, rfl, hi⟩
        · cases h

/-- The targets are those of the links, in order. -/
theorem mem_targetsOf {ls : List Link} {places : List (NodeId × Nat)}
    (h : g.targetsOf ls = .ok places) {c : NodeId × Nat} (hc : c ∈ places) :
    ∃ l ∈ ls, g.targetOf l = .ok (some c) := by
  induction ls generalizing places with
  | nil =>
    cases h
    cases hc
  | cons l ls ih =>
    rcases Fault.bind_eq_ok_iff.1 h with ⟨found, hfound, h⟩
    rcases Fault.bind_eq_ok_iff.1 h with ⟨rest, hrest, h⟩
    cases h
    rcases List.mem_append.1 hc with hc | hc
    · rw [Option.mem_toList] at hc
      rw [hc] at hfound
      exact ⟨l, List.mem_cons_self, hfound⟩
    · rcases ih hrest hc with ⟨l', hl', htarget⟩
      exact ⟨l', List.mem_cons_of_mem l hl', htarget⟩

/-- A target of a primitive is at the end of a link of its first output. -/
theorem mem_targets {n : Node γ} {places : List (NodeId × Nat)} (h : g.targets n = .ok places)
    {c : NodeId × Nat} (hc : c ∈ places) :
    ∃ ls, g.outLinks? n 0 = .ok ls ∧ ∃ l ∈ ls, g.targetOf l = .ok (some c) := by
  rcases Fault.bind_eq_ok_iff.1 h with ⟨ls, hls, h⟩
  exact ⟨ls, hls, mem_targetsOf h hc⟩

/-- The widgets that a primitive is linked to are there. -/
theorem isSome_of_mem_targets (hids : (g.nodes.map (·.id)).Nodup) {n : Node γ}
    {places : List (NodeId × Nat)} (h : g.targets n = .ok places) {c : NodeId × Nat}
    (hc : c ∈ places) : (g.widgetAt? c).isSome = true := by
  rcases mem_targets h hc with ⟨_, -, l, -, htarget⟩
  rcases targetOf_eq_some htarget with ⟨m, slot, name, hm, -, -, hid, hi⟩
  have hw : c.2 < m.widgets.length := by
    rw [Widget.position?, List.findIdx?_eq_some_iff_getElem] at hi
    exact hi.1
  rw [widgetAt?, ← hid, at?_of_mem hids (mem_of_lookup? hm)]
  simp [List.getElem?_eq_getElem hw]

private theorem allWidgets_of_shape {P : Widget → Prop} (hP : ∀ w : Widget, P w.bare ↔ P w)
    (hshape : g'.mapNodes Node.bare = g.mapNodes Node.bare) (h : g.AllWidgets P) :
    g'.AllWidgets P := by
  intro n hn w hw
  have hmem : n.bare ∈ g.nodes.map Node.bare := by
    have hnodes : g'.nodes.map Node.bare = g.nodes.map Node.bare := congrArg (·.nodes) hshape
    rw [← hnodes]
    exact List.mem_map_of_mem hn
  rcases List.mem_map.1 hmem with ⟨m, hm, hsame⟩
  have hwidgets : m.widgets.map Widget.bare = n.widgets.map Widget.bare :=
    congrArg (·.widgets) hsame
  have hbare : w.bare ∈ m.widgets.map Widget.bare := hwidgets ▸ List.mem_map_of_mem hw
  rcases List.mem_map.1 hbare with ⟨u, hu, heq⟩
  rw [← hP, ← heq, hP]
  exact h m hm u hu

/-- Graphs that differ in values only have widgets at the same places. -/
theorem isSome_widgetAt?_of_shape (hshape : g'.mapNodes Node.bare = g.mapNodes Node.bare)
    (c : NodeId × Nat) : (g'.widgetAt? c).isSome = (g.widgetAt? c).isSome := by
  have hbare : ∀ h : Graph γ, (h.widgetAt? c).isSome = ((h.mapNodes Node.bare).widgetAt? c).isSome := by
    intro h
    rw [widgetAt?, widgetAt?, at?_mapNodes Node.isNeutral_bare]
    cases h.at? c.1 with
    | none => rfl
    | some n => cases hw : n.widgets[c.2]? <;> simp [Node.bare, hw]
  rw [hbare, hshape, ← hbare]

/-- A value given to widgets that are there, one after the other.  The shape of the graph stays, and
if no callback refuses, the widgets have the value and no other one changes. -/
theorem exec_each_assign {places : List (NodeId × Nat)} (hids : (g.nodes.map (·.id)).Nodup)
    (hsteady : g.AllWidgets Widget.TellsSteadily)
    (hplaces : ∀ c ∈ places, (g.widgetAt? c).isSome = true)
    (v : Json) (o : Outside) :
    ∃ g' o', (Act.each places fun c => onWidgets c.1 (Widget.assign c.2 v)).exec (g, o) =
        (g.tellAll places, (g', o')) ∧
      g'.mapNodes Node.bare = g.mapNodes Node.bare ∧
      (g.tellAll places = .ok () → ∀ k, g'.valueAt k = if k ∈ places then some v else g.valueAt k) ∧
      (g.AllWidgets Widget.IsSilent → o' = o) := by
  induction places generalizing g o with
  | nil => exact ⟨g, o, rfl, rfl, by simp, fun _ => rfl⟩
  | cons c places ih =>
    rcases Option.isSome_iff_exists.1 (hplaces c List.mem_cons_self) with ⟨⟨n, w⟩, hc⟩
    rcases exec_onWidgets_assign hids hsteady hc v o with ⟨o₁, hfirst, ho₁⟩
    have hshape := shape_setValue c v g
    have htell : g.tell c = w.told := by rw [tell, hc]; rfl
    have hquiet : g.AllWidgets Widget.IsSilent → o₁ = o := by
      intro hsilent
      rcases widgetAt?_eq_some.1 hc with ⟨hn, hw⟩
      exact ho₁ (hsilent n (mem_of_at? hn) w (List.mem_of_getElem? hw))
    rw [Act.each, Act.exec_bind, hfirst, tellAll, htell]
    cases w.told with
    | error f => exact ⟨g.setValue c v, o₁, rfl, hshape, fun h => (by cases h), hquiet⟩
    | ok u =>
      have hids₁ : ((g.setValue c v).nodes.map (·.id)).Nodup := by rwa [ids_of_shape hshape]
      have hsteady₁ := allWidgets_of_shape Widget.tellsSteadily_bare hshape hsteady
      have hplaces₁ : ∀ k ∈ places, ((g.setValue c v).widgetAt? k).isSome = true := by
        intro k hk
        rw [isSome_widgetAt?_of_shape hshape]
        exact hplaces k (List.mem_cons_of_mem c hk)
      have htells : (g.setValue c v).tellAll places = g.tellAll places := by
        rw [← tellAll_mapNodes isNominal_bare, hshape, tellAll_mapNodes isNominal_bare]
      rcases ih hids₁ hsteady₁ hplaces₁ o₁ with ⟨g', o', hexec, hshape', hvalues, ho'⟩
      refine ⟨g', o', ?_, hshape'.trans hshape, ?_, ?_⟩
      · rw [← htells]
        exact hexec
      · intro htold k
        rw [hvalues (htells.trans htold), valueAt_setValue (hplaces c List.mem_cons_self)]
        by_cases hk : k ∈ places <;> simp [hk]
      · intro hsilent
        rw [ho' (allWidgets_of_shape Widget.isSilent_bare hshape hsilent), hquiet hsilent]

/-! ## A push -/

/-- What the node of an id copies, if it is a primitive with a widget. -/
def copiesOf (g : Graph γ) (id : NodeId) : Except Fault (List (Copy (NodeId × Nat))) :=
  match g.at? id with
  | none => .ok []
  | some n =>
    if n.kind.isPrimitive && !n.widgets.isEmpty then do
      let places ← g.targets n
      g.tellAll places
      pure [⟨(n.id, 0), places⟩]
    else .ok []

/-- What a node copies does not depend on values. -/
theorem copiesOf_mapNodes {f : Node γ → Node γ} (hf : IsNominal f) (g : Graph γ) (id : NodeId) :
    (g.mapNodes f).copiesOf id = g.copiesOf id := by
  rw [copiesOf, copiesOf, at?_mapNodes hf.toIsNeutral]
  cases g.at? id with
  | none => rfl
  | some n =>
    have hempty : (f n).widgets.isEmpty = n.widgets.isEmpty := by
      have hlength := congrArg List.length (hf.widgets n)
      rw [List.length_map, List.length_map] at hlength
      rw [Bool.eq_iff_iff, List.isEmpty_iff_length_eq_zero, List.isEmpty_iff_length_eq_zero, hlength]
    simp only [Option.map_some, hf.isPrimitive, hempty, targets_mapNodes hf.isNamed, hf.id,
      tellAll_mapNodes hf]

/-- The only copy is that of the value of the first widget to the targets. -/
theorem copiesOf_eq_ok {id : NodeId} {cs : List (Copy (NodeId × Nat))} (h : g.copiesOf id = .ok cs) :
    cs = [] ∨ ∃ n places, g.at? id = some n ∧ n.kind.isPrimitive = true ∧
      g.targets n = .ok places ∧ cs = [⟨(id, 0), places⟩] := by
  unfold copiesOf at h
  split at h
  · cases h
    exact .inl rfl
  · rename_i n hn
    split at h
    · rename_i hprimitive
      rcases Fault.bind_eq_ok_iff.1 h with ⟨places, hplaces, h⟩
      rcases Fault.bind_eq_ok_iff.1 h with ⟨_, -, h⟩
      cases h
      rw [Bool.and_eq_true] at hprimitive
      exact .inr ⟨n, places, hn, hprimitive.1, hplaces, by rw [id_of_at? hn]⟩
    · cases h
      exact .inl rfl

/-- What a push does on the whole. -/
theorem exec_pushValue_eq (g : Graph γ) (id : NodeId) (o : Outside) :
    (∃ n w ws places, g.at? id = some n ∧ n.kind.isPrimitive = true ∧ n.widgets = w :: ws ∧
      g.targets n = .ok places ∧ (pushValue id).exec (g, o) =
        (Act.each places fun c => onWidgets c.1 (Widget.assign c.2 w.value)).exec (g, o)) ∨
    (∃ n f, g.at? id = some n ∧ n.kind.isPrimitive = true ∧ n.widgets.isEmpty = false ∧
      g.targets n = .error f ∧ (pushValue id).exec (g, o) = (.error f, (g, o))) ∨
    (∀ n, g.at? id = some n → (n.kind.isPrimitive && !n.widgets.isEmpty) = false) ∧
      (pushValue id).exec (g, o) = (.ok (), (g, o)) := by
  rw [pushValue, Act.exec_bind, Act.exec_get]
  simp only
  cases hn : g.at? id with
  | none => exact .inr (.inr ⟨by simp, rfl⟩)
  | some n =>
    cases hkind : n.kind with
    | primitive pending =>
      cases hwidgets : n.widgets with
      | nil => exact .inr (.inr ⟨by simp [hwidgets], by simp [hkind, hwidgets]⟩)
      | cons w ws =>
        simp only [hkind, hwidgets, Act.exec_bind, Act.exec_lift]
        cases hplaces : g.targets n with
        | ok places => exact .inl ⟨n, w, ws, places, rfl, by rw [hkind]; rfl, hwidgets, hplaces, rfl⟩
        | error f =>
          exact .inr (.inl ⟨n, f, rfl, by rw [hkind]; rfl, by rw [hwidgets]; rfl, hplaces, rfl⟩)
    | _ =>
      refine .inr (.inr ⟨?_, by simp [hkind]⟩)
      rintro m hm
      cases hm
      rw [hkind]
      rfl

/-- A push comes to what the copies of its node come to, keeps the shape of the graph, and if it
succeeds, it has made these copies. -/
theorem exec_pushValue (hids : (g.nodes.map (·.id)).Nodup)
    (hsteady : g.AllWidgets Widget.TellsSteadily)
    (id : NodeId) (o : Outside) :
    ∃ g' o', (pushValue id).exec (g, o) = ((g.copiesOf id).map fun _ => (), (g', o')) ∧
      g'.mapNodes Node.bare = g.mapNodes Node.bare ∧
      (∀ cs, g.copiesOf id = .ok cs → g'.valueAt = Copy.run cs g.valueAt) ∧
      (g.AllWidgets Widget.IsSilent → o' = o) := by
  rcases exec_pushValue_eq g id o with ⟨n, w, ws, places, hn, hprimitive, hwidgets, hplaces, hexec⟩ |
    ⟨n, f, hn, hprimitive, hwidgets, hplaces, hexec⟩ | ⟨hidle, hexec⟩
  · have hmem := mem_of_at? hn
    have hcopies : g.copiesOf id = (g.tellAll places).map fun _ => [⟨(n.id, 0), places⟩] := by
      rw [copiesOf, hn]
      simp only [hprimitive, hwidgets, List.isEmpty_cons, Bool.not_false, Bool.and_self, if_true,
        hplaces, bind, Except.bind]
      cases g.tellAll places <;> rfl
    have hsource : g.valueAt (n.id, 0) = some w.value := by
      rw [valueAt_of_mem hids hmem, hwidgets]
      rfl
    obtain ⟨g', o', heach, hshape, hvalues, hquiet⟩ := exec_each_assign hids hsteady
      (fun c hc => isSome_of_mem_targets hids hplaces hc) w.value o
    refine ⟨g', o', ?_, hshape, ?_, hquiet⟩
    · rw [hexec, heach, hcopies]
      cases g.tellAll places <;> rfl
    · intro cs hcs
      rw [hcopies] at hcs
      cases htold : g.tellAll places with
      | error f =>
        rw [htold] at hcs
        cases hcs
      | ok u =>
        rw [htold] at hcs
        cases hcs
        funext k
        rw [hvalues htold k, Copy.run, Copy.run]
        by_cases hk : k ∈ places
        · rw [if_pos hk, Copy.apply_of_mem hk, hsource]
        · rw [if_neg hk, Copy.apply_of_not_mem hk]
  · refine ⟨g, o, ?_, rfl, ?_, fun _ => rfl⟩ <;>
      rw [copiesOf, hn] <;>
      simp only [hprimitive, hwidgets, Bool.not_false, Bool.and_self, if_true, hplaces]
    · exact hexec
    · intro cs hcs
      cases hcs
  · have hcopies : g.copiesOf id = .ok [] := by
      rw [copiesOf]
      cases hn : g.at? id with
      | none => rfl
      | some n => simp [hidle n hn]
    refine ⟨g, o, ?_, rfl, ?_, fun _ => rfl⟩
    · rw [hcopies, hexec]
      rfl
    · intro cs hcs
      rw [hcopies] at hcs
      cases hcs
      rfl

end Graph

end NodeFlow
