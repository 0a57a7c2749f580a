import NodeFlow.Proofs.Compile.Running
import NodeFlow.Proofs.Compile.Skeleton
import NodeFlow.Proofs.Edit.Connect
import NodeFlow.Proofs.Load.Keys

/-!
# What stands under a name

A node takes an input of a step under its name: as a link into a slot or as the value of a widget.
What stands under the names of all nodes is thus the content of a graph, and around it stands what
taking inputs leaves alone, the frames of the nodes.

Main results:

- Definition `Node.frame`: the node without links and values.
- Type `Content` and definition `Graph.content`: what stands under a name of a node.
- Definition `Content.take`: the content once an input of a step is taken.
- Theorems `Graph.content_assign` and `Graph.content_of_spares`: a value given and a link put in change
  what stands under one name.
-/

namespace NodeFlow

/-! ## Frames -/

/-- A widget has a partner in widgets that differ in their values only. -/
theorem Widget.exists_of_bare {ws ws' : List Widget} (h : ws'.map bare = ws.map bare) {w : Widget}
    (hw : w ∈ ws) : ∃ w' ∈ ws', w'.bare = w.bare :=
  List.mem_map.1 (h ▸ List.mem_map_of_mem hw)

/-- The input without its link. -/
def InputSlot.unlinked (s : InputSlot) : InputSlot := { s with link := none }

/-- The output without its links. -/
def OutputSlot.unlinked (o : OutputSlot) : OutputSlot := { o with links := [] }

namespace Node

variable {γ : Type}

/-- The node without its links. -/
def unlinked (n : Node γ) : Node γ :=
  { n with inputs := n.inputs.map InputSlot.unlinked
           outputs := n.outputs.map OutputSlot.unlinked }

/-- The node without links and values. -/
def frame (n : Node γ) : Node γ := n.unlinked.bare

private theorem unlinked_modifyInput (j : Nat) (k : Option Int) (n : Node γ) :
    (n.modifyInput j fun s => { s with link := k }).unlinked = n.unlinked := by
  have hinputs : (n.inputs.modify j fun s => { s with link := k }).map InputSlot.unlinked =
      n.inputs.map InputSlot.unlinked :=
    map_modify_of_eq (fun s => show InputSlot.unlinked { s with link := k } = s.unlinked from rfl) _ _
  simp only [unlinked, modifyInput, hinputs]

private theorem unlinked_modifyOutput (i : Nat) (f : List Int → List Int) (n : Node γ) :
    (n.modifyOutput i fun o => { o with links := f o.links }).unlinked = n.unlinked := by
  have houtputs : (n.outputs.modify i fun o => { o with links := f o.links }).map
      OutputSlot.unlinked = n.outputs.map OutputSlot.unlinked :=
    map_modify_of_eq (fun o => show OutputSlot.unlinked { o with links := f o.links } = o.unlinked
      from rfl) _ _
  simp only [unlinked, modifyOutput, houtputs]

private theorem inputPosition?_injective {n : Node γ} {name name' : String} {i : Nat}
    (h : n.inputPosition? name = some i) (h' : n.inputPosition? name' = some i) : name = name' := by
  rcases List.findIdx?_eq_some_iff_getElem.1 h with ⟨hi, hname, -⟩
  rcases List.findIdx?_eq_some_iff_getElem.1 h' with ⟨_, hname', -⟩
  have hfirst : n.inputs[i].name = name := by simpa using hname
  have hsecond : n.inputs[i].name = name' := by simpa using hname'
  rw [← hfirst, hsecond]

section Frame

variable {n n' : Node γ} (h : n'.frame = n.frame)

include h

/-- Nodes of one frame have one id. -/
theorem id_of_frame : n'.id = n.id := congrArg (fun m => m.id) h

/-- Nodes of one frame have one kind. -/
theorem kind_of_frame : n'.kind = n.kind := congrArg (fun m => m.kind) h

/-- Nodes of one frame have inputs of the same names in the same order. -/
theorem inputNames_of_frame : n'.inputs.map (·.name) = n.inputs.map (·.name) := by
  have hinputs := congrArg (fun m => m.inputs.map (·.name)) h
  simpa [frame, unlinked, bare, InputSlot.unlinked, Function.comp_def] using hinputs

/-- Nodes of one frame have as many outputs. -/
theorem outputs_length_of_frame : n'.outputs.length = n.outputs.length := by
  have houtputs := congrArg (fun m => m.outputs.length) h
  simpa [frame, unlinked, bare] using houtputs

/-- Nodes of one frame have the same widgets but for their values. -/
theorem widgets_of_frame : n'.widgets.map Widget.bare = n.widgets.map Widget.bare :=
  congrArg (fun m => m.widgets) h

/-- Nodes of one frame have each input at the same position. -/
theorem inputPosition?_of_frame (name : String) :
    n'.inputPosition? name = n.inputPosition? name := by
  have hnames : ∀ m : Node γ, m.inputPosition? name =
      (m.inputs.map (·.name)).findIdx? (· == name) := by
    intro m
    rw [List.findIdx?_map]
    rfl
  rw [hnames, hnames, inputNames_of_frame h]

end Frame

end Node

/-! ## Contents -/

/-- What stands under a name of a node: a reference to what feeds the slot of this name, and the
value that the widget of this name shows. -/
@[ext]
structure Content where
  fed : Option Reference
  shown : Option Json

/-- The content once an input of a step is taken: a reference feeds the slot, all else is shown. -/
def Content.take (c : Content) (v : Json) : Content :=
  match Reference.ofJson? v with
  | some r => { c with fed := some r }
  | none => { c with shown := some v }

@[simp] theorem Content.take_reference (c : Content) (r : Reference) :
    c.take r.toJson = { c with fed := some r } := rfl

/-- A content that is given a value shows it. -/
theorem Content.take_value (c : Content) {v : Json} (hv : Reference.ofJson? v = none) :
    c.take v = { c with shown := some v } := by rw [take, hv]

/-- The content once an input is taken, if there is one. -/
def Content.receive (c : Content) (input? : Option Json) : Content := input?.elim c c.take

/-- What feeds a slot that nothing has fed before is the reference among what it receives. -/
theorem Content.fed_receive (shown : Option Json) (input? : Option Json) :
    (receive ⟨none, shown⟩ input?).fed = input?.bind Reference.ofJson? := by
  cases input? with
  | none => rfl
  | some v =>
    rw [receive, Option.elim_some, take, Option.bind_some]
    cases Reference.ofJson? v <;> rfl

namespace Graph

variable {γ : Type} {g g' : Graph γ}

/-- The link that feeds the slot of a name of the node of an id. -/
def feeding? (g : Graph γ) (id : NodeId) (name : String) : Option Link :=
  ((g.at? id).bind (·.inputPosition? name)).bind (g.incoming? id)

/-- What stands under a name of the node of an id. -/
def content (g : Graph γ) (id : NodeId) (name : String) : Content where
  fed := (((g.at? id).bind (·.inputPosition? name)).bind (g.incoming? id)).map Link.reference
  shown := ((g.at? id).bind fun n => Widget.find? n.widgets name).map (·.value)

private theorem fed_content (g : Graph γ) (id : NodeId) (name : String) :
    (g.content id name).fed = (g.feeding? id name).map Link.reference := rfl

/-- Where there are no links, nothing feeds a slot. -/
theorem feeding?_of_links (hlinks : g.links = []) (id : NodeId) (name : String) :
    g.feeding? id name = none := by
  have hnone : ∀ k, g.link? k = none := by
    intro k
    rw [link?, hlinks]
    rfl
  have hincoming : ∀ j, g.incoming? id j = none := by
    intro j
    rw [incoming?]
    cases (g.heldAt? id j).join with
    | none => rfl
    | some k => exact hnone k
  rw [feeding?]
  cases (g.at? id).bind (·.inputPosition? name) with
  | none => rfl
  | some j => rw [Option.bind_some, hincoming]

/-- Where there are no links, nothing is fed. -/
theorem fed_of_links (hlinks : g.links = []) (id : NodeId) (name : String) :
    (g.content id name).fed = none := by
  rw [fed_content, feeding?_of_links hlinks, Option.map_none]

/-- What is found under an id depends on the nodes, as far as they are looked at. -/
theorem at?_map_congr {F : Node γ → Node γ} (hF : ∀ n, (F n).id = n.id)
    (h : g'.nodes.map F = g.nodes.map F) (id : NodeId) :
    (g'.at? id).map F = (g.at? id).map F := by
  have hfind : ∀ ns : List (Node γ), (ns.find? (·.id == id)).map F =
      (ns.map F).find? (·.id == id) := by
    intro ns
    rw [List.find?_map]
    congr 2
    funext n
    simp [hF]
  rw [at?, at?, hfind, hfind, h]

/-- A graph of the same frames has a node under every id, of the same frame. -/
theorem exists_at?_of_frames (h : g'.nodes.map Node.frame = g.nodes.map Node.frame) {id : NodeId}
    {n : Node γ} (hn : g.at? id = some n) : ∃ n', g'.at? id = some n' ∧ n'.frame = n.frame := by
  have hsame := at?_map_congr (F := Node.frame) (fun _ => rfl) h id
  rw [hn, Option.map_some] at hsame
  exact Option.map_eq_some_iff.1 hsame

private theorem inputPosition?_of_frames (h : g'.nodes.map Node.frame = g.nodes.map Node.frame)
    (id : NodeId) (name : String) :
    (g'.at? id).bind (·.inputPosition? name) = (g.at? id).bind (·.inputPosition? name) := by
  cases hn : g.at? id with
  | some n =>
    rcases exists_at?_of_frames h hn with ⟨n', hn', hframe⟩
    rw [hn']
    exact Node.inputPosition?_of_frame hframe name
  | none =>
    have hsame := at?_map_congr (F := Node.frame) (fun _ => rfl) h id
    rw [hn, Option.map_none, Option.map_eq_none_iff] at hsame
    rw [hsame]

/-- A graph of the same frames is canonical, too. -/
theorem Canonical.of_frames (hg : g.Canonical)
    (h : g'.nodes.map Node.frame = g.nodes.map Node.frame) : g'.Canonical := by
  intro n hn
  have hmem : n.frame ∈ g.nodes.map Node.frame := h ▸ List.mem_map_of_mem hn
  rcases List.mem_map.1 hmem with ⟨m, hm, hframe⟩
  exact Node.id_of_frame hframe ▸ hg m hm

end Graph

/-! ## Giving a value -/

/-- An assignment by name changes the first widget of that name. -/
theorem Widget.find?_modify {ws : List Widget} {name : String} {i : Nat}
    (h : position? ws name = some i) (v : Json) (other : String) :
    (find? (ws.modify i (·.withValue v)) other).map (·.value) =
      if other = name then some v else (find? ws other).map (·.value) := by
  induction ws generalizing i with
  | nil => cases h
  | cons w ws ih =>
    rw [position?, List.findIdx?_cons] at h
    by_cases hw : w.name = name
    · simp only [hw, beq_self_eq_true, if_true, Option.some.injEq] at h
      subst h
      by_cases hother : other = name
      · simp [find?, hw, hother]
      · have hne : w.name ≠ other := fun he => hother (he.symm.trans hw)
        simp [find?, hne, hother]
    · simp only [beq_eq_false_iff_ne.2 hw, Bool.false_eq_true, if_false,
        Option.map_eq_some_iff] at h
      rcases h with ⟨j, hj, rfl⟩
      have hrest := ih hj
      by_cases hother : w.name = other
      · have hne : other ≠ name := fun he => hw (hother.trans he)
        simp [find?, hother, hne]
      · simpa [find?, hother] using hrest

/-- Give the widget of a name a value. -/
def Node.assign {γ : Type} (name : String) (v : Json) (n : Node γ) : Node γ :=
  match Widget.position? n.widgets name with
  | some i => { n with widgets := n.widgets.modify i (·.withValue v) }
  | none => n

section Assign

variable {γ : Type} (name : String) (v : Json) (n : Node γ)

private theorem Node.assign_eq : ∃ ws, ws.map Widget.bare = n.widgets.map Widget.bare ∧
    n.assign name v = { n with widgets := ws } := by
  unfold assign
  split
  · exact ⟨_, Widget.map_bare_modify _ _ _, rfl⟩
  · exact ⟨_, rfl, rfl⟩

@[simp] theorem Node.id_assign : (n.assign name v).id = n.id := by
  rcases n.assign_eq name v with ⟨ws, -, h⟩
  rw [h]

@[simp] theorem Node.inputs_assign : (n.assign name v).inputs = n.inputs := by
  rcases n.assign_eq name v with ⟨ws, -, h⟩
  rw [h]

@[simp] theorem Node.outputs_assign : (n.assign name v).outputs = n.outputs := by
  rcases n.assign_eq name v with ⟨ws, -, h⟩
  rw [h]

@[simp] theorem Node.frame_assign : (n.assign name v).frame = n.frame := by
  rcases n.assign_eq name v with ⟨ws, hws, h⟩
  rw [h]
  simp only [frame, unlinked, bare, hws]

/-- A value given by name is shown under no other name. -/
theorem Node.find?_assign_of_ne {other : String} (hother : other ≠ name) :
    (Widget.find? (n.assign name v).widgets other).map (·.value) =
      (Widget.find? n.widgets other).map (·.value) := by
  unfold assign
  split
  · rename_i i hi
    rw [Widget.find?_modify hi, if_neg hother]
  · rfl

end Assign

namespace Graph

variable {γ : Type} {g : Graph γ}

section Assign

variable (g) (id : NodeId) (name : String) (v : Json)

/-- An assignment reaches the node of its id only. -/
theorem at?_assign (id' : NodeId) : (g.modifyNode id (Node.assign name v)).at? id' =
    if id' = id then (g.at? id').map (Node.assign name v) else g.at? id' :=
  at?_modifyNode (Node.id_assign name v) g id id'

@[simp] theorem heldAt?_assign (id' : NodeId) (j : Nat) :
    (g.modifyNode id (Node.assign name v)).heldAt? id' j = g.heldAt? id' j := by
  rw [heldAt?, at?_assign]
  split
  · cases hn : g.at? id' <;> simp [heldAt?, hn]
  · rfl

@[simp] theorem listedAt?_assign (id' : NodeId) (i : Nat) :
    (g.modifyNode id (Node.assign name v)).listedAt? id' i = g.listedAt? id' i := by
  rw [listedAt?, at?_assign]
  split
  · cases hn : g.at? id' <;> simp [listedAt?, hn]
  · rfl

/-- An assignment leaves the frames of nodes alone. -/
theorem frames_assign :
    (g.modifyNode id (Node.assign name v)).nodes.map Node.frame = g.nodes.map Node.frame :=
  map_modifyNode (Node.frame_assign name v) g id

variable {g} {v}

/-- An assignment keeps the records of links in step. -/
theorem Booked.assign (h : g.Booked) : (g.modifyNode id (Node.assign name v)).Booked :=
  h.of_records (ids_modifyNode_of_id (Node.id_assign name v) g id) rfl
    (g.heldAt?_assign id name v) (g.listedAt?_assign id name v) (le_refl _)

/-- A value given to a widget feeds no slot. -/
theorem feeding?_assign (g : Graph γ) (id : NodeId) (name : String) (v : Json) (id' : NodeId)
    (name' : String) :
    (g.modifyNode id (Node.assign name v)).feeding? id' name' = g.feeding? id' name' := by
  have hposition := inputPosition?_of_frames (g.frames_assign id name v) id' name'
  have hincoming : (g.modifyNode id (Node.assign name v)).incoming? id' = g.incoming? id' := by
    funext j
    rw [incoming?, heldAt?_assign]
    rfl
  rw [feeding?, hposition, hincoming, feeding?]

/-- A value given to a widget stands under the name of the widget, and nothing else changes. -/
theorem content_assign {id : NodeId} {name : String} {n : Node γ} (hn : g.at? id = some n)
    (hname : ∃ w ∈ n.widgets, w.name = name) (hv : Reference.ofJson? v = none) (id' : NodeId)
    (name' : String) : (g.modifyNode id (Node.assign name v)).content id' name' =
      if id' = id ∧ name' = name then (g.content id' name').take v else g.content id' name' := by
  obtain ⟨i, hi⟩ : ∃ i, Widget.position? n.widgets name = some i := by
    rcases hname with ⟨w, hw, rfl⟩
    apply Option.isSome_iff_exists.1
    rw [Widget.position?, List.findIdx?_isSome, List.any_eq_true]
    exact ⟨w, hw, by simp⟩
  have hfed : ((g.modifyNode id (Node.assign name v)).content id' name').fed =
      (g.content id' name').fed := congrArg (Option.map Link.reference) (feeding?_assign ..)
  have hshown : ((g.modifyNode id (Node.assign name v)).content id' name').shown =
      if id' = id ∧ name' = name then some v else (g.content id' name').shown := by
    simp only [content, at?_assign]
    by_cases hid : id' = id
    · subst hid
      have hwidgets : (n.assign name v).widgets = n.widgets.modify i (·.withValue v) := by
        simp only [Node.assign, hi]
      simp only [hn, if_true, Option.map_some, Option.bind_some, hwidgets, true_and]
      exact Widget.find?_modify hi v name'
    · simp [hid]
  split
  · rename_i hcell
    rw [if_pos hcell] at hshown
    rw [Content.take_value _ hv]
    exact Content.ext hfed hshown
  · rename_i hcell
    rw [if_neg hcell] at hshown
    exact Content.ext hfed hshown

end Assign

/-! ## Putting in a link -/

section Enlink

variable {l : Link} {o t : NodeId} {i j : Nat}

/-- A link more changes nothing about nodes but their slots' links. -/
theorem unlinked_enlink (l : Link) (o t : NodeId) (i j : Nat) (g : Graph γ) :
    (g.enlink l o i t j).nodes.map Node.unlinked = g.nodes.map Node.unlinked := by
  have hlisted := map_modifyNode (Node.unlinked_modifyOutput i fun ks => ks ++ [l.id.val])
    (g.putLink l) o
  rw [enlink, hold, map_modifyNode (Node.unlinked_modifyInput j _), relist, hlisted]
  rfl

/-- Nodes that differ in their links only have the same frames. -/
theorem frames_of_unlinked {g' : Graph γ}
    (h : g'.nodes.map Node.unlinked = g.nodes.map Node.unlinked) :
    g'.nodes.map Node.frame = g.nodes.map Node.frame := by
  have hbare := congrArg (List.map Node.bare) h
  rwa [List.map_map, List.map_map] at hbare

/-- A link that is put into all records feeds the slot that it enters, and no other slot is fed
otherwise. -/
theorem feeding?_of_spares {g' : Graph γ} (hg : g.Booked)
    (hspares : Spares (fun id j' => id = t ∧ j' = j) g g')
    (hunlinked : g'.nodes.map Node.unlinked = g.nodes.map Node.unlinked) (hl : l ∈ g'.links)
    (henters : l.Enters t j) {name : String} (hname : (g.at? t).bind (·.inputPosition? name) = some j)
    (id' : NodeId) (name' : String) : g'.feeding? id' name' =
      if id' = t ∧ name' = name then some l else g.feeding? id' name' := by
  have hposition := inputPosition?_of_frames (frames_of_unlinked hunlinked) id' name'
  rw [feeding?, hposition]
  split
  · rename_i hcell
    rcases hcell with ⟨rfl, rfl⟩
    rw [hname, Option.bind_some, incoming?, hspares.booked.held_of_enters hl henters]
    exact hspares.booked.link?_eq_some_iff.2 ⟨hl, rfl⟩
  · rename_i hcell
    rw [feeding?]
    cases hj : (g.at? id').bind (·.inputPosition? name') with
    | none => rfl
    | some j' =>
      have hother : ¬ (id' = t ∧ j' = j) := by
        rintro ⟨rfl, rfl⟩
        refine hcell ⟨rfl, ?_⟩
        rcases Option.bind_eq_some_iff.1 hname with ⟨n, hn, hfirst⟩
        rcases Option.bind_eq_some_iff.1 hj with ⟨n', hn', hsecond⟩
        rw [hn, Option.some.injEq] at hn'
        subst hn'
        exact Node.inputPosition?_injective hsecond hfirst
      rw [Option.bind_some, Option.bind_some, hspares.incoming? hg hother]

/-- What widgets show does not depend on links. -/
theorem shown_of_unlinked {g' : Graph γ}
    (h : g'.nodes.map Node.unlinked = g.nodes.map Node.unlinked) (id : NodeId) (name : String) :
    (g'.content id name).shown = (g.content id name).shown := by
  have hat := congrArg (fun n? => (n?.bind fun n => Widget.find? n.widgets name).map (·.value))
    (at?_map_congr (F := Node.unlinked) (fun _ => rfl) h id)
  simpa [content, Option.bind_map, Function.comp_def, Node.unlinked] using hat

/-- A link that is put into all records stands under the name of the slot that it enters, and nothing
else changes. -/
theorem content_of_spares {g' : Graph γ} (hg : g.Booked)
    (hspares : Spares (fun id j' => id = t ∧ j' = j) g g')
    (hunlinked : g'.nodes.map Node.unlinked = g.nodes.map Node.unlinked) (hl : l ∈ g'.links)
    (hleaves : l.Leaves o i) (henters : l.Enters t j) {name : String}
    (hname : (g.at? t).bind (·.inputPosition? name) = some j)
    (id' : NodeId) (name' : String) : g'.content id' name' =
      if id' = t ∧ name' = name then (g.content id' name').take (Reference.toJson ⟨o.key, i⟩)
      else g.content id' name' := by
  have hfeeding := feeding?_of_spares hg hspares hunlinked hl henters hname id' name'
  have hshown := shown_of_unlinked hunlinked id' name'
  split
  · rename_i hcell
    rw [if_pos hcell] at hfeeding
    refine Content.ext ?_ hshown
    rw [fed_content, hfeeding, Option.map_some, hleaves.reference, Content.take_reference]
  · rename_i hcell
    rw [if_neg hcell] at hfeeding
    exact Content.ext (congrArg (Option.map Link.reference) hfeeding) hshown

end Enlink

end Graph

end NodeFlow
