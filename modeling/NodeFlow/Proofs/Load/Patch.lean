import NodeFlow.Proofs.Load.Dump
import NodeFlow.Proofs.Load.Names
import NodeFlow.Proofs.Load.Sweep

/-!
# Outdated widget values

Nodes differ by their ids, so replacing the outdated values of a workflow place by place treats each
node once.  A value that has been replaced is in use, unless it is the name of a sampler that had
two leads.

Main results:

- Definition `Node.patchDeep` and theorem `Workflow.patch_eq`: all nodes at once.
- Theorem `Widget.patch_patch`: a widget whose value is in use.
-/

namespace NodeFlow

/-! ## One widget -/

/-- The widget with the name of a sampler in use. -/
def Widget.patchSampler (type : String) (w : Widget) : Widget :=
  match w.value with
  | .str s =>
    if samplerTypes.contains type && w.name == "sampler_name" then
      w.withValue (.str (currentSampler s))
    else w
  | _ => w

/-- The widget with the value of a control in use. -/
def Widget.patchControl (type : String) (w : Widget) : Widget :=
  if controlTypes.contains type && w.name == ControlMode.widgetName then
    w.withValue (currentControl w.value) else w

private theorem Widget.patch_eq (type : String) (w : Widget) :
    w.patch type false = (w.patchSampler type).patchControl type := by
  have hreset : ∀ u : Widget, (if (false && u.kind == "combo") = true then
      u.withValue (validChoice u) else u) = u := fun _ => rfl
  exact hreset _

private theorem Widget.bare_patchSampler (type : String) (w : Widget) :
    (w.patchSampler type).bare = w.bare := by
  unfold patchSampler
  split
  · split <;> rfl
  · rfl

private theorem Widget.bare_patchControl (type : String) (w : Widget) :
    (w.patchControl type).bare = w.bare := by
  unfold patchControl
  split <;> rfl

private theorem Widget.bare_patch (type : String) (reset : Bool) (w : Widget) :
    (w.patch type reset).bare = w.bare := by
  have hreset : ∀ u : Widget, (if reset && u.kind == "combo" then
      u.withValue (validChoice u) else u).bare = u.bare := by
    intro u
    split <;> rfl
  exact (hreset _).trans ((bare_patchControl type _).trans (bare_patchSampler type w))

/-- Replacing names changes nothing but values of widgets. -/
theorem Widget.map_bare_patch (type : String) (reset : Bool) (ws : List Widget) :
    (ws.map (Widget.patch type reset)).map bare = ws.map bare := by
  rw [List.map_map]
  exact List.map_congr_left fun w _ => bare_patch type reset w

/-! ## All nodes at once -/

namespace Graph

variable {γ : Type}

/-- Nodes that are changed one after the other are all changed. -/
theorem foldl_modifyNode {g : Graph γ} {f : Node γ → Node γ} (hf : ∀ n, (f n).id = n.id)
    {front ns : List (Node γ)} (hnodes : g.nodes = front ++ ns)
    (hids : (g.nodes.map (·.id)).Nodup) :
    ns.foldl (fun h n => h.modifyNode n.id f) g = { g with nodes := front ++ ns.map f } := by
  induction ns generalizing g front with
  | nil => rw [List.foldl_nil, List.map_nil, ← hnodes]
  | cons n ns ih =>
    have hstep := modifyNode_of_split hnodes hids f
    have hsame : (front ++ f n :: ns).map (·.id) = g.nodes.map (·.id) := by simp [hnodes, hf]
    rw [List.foldl_cons, hstep, ih (List.append_cons front (f n) ns) (hsame ▸ hids)]
    simp

end Graph

/-- The node with the widget values in use, and the nodes inside it with theirs. -/
def Node.patchDeep (reset : Bool) (n : Node Group) : Node Group :=
  (n.patch reset).onGroup (·.mapNodes (Node.patch reset))

/-- The place of a node and those of the nodes inside it. -/
def Node.places (n : Node Group) : List Place :=
  .outer n.id :: match n.group? with
    | none => []
    | some x => x.graph.nodes.map fun m => .inner n.id m.id

namespace Workflow

variable {g : Workflow} {reset : Bool}

private theorem places_sites (g : Workflow) :
    (sites g).map (·.place) = g.nodes.flatMap Node.places := by
  rw [sites, List.map_flatMap]
  congr 1
  funext n
  rw [List.map_cons, Node.places]
  cases n.group? with
  | none => rfl
  | some x =>
    rw [List.map_map]
    rfl

private theorem patchAt_outer (g : Workflow) (id : NodeId) :
    patchAt reset g (.outer id) = g.modifyNode id (Node.patch reset) := rfl

private theorem patchAt_inner (g : Workflow) (host id : NodeId) : patchAt reset g (.inner host id) =
    g.modifyNode host (Node.onGroup (Graph.modifyNode id (Node.patch reset))) := rfl

/-- The nodes inside a node are patched one after the other. -/
theorem foldl_patchAt_inner (reset : Bool) {front back : List (Node Group)} {n : Node Group}
    (hnodes : g.nodes = front ++ n :: back) (hids : (g.nodes.map (·.id)).Nodup)
    (ms : List (Node Empty)) :
    (ms.map fun m => Place.inner n.id m.id).foldl (patchAt reset) g =
      { g with nodes := front ++ (n.onGroup fun h =>
        ms.foldl (fun h m => h.modifyNode m.id (Node.patch reset)) h) :: back } := by
  induction ms generalizing g n with
  | nil =>
    have hself : (n.onGroup fun h => h) = n := by
      cases hgroup : n.group? with
      | none => exact Node.onGroup_of_none _ hgroup
      | some x => rw [Node.onGroup_of_group? _ hgroup, ← Node.kind_eq_of_group? hgroup]
    simp only [List.map_nil, List.foldl_nil, hself]
    rw [← hnodes]
  | cons m ms ih =>
    have hid := Node.id_onGroup (Graph.modifyNode m.id (Node.patch reset)) n
    have hstep : patchAt reset g (.inner n.id m.id) = { g with
        nodes := front ++ n.onGroup (Graph.modifyNode m.id (Node.patch reset)) :: back } := by
      rw [patchAt_inner, Graph.modifyNode_of_split hnodes hids]
    have hsame : (front ++ n.onGroup (Graph.modifyNode m.id (Node.patch reset)) :: back).map
        (·.id) = g.nodes.map (·.id) := by simp [hnodes, hid]
    have hrest := ih (n := n.onGroup (Graph.modifyNode m.id (Node.patch reset)))
      (g := { g with
        nodes := front ++ n.onGroup (Graph.modifyNode m.id (Node.patch reset)) :: back }) rfl
      (hsame ▸ hids)
    rw [hid] at hrest
    rw [List.map_cons, List.foldl_cons, hstep, hrest]
    simp only [Node.onGroup_onGroup, List.foldl_cons]

private theorem foldl_patchAt_places {front back : List (Node Group)} {n : Node Group}
    (hnodes : g.nodes = front ++ n :: back) (hids : (g.nodes.map (·.id)).Nodup)
    (hinner : ∀ x, n.group? = some x → (x.graph.nodes.map (·.id)).Nodup) :
    n.places.foldl (patchAt reset) g = { g with nodes := front ++ n.patchDeep reset :: back } := by
  have houter : patchAt reset g (.outer n.id) =
      { g with nodes := front ++ n.patch reset :: back } := by
    rw [patchAt_outer, Graph.modifyNode_of_split hnodes hids]
  have hgroup? : (n.patch reset).group? = n.group? := rfl
  rw [Node.places, List.foldl_cons, houter, Node.patchDeep]
  cases hgroup : n.group? with
  | none =>
    rw [Node.onGroup_of_none _ (hgroup?.trans hgroup)]
    rfl
  | some x =>
    have hsame : (front ++ n.patch reset :: back).map (·.id) = g.nodes.map (·.id) := by
      simp [hnodes, Node.patch]
    let h : Workflow := { g with nodes := front ++ n.patch reset :: back }
    have hfront : h.nodes = front ++ n.patch reset :: back := rfl
    have hfold := foldl_patchAt_inner reset hfront (hsame ▸ hids) x.graph.nodes
    have hpatch : ∀ m : Node Empty, (m.patch reset).id = m.id := fun _ => rfl
    have hgraph := Graph.foldl_modifyNode hpatch (List.nil_append x.graph.nodes).symm
      (hinner x hgroup)
    refine hfold.trans ?_
    rw [Node.onGroup_of_group? _ (hgroup?.trans hgroup), hgraph,
      Node.onGroup_of_group? _ (hgroup?.trans hgroup)]
    rfl

/-- Where ids are distinct, all nodes get the widget values in use. -/
theorem patch_eq (hdistinct : Distinct g) (reset : Bool) :
    patch reset g = g.mapNodes (Node.patchDeep reset) := by
  have hfold : ∀ (ns front : List (Node Group)) (h : Workflow), h.nodes = front ++ ns →
      (h.nodes.map (·.id)).Nodup →
      (∀ n ∈ ns, ∀ x, n.group? = some x → (x.graph.nodes.map (·.id)).Nodup) →
      ns.foldl (fun h n => n.places.foldl (patchAt reset) h) h =
        { h with nodes := front ++ ns.map (Node.patchDeep reset) } := by
    intro ns
    induction ns with
    | nil =>
      intro front h hnodes _ _
      rw [List.foldl_nil, List.map_nil, ← hnodes]
    | cons n ns ih =>
      intro front h hnodes hids hinner
      have hsame : (front ++ n.patchDeep reset :: ns).map (·.id) = h.nodes.map (·.id) := by
        simp [hnodes, Node.patchDeep, Node.id_onGroup, Node.patch]
      rw [List.foldl_cons, foldl_patchAt_places hnodes hids (hinner n List.mem_cons_self),
        ih (front ++ [n.patchDeep reset]) _ (by simp) (hsame ▸ hids)
          fun m hm => hinner m (List.mem_cons_of_mem _ hm)]
      simp
  rw [patch, places_sites, List.foldl_flatMap]
  exact hfold g.nodes [] g rfl hdistinct.outer hdistinct.inner

end Workflow

/-! ## Values in use -/

/-- The widget holds the name of a sampler without a lead, or something else. -/
def Widget.IsCurrent (type : String) (w : Widget) : Prop :=
  samplerTypes.contains type = true → w.name = "sampler_name" → ∀ s, w.value = .str s →
    "sample_".toList.isPrefixOf s.toList = false

private theorem currentControl_currentControl (v : Json) :
    currentControl (currentControl v) = currentControl v := by
  cases v with
  | bool b => cases b <;> rfl
  | _ => rfl

private theorem Widget.withValue_value (w : Widget) : w.withValue w.value = w := rfl

private theorem Widget.patchSampler_of_isCurrent {type : String} {w : Widget}
    (h : w.IsCurrent type) : w.patchSampler type = w := by
  unfold patchSampler
  split
  · rename_i s hvalue
    split
    · rename_i hboth
      rw [Bool.and_eq_true, beq_iff_eq] at hboth
      have hlead := h hboth.1 hboth.2 s hvalue
      rw [currentSampler, if_neg (by rw [hlead]; exact Bool.false_ne_true), ← hvalue,
        withValue_value]
    · rfl
  · rfl

private theorem Widget.patchControl_patchControl (type : String) (w : Widget) :
    (w.patchControl type).patchControl type = w.patchControl type := by
  unfold patchControl
  split
  · rename_i hboth
    rw [name_withValue, if_pos hboth, value_withValue, currentControl_currentControl]
    rfl
  · rfl

/-- A widget whose value has been replaced is left alone if it is current. -/
theorem Widget.patch_patch {type : String} {w : Widget} (h : (w.patch type false).IsCurrent type) :
    (w.patch type false).patch type false = w.patch type false := by
  have hsame := patchSampler_of_isCurrent h
  rw [patch_eq type (w.patch type false), hsame, patch_eq, patchControl_patchControl]

end NodeFlow
