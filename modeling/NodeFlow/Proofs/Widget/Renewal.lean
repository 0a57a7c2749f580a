import NodeFlow.Proofs.Load.Sweep
import NodeFlow.Proofs.Widget.Choices

/-!
# New choices for nodes

A refresh goes through the nodes of a graph.  A primitive first looks for the widgets that it is linked
to and takes the choices of the first one whose class is defined; then every widget of a node is offered
what the definition of its class lists.

All this changes values and options of widgets only, and what a node is offered depends on neither.
So each node can be followed alone: the graph afterwards is the graph with every node renewed.

Main results:

- Definitions `Graph.ownChoices?`, `Graph.selfRenewed` and `Graph.renewed`: what a primitive offers
  itself, and what becomes of a node.
- Theorem `Graph.ownChoices?_congr`: what a node is offered depends on the graph without values and
  options.
- Theorem `Graph.renewNode_meets`: one node is renewed.
- Theorem `Graph.renewNodes_meets`: all nodes are renewed, and what they lose is counted.
- Theorems `Graph.renewed_renewed` and `Graph.isSettled_renewed`: where the choices are texts, a node
  that has been renewed stays as it is.
-/

namespace NodeFlow

/-- A node without the values and the options of its widgets. -/
def Node.casing {γ : Type} (n : Node γ) : Node γ := { n with widgets := n.widgets.map Widget.casing }

/-- A primitive whose value widget is a choice widget: a refresh looks for its targets. -/
def Node.asksTargets {γ : Type} (n : Node γ) : Bool :=
  n.kind.isPrimitive && n.widgets.head?.any (·.kind == "combo")

private theorem Node.asksTargets_of_value {γ : Type} {n : Node γ} {pending : Option (List Json)}
    {w : Widget}
    {ws : List Widget} (hkind : n.kind = .primitive pending) (hwidgets : n.widgets = w :: ws) :
    n.asksTargets = (w.kind == "combo") := by
  rw [asksTargets, hkind, hwidgets]
  rfl

/-- Only primitives with a value widget look for targets. -/
theorem Node.asksTargets_of_no_value {γ : Type} {n : Node γ}
    (hnone : ∀ pending w ws, n.kind = .primitive pending → n.widgets = w :: ws → False) :
    n.asksTargets = false := by
  cases hkind : n.kind with
  | primitive pending =>
    cases hwidgets : n.widgets with
    | nil => simp [asksTargets, hwidgets]
    | cons w ws => exact absurd hwidgets (hnone pending w ws hkind)
  | _ =>
    rw [asksTargets, hkind]
    rfl

namespace Graph

variable {γ : Type} {g h : Graph γ} {defs : Table Definition}

/-! ## What becomes of a node -/

section Renewed

variable (g : Graph γ) (defs : Table Definition) (n : Node γ)

/-- The choices that a primitive offers its own value widget: those that the first of its targets whose
class is defined takes. -/
def ownChoices? : Option (List Json) :=
  if n.asksTargets then
    (g.targets n).toOption.bind fun places =>
      (g.firstDefined? defs places).bind fun e => e.1.choices? e.2
  else none

/-- A node after it has offered itself choices; primitives alone do. -/
def selfRenewed : Node γ :=
  { n with widgets := n.widgets.modify 0 (·.afterOffer false (g.ownChoices? defs n)) }

/-- A node after a refresh: after its own offer its widgets take what its class is offered. -/
def renewed : Node γ :=
  { n with widgets := (g.selfRenewed defs n).widgets.map (Widget.renewed (defs.get? n.type)) }

/-- How many widgets of a node lose their value to the offers of its class. -/
def resets : Nat := (g.selfRenewed defs n).widgets.countP (Widget.isReset (defs.get? n.type))

/-- The targets of a node can be looked up, if a refresh looks for them. -/
def FindsTargets : Prop := n.asksTargets = true → ∃ places, g.targets n = .ok places

/-- Nothing about a node is reset. -/
structure IsSettled : Prop where
  own : ∀ w, n.widgets.head? = some w → w.resetTo? false (g.ownChoices? defs n) = none
  offered : ∀ w ∈ (g.selfRenewed defs n).widgets, w.isReset (defs.get? n.type) = false

/-- Neither a look for targets fails nor the callback of a widget that is reset. -/
structure CanRenew : Prop where
  finds : g.FindsTargets n
  own : ∀ w, n.widgets.head? = some w → w.resetTo? false (g.ownChoices? defs n) ≠ none →
    w.told = .ok ()
  offered : ∀ w ∈ (g.selfRenewed defs n).widgets, w.isReset (defs.get? n.type) = true →
    w.told = .ok ()

end Renewed

private theorem ownChoices?_of_idle {n : Node γ} (hn : n.asksTargets = false) :
    g.ownChoices? defs n = none := by
  rw [ownChoices?, hn]
  rfl

private theorem findsTargets_of_idle {n : Node γ} (hn : n.asksTargets = false) : g.FindsTargets n :=
  fun h => absurd (hn.symm.trans h) Bool.false_ne_true

/-- A node that offers itself no choices stays as it is. -/
theorem selfRenewed_of_none {n : Node γ} (hn : g.ownChoices? defs n = none) :
    g.selfRenewed defs n = n := by
  have hself : n.widgets.modify 0 (·.afterOffer false none) = n.widgets := List.modify_id 0 _
  rw [selfRenewed, hn, hself]

private theorem renewed_of_none {n : Node γ} (hn : defs.get? n.type = none) :
    g.renewed defs n = g.selfRenewed defs n := by
  have hself : (g.selfRenewed defs n).widgets.map (Widget.renewed none) =
      (g.selfRenewed defs n).widgets := List.map_id' _
  rw [renewed, hn, hself]
  rfl

private theorem resets_of_none {n : Node γ} (hn : defs.get? n.type = none) :
    g.resets defs n = 0 := by
  rw [resets, hn]
  exact congrFun List.countP_false _

/-- A node about which nothing is reset can be renewed if its targets can be looked up. -/
theorem IsSettled.canRenew {n : Node γ} (h : g.IsSettled defs n) (hfinds : g.FindsTargets n) :
    g.CanRenew defs n where
  finds := hfinds
  own w hw hreset := absurd (h.own w hw) hreset
  offered w hw hreset := absurd ((h.offered w hw).symm.trans hreset) Bool.false_ne_true

/-- Where nothing about a node is reset, no reset is counted. -/
theorem IsSettled.resets_eq_zero {n : Node γ} (h : g.IsSettled defs n) : g.resets defs n = 0 :=
  List.countP_eq_zero.2 fun w hw => by simp [h.offered w hw]

/-! ## What it depends on -/

private theorem isNamed_casing : IsNamed (Node.casing (γ := γ)) where
  id _ := rfl
  order _ := rfl
  inputs _ := rfl
  outputs _ := rfl
  isCutOff _ := rfl
  names n := by
    rw [Node.casing, List.map_map]
    rfl

private theorem firstDefined?_casing (g : Graph γ) (places : List (NodeId × Nat)) :
    (g.mapNodes Node.casing).firstDefined? defs places = g.firstDefined? defs places := by
  have hfind : ∀ h : Graph γ, h.firstDefined? defs places = places.findSome? fun c =>
      (h.at? c.1).bind fun n => n.widgets[c.2]?.bind fun w =>
        (defs.get? n.type).map fun d => (d, w.name) := by
    intro h
    induction places with
    | nil => rfl
    | cons c places ih =>
      rw [List.findSome?_cons, ← ih, firstDefined?, List.filterMap_cons, widgetAt?]
      cases h.at? c.1 with
      | none => rfl
      | some n => cases hw : n.widgets[c.2]? <;> simp [hw, firstDefined?, List.findSome?_cons]
  rw [hfind, hfind]
  congr 1
  funext c
  rw [at?_mapNodes isNamed_casing.toIsNeutral]
  cases g.at? c.1 with
  | none => rfl
  | some n => cases hw : n.widgets[c.2]? <;> simp [Node.casing, Widget.casing, hw]

private theorem asksTargets_casing (n : Node γ) : n.casing.asksTargets = n.asksTargets := by
  have hcombo : n.casing.widgets.head?.any (·.kind == "combo") =
      n.widgets.head?.any (·.kind == "combo") := by
    rw [Node.casing, List.head?_map, Option.any_map]
    rfl
  rw [Node.asksTargets, Node.asksTargets, hcombo]
  rfl

/-- What a primitive offers itself does not depend on values and options. -/
theorem ownChoices?_casing (g : Graph γ) (n : Node γ) :
    (g.mapNodes Node.casing).ownChoices? defs n.casing = g.ownChoices? defs n := by
  rw [ownChoices?, ownChoices?, asksTargets_casing, targets_mapNodes isNamed_casing]
  simp only [firstDefined?_casing]

section Congr

variable (hshape : h.mapNodes Node.casing = g.mapNodes Node.casing)

include hshape

/-- Whether targets can be looked up does not depend on values and options. -/
theorem FindsTargets.congr {m n : Node γ} (hm : m.casing = n.casing) (hn : g.FindsTargets n) :
    h.FindsTargets m := by
  have htargets : h.targets m = g.targets n := by
    rw [← targets_mapNodes isNamed_casing, hshape, hm, targets_mapNodes isNamed_casing]
  rw [FindsTargets, ← asksTargets_casing, hm, asksTargets_casing, htargets]
  exact hn

/-- The choices that a node offers itself do not depend on its values and options. -/
theorem ownChoices?_congr {m n : Node γ} (hm : m.casing = n.casing) :
    h.ownChoices? defs m = g.ownChoices? defs n := by
  rw [← ownChoices?_casing, hshape, hm, ownChoices?_casing]

private theorem selfRenewed_congr (n : Node γ) : h.selfRenewed defs n = g.selfRenewed defs n := by
  rw [selfRenewed, selfRenewed, ownChoices?_congr hshape rfl]

private theorem renewed_congr (n : Node γ) : h.renewed defs n = g.renewed defs n := by
  rw [renewed, renewed, selfRenewed_congr hshape]

private theorem resets_congr (n : Node γ) : h.resets defs n = g.resets defs n := by
  rw [resets, resets, selfRenewed_congr hshape]

private theorem isSettled_congr (n : Node γ) : h.IsSettled defs n ↔ g.IsSettled defs n := by
  constructor
  · rintro ⟨hown, hoffered⟩
    rw [ownChoices?_congr hshape rfl] at hown
    rw [selfRenewed_congr hshape] at hoffered
    exact ⟨hown, hoffered⟩
  · rintro ⟨hown, hoffered⟩
    rw [← ownChoices?_congr hshape rfl] at hown
    rw [← selfRenewed_congr hshape] at hoffered
    exact ⟨hown, hoffered⟩

private theorem CanRenew.congr {n : Node γ} (hn : g.CanRenew defs n) : h.CanRenew defs n where
  finds := hn.finds.congr hshape rfl
  own := by
    rw [ownChoices?_congr hshape rfl]
    exact hn.own
  offered := by
    rw [selfRenewed_congr hshape]
    exact hn.offered

end Congr

private theorem casing_selfRenewed (g : Graph γ) (defs : Table Definition) (n : Node γ) :
    (g.selfRenewed defs n).casing = n.casing := by
  have hwidgets : ∀ ws : List Widget,
      (ws.modify 0 (·.afterOffer false (g.ownChoices? defs n))).map Widget.casing =
        ws.map Widget.casing := by
    intro ws
    cases ws <;> simp
  rw [Node.casing, Node.casing, selfRenewed, hwidgets]

/-- Where no callback fails, nothing does but a look for targets. -/
theorem canRenew_of_told {n : Node γ} (hfinds : g.FindsTargets n)
    (htold : ∀ w ∈ n.widgets, w.told = .ok ()) : g.CanRenew defs n where
  finds := hfinds
  own w hw _ := htold w (List.mem_of_mem_head? hw)
  offered w hw _ := by
    have hwidgets : (g.selfRenewed defs n).widgets.map Widget.casing = n.widgets.map Widget.casing :=
      congrArg (·.widgets) (casing_selfRenewed g defs n)
    have hmem : w.casing ∈ n.widgets.map Widget.casing := hwidgets ▸ List.mem_map_of_mem hw
    rcases List.mem_map.1 hmem with ⟨u, hu, hsame⟩
    rw [Widget.told_of_casing hsame.symm, htold u hu]

/-- Renewing nodes changes nothing that the order depends on. -/
theorem isNeutral_renewed (g : Graph γ) (defs : Table Definition) : IsNeutral (g.renewed defs) :=
  ⟨fun _ => rfl, fun _ => rfl, fun _ => rfl⟩

/-- Renewing a node changes nothing but values and options of its widgets. -/
theorem casing_renewed (g : Graph γ) (defs : Table Definition) (n : Node γ) :
    (g.renewed defs n).casing = n.casing := by
  rw [← casing_selfRenewed g defs n, Node.casing, Node.casing, renewed, List.map_map]
  have hwidgets : Widget.casing ∘ Widget.renewed (defs.get? n.type) = Widget.casing :=
    funext (Widget.casing_renewed _)
  rw [hwidgets]
  rfl

/-! ## One node -/

/-- The first widget is offered choices and, where its value is not among them, assigned another.  Where
it is not reset, nobody is told. -/
theorem offerFirst_meets {ws : List Widget} {w : Widget} (hw : ws[0]? = some w)
    (choices : List Json) (o : Outside) :
    (do modify fun b => (b.1.modify 0 (Widget.offer choices), b.2)
        match w.fallback? choices with
        | none => pure ⟨⟩
        | some v => Widget.assign 0 v : Act Bench PUnit).Meets
      (w.resetTo? false (some choices) ≠ none → w.told = .ok ())
      (fun _ b => b.1 = ws.modify 0 (·.afterOffer false (some choices)) ∧
        (w.resetTo? false (some choices) = none → b.2 = o)) (ws, o) := by
  refine .bind_modify ?_
  generalize hto : w.fallback? choices = to?
  have hto : w.resetTo? false (some choices) = to? := hto
  cases to? with
  | none => exact .pure ⟨Widget.modify_offer_of_not_reset hw hto, fun _ => rfl⟩
  | some v =>
    have hreset : w.resetTo? false (some choices) ≠ none := by simp [hto]
    exact (Widget.assign_offered_meets hw hto o).mono (fun hsafe => hsafe hreset)
      fun _ b hb => ⟨hb, fun hnone => absurd hnone hreset⟩

private theorem offerFirst_isStraight (w : Widget) (choices : List Json) :
    (do modify fun b => (b.1.modify 0 (Widget.offer choices), b.2)
        match w.fallback? choices with
        | none => pure ⟨⟩
        | some v => Widget.assign 0 v : Act Bench PUnit).IsStraight := by
  refine .bind (.modify _) fun _ => ?_
  split
  · exact .pure _
  · exact Widget.assign_isStraight _ _

section Split

variable {front back : List (Node γ)} {n : Node γ} (hsplit : g.nodes = front ++ n :: back)
  (hids : (g.nodes.map (·.id)).Nodup)

include hsplit hids

/-- An action on the widgets of a node replaces the node in its place. -/
theorem onWidgets_meets {α : Type} {act : Act Bench α} (hstraight : act.IsStraight) {P : Prop}
    {Q : α → Bench → Prop} {o : Outside} (hact : act.Meets P Q (n.widgets, o)) :
    (onWidgets n.id act).Meets P (fun a t => ∃ ws o', Q a (ws, o') ∧
      t = ({ g with nodes := front ++ { n with widgets := ws } :: back }, o')) (g, o) := by
  refine .focus (hstraight.exec_focus _ _ _) ?_
  simp only [at?_of_split hsplit hids, Option.map_some, Option.getD_some]
  refine hact.mono id ?_
  rintro a ⟨ws, o'⟩ hQ
  exact ⟨ws, o', hQ, by rw [modifyNode_of_split hsplit hids]⟩

/-- A primitive offers itself choices; where it is not reset, nobody is told. -/
theorem renewPrimitive_meets (o : Outside) :
    (renewPrimitive defs n.id).Meets
      (g.FindsTargets n ∧ ∀ w, n.widgets.head? = some w →
        w.resetTo? false (g.ownChoices? defs n) ≠ none → w.told = .ok ())
      (fun _ t => t.1 = { g with nodes := front ++ g.selfRenewed defs n :: back } ∧
        g.FindsTargets n ∧
        ((∀ w, n.widgets.head? = some w → w.resetTo? false (g.ownChoices? defs n) = none) →
          t.2 = o)) (g, o) := by
  have hself : g.ownChoices? defs n = none →
      g = { g with nodes := front ++ g.selfRenewed defs n :: back } := by
    intro hnone
    rw [selfRenewed_of_none hnone, ← hsplit]
  refine .bind_get ?_
  simp only [at?_of_split hsplit hids]
  split
  · rename_i pending w ws hkind hwidgets
    have hasks := Node.asksTargets_of_value hkind hwidgets
    split
    · rename_i hcombo
      refine .bind_lift (fun hsafe => hsafe.1 (hasks.trans hcombo)) fun places hplaces => ?_
      have hfinds : g.FindsTargets n := fun _ => ⟨places, hplaces⟩
      -- what the action looks up is what the primitive is said to offer itself
      generalize hchoices : Option.bind (g.firstDefined? defs places) _ = choices?
      have hown : g.ownChoices? defs n = choices? := by
        rw [ownChoices?, hasks, hcombo, hplaces, ← hchoices]
        rfl
      cases choices? with
      | none => exact .pure ⟨hself hown, hfinds, fun _ => rfl⟩
      | some choices =>
        have hw : n.widgets[0]? = some w := by rw [hwidgets]; rfl
        have hhead : n.widgets.head? = some w := by rw [hwidgets]; rfl
        refine (onWidgets_meets hsplit hids (offerFirst_isStraight w choices)
          (offerFirst_meets hw choices o)).mono ?_ ?_
        · exact fun hsafe => hown ▸ hsafe.2 w hhead
        · rintro _ t ⟨ws', o', ⟨rfl, hquiet⟩, rfl⟩
          refine ⟨?_, hfinds, fun hnone => hquiet (hown ▸ hnone w hhead)⟩
          rw [selfRenewed, hown]
    · rename_i hcombo
      have hidle := hasks.trans (Bool.not_eq_true _ ▸ hcombo)
      exact .pure ⟨hself (ownChoices?_of_idle hidle), findsTargets_of_idle hidle, fun _ => rfl⟩
  · rename_i hother
    have hidle := Node.asksTargets_of_no_value hother
    exact .pure ⟨hself (ownChoices?_of_idle hidle), findsTargets_of_idle hidle, fun _ => rfl⟩

/-- A node is renewed, and the resets by its class are counted; where nothing about it is reset, nobody
is told. -/
theorem renewNode_meets (o : Outside) :
    (renewNode defs n.id).Meets (g.CanRenew defs n)
      (fun count t => t.1 = { g with nodes := front ++ g.renewed defs n :: back } ∧
        count = g.resets defs n ∧ g.FindsTargets n ∧ (g.IsSettled defs n → t.2 = o)) (g, o) := by
  refine ((renewPrimitive_meets hsplit hids o).mono (fun hsafe => ⟨hsafe.finds, hsafe.own⟩)
    fun _ t ht => ht).bind ?_
  -- after its own offer the node stands in its place in a graph with the same ids
  rintro _ ⟨h, o₁⟩ ⟨rfl, hfinds, hquiet⟩
  generalize hm : g.selfRenewed defs n = m
  have hid : m.id = n.id := hm ▸ rfl
  have htype : m.type = n.type := hm ▸ rfl
  have hids' : (({ g with nodes := front ++ m :: back } : Graph γ).nodes.map (·.id)).Nodup := by
    rw [hsplit] at hids
    simpa [hid] using hids
  have hsplit' : ({ g with nodes := front ++ m :: back } : Graph γ).nodes = front ++ m :: back := rfl
  refine .bind_get ?_
  simp only [← hid, at?_of_split hsplit' hids', htype]
  cases hd : defs.get? n.type with
  | none =>
    refine .pure ⟨?_, (resets_of_none hd).symm, hfinds, fun hsettled => hquiet hsettled.own⟩
    rw [renewed_of_none hd, hm]
  | some d =>
    have hwidgets : ∀ {P : Widget → Prop}, (∀ w ∈ (g.selfRenewed defs n).widgets, P w) →
        ∀ w ∈ m.widgets, P w := fun hP => hm ▸ hP
    refine (((onWidgets_meets hsplit' hids' (.collect fun i => Widget.renew_isStraight d i)
      (Widget.renewAll_meets d m.widgets o₁)).mono ?_ fun _ t ht => ht).bind ?_)
    · exact fun hsafe => hwidgets (hd ▸ hsafe.offered)
    · rintro counts _ ⟨ws, o', ⟨rfl, hsum, hsilent⟩, rfl⟩
      refine .pure ⟨?_, ?_, hfinds, fun hsettled => ?_⟩
      · rw [renewed, hm, hd, ← hm]
        rfl
      · rw [← List.sum_eq_foldl, hsum, resets, hm, hd]
      · exact (hsilent (hwidgets (hd ▸ hsettled.offered))).trans (hquiet hsettled.own)

end Split

/-! ## All nodes -/

/-- The graph when so many of its nodes have been renewed. -/
def renewedUpTo (g : Graph γ) (defs : Table Definition) (k : Nat) : Graph γ :=
  { g with nodes := (g.nodes.take k).map (g.renewed defs) ++ g.nodes.drop k }

/-- The shape of the graph stays. -/
theorem casing_renewedUpTo (g : Graph γ) (defs : Table Definition) (k : Nat) :
    (g.renewedUpTo defs k).mapNodes Node.casing = g.mapNodes Node.casing := by
  have hnodes : ((g.nodes.take k).map (g.renewed defs) ++ g.nodes.drop k).map Node.casing =
      g.nodes.map Node.casing := by
    have hcasing : Node.casing ∘ g.renewed defs = Node.casing := funext (casing_renewed g defs)
    rw [List.map_append, List.map_map, hcasing, ← List.map_append, List.take_append_drop]
  rw [mapNodes, renewedUpTo, mapNodes, hnodes]

private theorem renewedUpTo_length (g : Graph γ) (defs : Table Definition) :
    g.renewedUpTo defs g.nodes.length = g.mapNodes (g.renewed defs) := by
  rw [renewedUpTo, List.take_length, List.drop_length, List.append_nil]
  rfl

private theorem renewedUpTo_succ (g : Graph γ) (defs : Table Definition) {k : Nat}
    (hk : k < g.nodes.length) : g.renewedUpTo defs (k + 1) = { g.renewedUpTo defs k with
      nodes := (g.nodes.take k).map (g.renewed defs) ++
        g.renewed defs g.nodes[k] :: g.nodes.drop (k + 1) } := by
  rw [renewedUpTo, ← List.take_concat_get' g.nodes k hk, List.map_append, List.append_assoc]
  rfl

/-- Renewing all nodes changes nothing but values and options of widgets. -/
theorem casing_mapNodes_renewed (g : Graph γ) (defs : Table Definition) :
    (g.mapNodes (g.renewed defs)).mapNodes Node.casing = g.mapNodes Node.casing := by
  rw [← renewedUpTo_length, casing_renewedUpTo]

/-- The nodes are renewed one after the other, and the resets by their classes are counted; where
nothing is reset, nobody is told. -/
theorem renewNodes_meets (hids : (g.nodes.map (·.id)).Nodup) (o : Outside) :
    (Act.collect (g.nodes.map (·.id)) (renewNode defs)).Meets (∀ n ∈ g.nodes, g.CanRenew defs n)
      (fun counts t => t.1 = g.mapNodes (g.renewed defs) ∧
        counts.sum = (g.nodes.map (g.resets defs)).sum ∧ (∀ n ∈ g.nodes, g.FindsTargets n) ∧
        ((∀ n ∈ g.nodes, g.IsSettled defs n) → t.2 = o)) (g, o) := by
  -- the shape of the graph stays all the time, so each node is offered what it would be at the start
  refine (Act.Meets.collect (P := fun k counts t => t.1 = g.renewedUpTo defs k ∧
    counts.sum = ((g.nodes.take k).map (g.resets defs)).sum ∧
    (∀ n ∈ g.nodes.take k, g.FindsTargets n) ∧
    ((∀ n ∈ g.nodes, g.IsSettled defs n) → t.2 = o)) ⟨rfl, by simp, by simp, fun _ => rfl⟩ ?_).mono
      id ?_
  · rintro k hk counts ⟨h, o'⟩ ⟨rfl, hcounts, hfound, hquiet⟩
    rw [List.getElem_map]
    rw [List.length_map] at hk
    have hmem : g.nodes[k] ∈ g.nodes := List.getElem_mem hk
    have hshape := casing_renewedUpTo g defs k
    have hids' : ((g.renewedUpTo defs k).nodes.map (·.id)).Nodup := by
      rwa [← ids_mapNodes isNamed_casing.toIsNeutral, hshape,
        ids_mapNodes isNamed_casing.toIsNeutral]
    have hsplit : (g.renewedUpTo defs k).nodes =
        (g.nodes.take k).map (g.renewed defs) ++ g.nodes[k] :: g.nodes.drop (k + 1) := by
      rw [← List.drop_eq_getElem_cons hk]
      rfl
    refine (renewNode_meets hsplit hids' o').mono (fun hsafe => (hsafe _ hmem).congr hshape) ?_
    rintro count ⟨h, o''⟩ ⟨rfl, rfl, hfinds, hsilent⟩
    rw [renewedUpTo_succ g defs hk, renewed_congr hshape, resets_congr hshape,
      ← List.take_concat_get' g.nodes k hk]
    refine ⟨rfl, ?_, ?_, fun hsettled => ?_⟩
    · rw [List.sum_append, hcounts, List.map_append, List.sum_append]
      rfl
    · exact List.forall_mem_append.2
        ⟨hfound, List.forall_mem_singleton.2 (hfinds.congr hshape.symm rfl)⟩
    · exact (hsilent ((isSettled_congr hshape _).2 (hsettled _ hmem))).trans (hquiet hsettled)
  · rintro counts t ⟨hgraph, hcounts, hfound, hquiet⟩
    rw [List.length_map, renewedUpTo_length] at hgraph
    rw [List.length_map, List.take_length] at hcounts hfound
    exact ⟨hgraph, hcounts, hfound, hquiet⟩

/-! ## A second refresh -/

/-- All choices that definitions list are texts. -/
def OffersTexts (defs : Table Definition) : Prop :=
  ∀ type d, defs.get? type = some d → ∀ name choices, d.choices? name = some choices →
    Widget.AreTexts choices

private theorem OffersTexts.offered? (hdefs : OffersTexts defs) {type : String} {w : Widget}
    {choices : List Json} (h : w.offered? (defs.get? type) = some choices) :
    Widget.AreTexts choices := by
  rcases Option.bind_eq_some_iff.1 h with ⟨d, hd, h⟩
  split at h
  · exact hdefs type d hd w.name choices h
  · cases h

private theorem OffersTexts.ownChoices? (hdefs : OffersTexts defs) {n : Node γ}
    {choices : List Json} (h : g.ownChoices? defs n = some choices) : Widget.AreTexts choices := by
  unfold Graph.ownChoices? at h
  split at h
  · rcases Option.bind_eq_some_iff.1 h with ⟨places, -, h⟩
    rcases Option.bind_eq_some_iff.1 h with ⟨⟨d, name⟩, hfirst, h⟩
    rcases List.exists_of_findSome?_eq_some hfirst with ⟨⟨m, w⟩, -, hm⟩
    rcases Option.map_eq_some_iff.1 hm with ⟨d', hd', hsame⟩
    cases hsame
    exact hdefs m.type d hd' w.name choices h
  · cases h

/-- A node that is no primitive offers itself nothing. -/
theorem ownChoices?_of_not_primitive {n : Node γ} (hn : n.kind.isPrimitive = false) :
    g.ownChoices? defs n = none :=
  ownChoices?_of_idle (by rw [Node.asksTargets, hn, Bool.false_and])

section Again

variable (hdefs : OffersTexts defs) {n : Node γ}
  (hprimitive : n.kind.isPrimitive = true → defs.get? n.type = none)
  (hshape : h.mapNodes Node.casing = g.mapNodes Node.casing)

include hdefs hprimitive hshape

/-- In a graph of the same shape, a node that has been renewed offers itself nothing new. -/
theorem selfRenewed_renewed : h.selfRenewed defs (g.renewed defs n) = g.renewed defs n := by
  cases hkind : n.kind.isPrimitive with
  | false => exact selfRenewed_of_none (ownChoices?_of_not_primitive hkind)
  | true =>
    have hown : h.ownChoices? defs (g.selfRenewed defs n) = g.ownChoices? defs n :=
      ownChoices?_congr hshape (casing_selfRenewed g defs n)
    have hagain : (·.afterOffer false (g.ownChoices? defs n)) ∘
        (·.afterOffer false (g.ownChoices? defs n)) =
          fun w : Widget => w.afterOffer false (g.ownChoices? defs n) :=
      funext (Widget.afterOffer_afterOffer false fun _ => hdefs.ownChoices?)
    rw [renewed_of_none (hprimitive hkind), selfRenewed, hown]
    simp only [selfRenewed, List.modify_modify_eq, hagain]

/-- A node that has been renewed stays as it is. -/
theorem renewed_renewed : h.renewed defs (g.renewed defs n) = g.renewed defs n := by
  have hagain : Widget.renewed (defs.get? n.type) ∘ Widget.renewed (defs.get? n.type) =
      Widget.renewed (defs.get? n.type) :=
    funext fun _ => Widget.renewed_renewed fun _ => hdefs.offered?
  rw [renewed, selfRenewed_renewed hdefs hprimitive hshape]
  simp only [renewed, List.map_map, hagain]

/-- Nothing more is reset about a renewed node. -/
theorem isSettled_renewed : h.IsSettled defs (g.renewed defs n) where
  own w hw := by
    rw [ownChoices?_congr hshape (casing_renewed g defs n)]
    cases hkind : n.kind.isPrimitive with
    | false =>
      rw [ownChoices?_of_not_primitive hkind]
      rfl
    | true =>
      rw [renewed_of_none (hprimitive hkind)] at hw
      have hhead : n.widgets.head?.map (·.afterOffer false (g.ownChoices? defs n)) = some w := by
        rw [← hw, selfRenewed]
        cases n.widgets <;> rfl
      rcases Option.map_eq_some_iff.1 hhead with ⟨u, -, rfl⟩
      exact Widget.resetTo?_afterOffer false (fun _ => hdefs.ownChoices?) u
  offered w hw := by
    rw [selfRenewed_renewed hdefs hprimitive hshape] at hw
    rcases List.mem_map.1 hw with ⟨u, -, rfl⟩
    exact Widget.isReset_renewed fun _ => hdefs.offered?

end Again

end Graph

end NodeFlow
