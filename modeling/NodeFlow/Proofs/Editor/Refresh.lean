import NodeFlow.Proofs.Load.Ready
import NodeFlow.Proofs.Widget.Renewal

/-!
# Refreshing choices

A refresh asks the backend for its definitions again and offers their choices to the nodes of the
workflow.  The nodes inside groups are not among them: they keep the choices that they were built with.

Main results:

- Definitions `Node.RefreshesTo` and `Workflow.RefreshesTo`: what a refresh makes of a node and of a
  workflow.
- Theorem `Editor.registerDefinitions_sameGraph`: asking for definitions leaves the graph alone.
- Theorem `Editor.refresh_meets`: a refresh renews the nodes.
- Theorem `Editor.refresh_again`: a refresh changes nothing where the nodes have been renewed.
- Theorem `Editor.refresh_outcome`: what a refresh comes to, when it succeeds, and what a second one
  does.
-/

namespace NodeFlow

/-! ## What a refresh comes to -/

/-- What a refresh makes of a node, given the choices that it offers itself and the definition of its
class, if there are any. -/
structure Node.RefreshesTo {γ : Type} (own? : Option (List Json)) (d? : Option Definition)
    (n n' : Node γ) : Prop where
  /-- Nothing but the widgets changes. -/
  rest : n' = { n with widgets := n'.widgets }
  /-- No widget comes or goes. -/
  length : n'.widgets.length = n.widgets.length
  /-- A widget takes what the definition lists for it. -/
  widgets : ∀ i w w', n.widgets[i]? = some w → n'.widgets[i]? = some w' →
    n.kind.isPrimitive = false ∨ i ≠ 0 →
      w.Takes (keptChoices.contains w.name) (w.offered? d?) w'
  /-- The value widget of a primitive takes the choices of its target before. -/
  valueWidget : ∀ w w', n.widgets[0]? = some w → n'.widgets[0]? = some w' →
    n.kind.isPrimitive = true → ∃ u, w.Takes false own? u ∧
      u.Takes (keptChoices.contains w.name) (w.offered? d?) w'

/-- What a refresh makes of a workflow, and the number that it reports. -/
structure Workflow.RefreshesTo (defs : Table Definition) (g g' : Workflow) (count : Nat) : Prop where
  /-- Nothing but the nodes changes. -/
  rest : g' = { g with nodes := g'.nodes }
  /-- Every node takes what the definition of its class lists. -/
  nodes : List.Forall₂ (fun n n' => n.RefreshesTo (g.ownChoices? defs n) (defs.get? n.type) n')
    g.nodes g'.nodes
  /-- The nodes inside groups stay as they are. -/
  inside : ∀ host, innerGraph g' host = innerGraph g host
  /-- The number counts what the nodes lost to the choices of their classes. -/
  count : count = (g.nodes.map (g.resets defs)).sum

private theorem Graph.renewed_refreshesTo {γ : Type} (g : Graph γ) (defs : Table Definition)
    (n : Node γ) : n.RefreshesTo (g.ownChoices? defs n) (defs.get? n.type) (g.renewed defs n) where
  rest := rfl
  length := by simp [renewed, selfRenewed]
  widgets i w w' hw hw' hi := by
    have hself : (g.selfRenewed defs n).widgets[i]? = some w := by
      rcases hi with hkind | hi
      · rwa [selfRenewed_of_none (ownChoices?_of_not_primitive hkind)]
      · rwa [selfRenewed, List.getElem?_modify_ne _ _ hi.symm]
    rw [renewed, List.getElem?_map, hself] at hw'
    cases hw'
    exact Widget.takes_afterOffer _ _ w
  valueWidget w w' hw hw' hkind := by
    have hcasing : (w.afterOffer false (g.ownChoices? defs n)).casing = w.casing :=
      Widget.casing_afterOffer w
    have hname : (w.afterOffer false (g.ownChoices? defs n)).name = w.name :=
      congrArg (·.name) hcasing
    refine ⟨_, Widget.takes_afterOffer false (g.ownChoices? defs n) w, ?_⟩
    rw [renewed, List.getElem?_map, selfRenewed, List.getElem?_modify_eq, hw] at hw'
    cases hw'
    rw [← hname, ← Widget.offered?_of_casing hcasing]
    exact Widget.takes_afterOffer _ _ _

private theorem Workflow.refreshesTo_mapNodes (g : Workflow) (defs : Table Definition) :
    RefreshesTo defs g (g.mapNodes (g.renewed defs)) (g.nodes.map (g.resets defs)).sum where
  rest := rfl
  nodes := by
    rw [Graph.mapNodes, List.forall₂_map_right_iff]
    exact List.forall₂_same.2 fun n _ => g.renewed_refreshesTo defs n
  inside host := by
    rw [innerGraph, innerGraph, Graph.at?_mapNodes (Graph.isNeutral_renewed g defs)]
    cases g.at? host <;> rfl
  count := rfl

namespace Editor

/-- Asking for definitions leaves the graph alone. -/
def sameGraph : Drift Editor := .keeping (·.graph)

private theorem broadcast_sameGraph (hook : String) (subjects : List Subject) :
    (broadcast hook subjects).Within sameGraph := by
  refine .bind .get fun e => ?_
  split
  · exact .pure _
  · exact .bind .wait fun _ => .bind_get fun _ => rfl

private theorem registerEach_sameGraph (ms : Members) (known : Table Definition) :
    (registerEach ms known).Within sameGraph := by
  induction ms generalizing known with
  | nil => exact .pure _
  | cons m ms ih =>
    refine .bind (.lift _) fun d => .bind ?_ fun d => .bind (.modify fun _ => rfl) fun _ => ih _
    refine .bind (broadcast_sameGraph _ _) fun answer => ?_
    split <;> exact .pure _

/-- Asking for definitions leaves the graph alone. -/
theorem registerDefinitions_sameGraph : registerDefinitions.Within sameGraph := by
  refine .bind ?_ fun raw => .bind ?_ fun offered => ?_
  · refine .bind .get fun e => ?_
    split
    · exact .pure _
    · exact .bind (.waitFor _) fun _ => .focus_free _ fun _ _ => rfl
  · refine .bind (broadcast_sameGraph _ _) fun answer => ?_
    split <;> exact .pure _
  · split
    · exact registerEach_sameGraph _ _
    · exact .throw _

private theorem onGraph_meets {α : Type} {act : Act (Workflow × Outside) α} {P : Prop}
    {Q : α → Editor → Prop} {e : Editor}
    (h : act.Meets P (fun a s => Q a { e with graph := s.1, outside := s.2 })
      (e.graph, e.outside)) : (onGraph act).Meets P Q e := by
  refine .focus ?_ h
  rw [Act.exec_focus]
  · intros
    rfl
  · intros
    rfl

/-- What is left of an editor that has asked for definitions when the nodes have been renewed. -/
structure Renews (defs : Table Definition) (e : Editor) (count : Nat) (e' : Editor) : Prop where
  state : e' = { e with
    graph := e.graph.mapNodes (e.graph.renewed defs), outside := e'.outside }
  count : count = (e.graph.nodes.map (e.graph.resets defs)).sum
  found : ∀ n ∈ e.graph.nodes, e.graph.FindsTargets n
  quiet : (∀ n ∈ e.graph.nodes, e.graph.IsSettled defs n) → e'.outside = e.outside

/-- A refresh comes to what renewing the nodes comes to, once definitions have been asked for. -/
theorem refresh_meets {e e₁ : Editor} {defs : Table Definition}
    (hregister : registerDefinitions.exec e = (.ok defs, e₁))
    (hids : (e₁.graph.nodes.map (·.id)).Nodup) :
    refresh.Meets (∀ n ∈ e₁.graph.nodes, e₁.graph.CanRenew defs n) (e₁.Renews defs) e := by
  refine (Act.Meets.of_exec (Q := fun a t => defs = a ∧ e₁ = t) hregister ⟨rfl, rfl⟩).bind ?_
  rintro _ _ ⟨rfl, rfl⟩
  refine .bind_get ((onGraph_meets (Q := fun counts => e₁.Renews defs counts.sum)
    ((Graph.renewNodes_meets hids e₁.outside).mono id ?_)).bind ?_)
  · rintro counts ⟨g, o⟩ ⟨rfl, hsum, hfound, hquiet⟩
    exact ⟨rfl, hsum, hfound, hquiet⟩
  · intro counts e' he'
    rw [← List.sum_eq_foldl]
    exact .pure he'

/-- A refresh with definitions that list texts changes nothing where the nodes have been renewed with
them, if no primitive has a class of its own. -/
theorem refresh_again {g : Workflow} {e e₁ : Editor} {defs : Table Definition}
    (hids : (g.nodes.map (·.id)).Nodup) (hdefs : Graph.OffersTexts defs)
    (hprimitive : ∀ n ∈ g.nodes, n.kind.isPrimitive = true → defs.get? n.type = none)
    (hfound : ∀ n ∈ g.nodes, g.FindsTargets n)
    (hregister : registerDefinitions.exec e = (.ok defs, e₁))
    (hgraph : e₁.graph = g.mapNodes (g.renewed defs)) : refresh.exec e = (.ok 0, e₁) := by
  have hshape : e₁.graph.mapNodes Node.casing = g.mapNodes Node.casing := by
    rw [hgraph, Graph.casing_mapNodes_renewed]
  have hids₁ : (e₁.graph.nodes.map (·.id)).Nodup := by
    rwa [hgraph, Graph.ids_mapNodes (Graph.isNeutral_renewed g defs)]
  have hnodes : ∀ {P : Node Group → Prop}, (∀ n ∈ g.nodes, P (g.renewed defs n)) →
      ∀ n ∈ e₁.graph.nodes, P n := by
    intro P hP n hn
    rw [hgraph] at hn
    rcases List.mem_map.1 hn with ⟨m, hm, rfl⟩
    exact hP m hm
  have hsettled : ∀ n ∈ e₁.graph.nodes, e₁.graph.IsSettled defs n :=
    hnodes fun n hn => Graph.isSettled_renewed hdefs (hprimitive n hn) hshape
  have hfound₁ : ∀ n ∈ e₁.graph.nodes, e₁.graph.FindsTargets n :=
    hnodes fun n hn => (hfound n hn).congr hshape (Graph.casing_renewed g defs n)
  have hsame : e₁.graph.mapNodes (e₁.graph.renewed defs) = e₁.graph := by
    have hmap : e₁.graph.nodes.map (e₁.graph.renewed defs) = e₁.graph.nodes :=
      (List.map_congr_left (hnodes fun n hn =>
        Graph.renewed_renewed hdefs (hprimitive n hn) hshape)).trans (List.map_id' _)
    rw [Graph.mapNodes, hmap]
  have hrefresh := refresh_meets hregister hids₁
  rcases hrefresh.succeeds fun n hn => (hsettled n hn).canRenew (hfound₁ n hn) with
    ⟨count, e', hexec⟩
  rcases hrefresh.result count e' hexec with ⟨hstate, hcount, -, hquiet⟩
  have hzero : count = 0 := by
    rw [hcount, List.sum_eq_zero]
    intro k hk
    rcases List.mem_map.1 hk with ⟨n, hn, rfl⟩
    exact (hsettled n hn).resets_eq_zero
  rw [hexec, hzero, hstate, hsame, hquiet hsettled]

/-- A refresh offers the nodes of the workflow, and these alone, what the definitions of their classes
list.  It succeeds if the links of primitives can be followed and no callback fails, and a second one
changes nothing if the choices are texts and no primitive has a class of its own. -/
theorem refresh_outcome {e e₁ : Editor} {defs : Table Definition}
    (hregister : registerDefinitions.exec e = (.ok defs, e₁))
    (hids : (e.graph.nodes.map (·.id)).Nodup) :
    (∀ count e', refresh.exec e = (.ok count, e') →
      e' = { e₁ with graph := e'.graph, outside := e'.outside } ∧
      Workflow.RefreshesTo defs e.graph e'.graph count ∧
      (Graph.OffersTexts defs →
        (∀ n ∈ e.graph.nodes, n.kind.isPrimitive = true → defs.get? n.type = none) →
        ∀ e₂, registerDefinitions.exec e' = (.ok defs, e₂) →
          e₂.graph = e'.graph ∧ refresh.exec e' = (.ok 0, e₂))) ∧
    (Graph.Aimed e.graph → Graph.AllWidgets (fun w => w.told = .ok ()) e.graph →
      ∃ count e', refresh.exec e = (.ok count, e')) := by
  have hgraph : e₁.graph = e.graph := registerDefinitions_sameGraph.of_exec hregister
  rw [← hgraph] at hids ⊢
  have hrefresh := refresh_meets hregister hids
  refine ⟨fun count e' hexec => ?_, fun haimed htold => hrefresh.succeeds fun n hn => ?_⟩
  · rcases hrefresh.result count e' hexec with ⟨hstate, hcount, hfound, -⟩
    have hgraph' : e'.graph = e₁.graph.mapNodes (e₁.graph.renewed defs) :=
      congrArg (·.graph) hstate
    refine ⟨by rw [hgraph']; exact hstate, ?_, fun hdefs hprimitive e₂ hagain => ?_⟩
    · rw [hgraph', hcount]
      exact Workflow.refreshesTo_mapNodes e₁.graph defs
    · have hgraph₂ : e₂.graph = e'.graph := registerDefinitions_sameGraph.of_exec hagain
      exact ⟨hgraph₂, refresh_again hids hdefs hprimitive hfound hagain (hgraph₂.trans hgraph')⟩
  · exact Graph.canRenew_of_told (fun hasks => haimed n hn (Bool.and_eq_true_iff.1 hasks).1)
      (htold n hn)

/-- The definition of a class with one list of choices. -/
def listing : Definition where
  name := "Loader"
  required := [("model", [.arr [.str "c", .str "d"]])]

/-- The editor that shows a graph, with a backend that knows this class only. -/
def listed (g : Workflow) : Editor where
  backend := .replying { definitions := .obj [("Loader",
    .obj [("input", .obj [("required", .obj [("model", .arr [.arr [.str "c", .str "d"]])])])])] }
  graph := g

private theorem exec_registerDefinitions_listed (g : Workflow) :
    registerDefinitions.exec (listed g) =
      (.ok [("Loader", listing)], { listed g with registry := Registry.register listing {} }) := rfl

private theorem offersTexts_listing : Graph.OffersTexts [("Loader", listing)] := by
  intro type d hd name choices hchoices
  cases List.mem_singleton.1 (Table.mem_of_get? hd)
  unfold Definition.choices? at hchoices
  split at hchoices
  · rename_i found rest hfound
    cases List.mem_singleton.1 (Table.mem_of_get? hfound)
    cases hchoices
    intro c hc
    simp only [List.mem_cons, List.not_mem_nil, or_false] at hc
    rcases hc with rfl | rfl
    · exact ⟨"c", rfl⟩
    · exact ⟨"d", rfl⟩
  · cases hchoices

/-- A choice widget that holds an old choice. -/
def lagging : Widget where
  name := "model"
  value := .str "a"
  kind := "combo"
  options := [("values", .arr [.str "a", .str "b"])]

/-- A node of the class with this widget, and an input made from it. -/
def lagger {γ : Type} : Node γ where
  id := .number 1
  type := "Loader"
  title := none
  inputs := [{ name := "model", link := some 1, widget := .str "model" }]
  widgets := [lagging]

/-- A primitive that is linked to this widget. -/
def holder : Node Group where
  id := .number 2
  kind := .primitive none
  type := "PrimitiveNode"
  title := none
  outputs := [{ name := "value", links := [1] }]
  widgets := [lagging]

/-- The node and the primitive. -/
def held : Workflow where
  nodes := [lagger, holder]
  links := [⟨.number 1, .int 2, .number 0, .int 1, .number 0, .str "*"⟩]

/-- Both get the new choices, the reset of the node alone is counted, and a second refresh finds
nothing to do. -/
theorem held_refreshes : ∃ count e' e₂, refresh.exec (listed held) = (.ok count, e') ∧
    Workflow.RefreshesTo [("Loader", listing)] held e'.graph count ∧ count = 1 ∧
    refresh.exec e' = (.ok 0, e₂) ∧ e₂.graph = e'.graph := by
  have hregister := exec_registerDefinitions_listed held
  have houtcome := refresh_outcome hregister (by decide)
  have hprimitive : ∀ n ∈ held.nodes, n.kind.isPrimitive = true →
      Table.get? [("Loader", listing)] n.type = none := by
    simp [held, lagger, holder, Kind.isPrimitive, Table.get?]
  have haimed : Graph.Aimed held := by
    intro n hn hkind
    simp only [held, List.mem_cons, List.not_mem_nil, or_false] at hn
    rcases hn with rfl | rfl
    · cases hkind
    · exact ⟨[(.number 1, 0)], rfl⟩
  have htold : Graph.AllWidgets (fun w => w.told = .ok ()) held := by
    simp [Graph.AllWidgets, held, lagger, holder, lagging, Widget.told]
  rcases houtcome.2 haimed htold with ⟨count, e', hexec⟩
  rcases houtcome.1 count e' hexec with ⟨hstate, hrefreshes, hagain⟩
  have hregister' : registerDefinitions.exec e' = (.ok [("Loader", listing)], e') := by
    rw [hstate]
    rfl
  rcases hagain offersTexts_listing hprimitive e' hregister' with ⟨-, hexec'⟩
  exact ⟨count, e', e', hexec, hrefreshes, hrefreshes.count, hexec', rfl⟩

/-- A group with the node inside. -/
def tucked : Workflow where
  nodes := [{
    id := .number 3, kind := .group { graph := { nodes := [lagger] }, inputs := [], outputs := [] }
    type := "Group", title := none }]

/-- The node inside keeps the old choices, and nothing is counted. -/
theorem tucked_keepsChoices : ∃ e', refresh.exec (listed tucked) = (.ok 0, e') ∧
    ∃ s ∈ Workflow.sites e'.graph, s.type = "Loader" ∧ ∃ w ∈ s.widgets,
      w.offered? (some listing) = some [.str "c", .str "d"] ∧ w.name ∉ keptChoices ∧
        w.options.get? "values" = some (.arr [.str "a", .str "b"]) ∧ w.value = .str "a" :=
  ⟨_, rfl, _, List.mem_cons_of_mem _ List.mem_cons_self, rfl, lagging, List.mem_cons_self, rfl,
    by decide, rfl, rfl⟩

end Editor

end NodeFlow
