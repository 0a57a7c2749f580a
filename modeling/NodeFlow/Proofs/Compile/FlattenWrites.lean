import NodeFlow.Proofs.Compile.Consistent
import NodeFlow.Proofs.Compile.FlattenOrder
import NodeFlow.Proofs.Compile.FlattenValues
import NodeFlow.Proofs.Compile.Writes

/-!
# Writes without groups

The hooks and the pushes of a node that stands for a site write what those of the site write, under
other names.  Nothing else is written after flattening: what happens to the widgets of a group itself
has no counterpart.

Main results:

- Definitions `Workflow.moved?` and `Workflow.movedCell?`: the name of a widget after flattening.
- Theorem `Workflow.hooksAt_flatten`: hooks write the same.
- Structure `Workflow.Confined`: no primitive is linked across the border of a group.
- Theorem `Workflow.pushesAt_flatten`: pushes write the same.
-/

namespace NodeFlow

/-! ## Names of widgets -/

/-- A node of the flattened workflow stands for the site. -/
def Site.stays : Site → Bool
  | outer n => n.parts?.isNone
  | inner host _ _ => host.parts?.isSome

namespace Workflow

variable {g : Workflow} {s : Site}

private theorem mem_expanded_iff : s ∈ expanded g ↔ s ∈ sites g ∧ s.stays = true := by
  cases s with
  | outer n => rw [mem_expanded_outer, mem_sites_outer, Site.stays, Option.isNone_iff_eq_none]
  | inner host x n =>
    rw [mem_expanded_inner, mem_sites_inner, Site.stays]
    constructor
    · rintro ⟨hhost, hparts, hn⟩
      exact ⟨⟨hhost, (parts?_eq_some.1 hparts).2, hn⟩, by rw [hparts]; rfl⟩
    · rintro ⟨⟨hhost, hgroup, hn⟩, hsome⟩
      rcases Option.isSome_iff_exists.1 hsome with ⟨y, hparts⟩
      rw [(parts?_eq_some.1 hparts).2, Option.some.injEq] at hgroup
      exact ⟨hhost, hgroup ▸ hparts, hn⟩

/-- The name of a widget in the flattened workflow, if it is there. -/
def moved? (g : Workflow) (c : Cell) : Option (NodeId × Nat) :=
  ((siteAt? g c.1).filter (·.stays)).map fun s => (s.id, c.2)

private theorem moved?_place (hdistinct : Distinct g) (hs : s ∈ expanded g) (i : Nat) :
    moved? g (s.place, i) = some (s.id, i) := by
  rcases mem_expanded_iff.1 hs with ⟨hmem, hstays⟩
  rw [moved?, siteAt?_place hdistinct hmem, Option.filter_some, if_pos hstays]
  rfl

/-- What is moved is a widget of a site that is met. -/
theorem exists_of_moved? {c : Cell} {d : NodeId × Nat} (h : moved? g c = some d) :
    ∃ s ∈ expanded g, c = (s.place, d.2) ∧ d = (s.id, d.2) := by
  rcases Option.map_eq_some_iff.1 h with ⟨s, hs, rfl⟩
  rcases Option.filter_eq_some_iff.1 hs with ⟨hat, hstays⟩
  refine ⟨s, mem_expanded_iff.2 ⟨mem_sites_of_siteAt? hat, hstays⟩, ?_, rfl⟩
  rw [place_of_siteAt? hat]

/-- The widgets of a group that is taken apart go nowhere. -/
theorem moved?_host (hids : (g.nodes.map (·.id)).Nodup) {host : Node Group} (hhost : host ∈ g.nodes)
    {x : Group} (hparts : host.parts? = some x) (i : Nat) :
    moved? g (.outer host.id, i) = none := by
  rw [moved?, siteAt?_outer, Graph.at?_of_mem hids hhost, Option.map_some, Option.filter_some,
    Site.stays, hparts]
  rfl

private theorem moved?_injective (hkeyed : Keyed g) {c c' : Cell} {d : NodeId × Nat}
    (h : moved? g c = some d) (h' : moved? g c' = some d) : c = c' := by
  rcases exists_of_moved? h with ⟨s, hs, rfl, hd⟩
  rcases exists_of_moved? h' with ⟨t, ht, rfl, hd'⟩
  have hid : s.id = t.id := congrArg Prod.fst (hd.symm.trans hd')
  rw [hkeyed.eq_of_id_eq (mem_sites_of_mem_expanded hs) (mem_sites_of_mem_expanded ht) hid]

end Workflow

/-! ## Targets of primitives -/

namespace Graph

variable {γ : Type}

/-- The position of the widget that an input was made from. -/
def widgetBehind (inputs : List InputSlot) (ws : List Widget) (slot : Int) :
    Except Fault (Option Nat) :=
  if (inputs.length : Int) ≤ slot then .ok none
  else
    match (position? inputs.length slot).bind (inputs[·]?) with
    | none => .error Fault.outside
    | some input =>
      match input.widget with
      | .str name => if name = "" then .ok none else .ok (Widget.position? ws name)
      | _ => .ok none

private theorem targetOf_eq_widgetBehind (g : Graph γ) (l : Link) :
    g.targetOf l = (do
      match ← g.lookup? l.target with
      | none => pure none
      | some n =>
        let found ← widgetBehind n.inputs n.widgets l.targetSlot.val
        pure (found.map fun i => (n.id, i))) := by
  rw [targetOf]
  cases g.lookup? l.target with
  | error f => rfl
  | ok found =>
    cases found with
    | none => rfl
    | some n =>
      simp only [bind, Except.bind, widgetBehind]
      split
      · rfl
      · cases (position? n.inputs.length l.targetSlot.val).bind (n.inputs[·]?) with
        | none => rfl
        | some input =>
          simp only
          cases input.widget with
          | str name =>
            by_cases hname : name = ""
            · simp only [hname, if_true]
              rfl
            · simp only [hname, if_false]
          | _ => rfl

/-- A link leads to no node, or to a node and perhaps to a widget of it. -/
theorem targetOf_cases {g : Graph γ} {l : Link} {found : Option (NodeId × Nat)}
    (h : g.targetOf l = .ok found) : (g.lookup? l.target = .ok none ∧ found = none) ∨
      ∃ n place, g.lookup? l.target = .ok (some n) ∧
        widgetBehind n.inputs n.widgets l.targetSlot.val = .ok place ∧
        found = place.map fun i => (n.id, i) := by
  rw [targetOf_eq_widgetBehind] at h
  rcases Fault.bind_eq_ok_iff.1 h with ⟨target, htarget, h⟩
  cases target with
  | none =>
    cases h
    exact .inl ⟨htarget, rfl⟩
  | some n =>
    rcases Fault.bind_eq_ok_iff.1 h with ⟨place, hplace, h⟩
    cases h
    exact .inr ⟨n, place, htarget, hplace, rfl⟩

private theorem widgetBehind_congr {inputs inputs' : List InputSlot}
    (h : ∀ i : Nat, (inputs'[i]?).map (·.widget) = (inputs[i]?).map (·.widget)) (ws : List Widget)
    (slot : Int) : widgetBehind inputs' ws slot = widgetBehind inputs ws slot := by
  have hlength : inputs'.length = inputs.length := by
    have hmaps : inputs'.map (·.widget) = inputs.map (·.widget) := by
      refine List.ext_getElem? fun i => ?_
      rw [List.getElem?_map, List.getElem?_map, h]
    simpa using congrArg List.length hmaps
  rw [widgetBehind, widgetBehind, hlength]
  split
  · rfl
  · cases position? inputs.length slot with
    | none => rfl
    | some i =>
      have hi := h i
      simp only [Option.bind_some]
      cases hslot : inputs[i]? with
      | none =>
        rw [hslot, Option.map_none, Option.map_eq_none_iff] at hi
        rw [hi]
      | some input =>
        rw [hslot] at hi
        rcases Option.map_eq_some_iff.1 hi with ⟨input', hinput', hwidget⟩
        rw [hinput']
        simp only [hwidget]

end Graph

namespace Workflow

variable {g : Workflow} {s t : Site}

private theorem widgetBehind_flat (g : Workflow) (t : Site) (slot : Int) :
    Graph.widgetBehind (t.flat g).inputs (t.flat g).widgets slot =
      Graph.widgetBehind t.inputs t.widgets slot := by
  rw [Site.widgets_flat]
  refine Graph.widgetBehind_congr (fun i => ?_) _ _
  rw [Site.getElem?_inputs_flat, Option.map_map]
  rfl

/-- Where a link leads that ends at a site. -/
theorem targetOf_flat (hkeyed : Keyed g) {w : Wire} (hw : g.Carries w) {i : Whole}
    (ht : w.target? g = some (t, i)) :
    Graph.targetOf (flatten g) (w.flat g) =
      (Graph.widgetBehind t.inputs t.widgets i.val).map (Option.map fun j => (t.id, j)) := by
  have hslot : (w.flat g).targetSlot = i := by simp [Wire.flat, ht]
  rw [Graph.targetOf_eq_widgetBehind, lookup?_target_flat hw hkeyed, ht, hslot]
  simp only [Option.map_some, bind, Except.bind, widgetBehind_flat]
  cases Graph.widgetBehind t.inputs t.widgets i.val <;> rfl

private theorem targetOf_flat_none (hkeyed : Keyed g) {w : Wire} (hw : g.Carries w)
    (ht : w.target? g = none) : Graph.targetOf (flatten g) (w.flat g) = .ok none := by
  rw [Graph.targetOf_eq_widgetBehind, lookup?_target_flat hw hkeyed, ht]
  rfl

/-- Where a link of the workflow leads that does not enter a group. -/
theorem targetOf_flat_outer (h : Flattenable g) {l : Link}
    (hstays : ∀ t, g.lookup? l.target = .ok (some t) → t.group?.isSome = true →
      t.entrance? l.targetSlot = none)
    {found : Option (NodeId × Nat)} (hfound : Graph.targetOf g l = .ok found) :
    Graph.targetOf (flatten g) ((Wire.outer l).flat g) =
      .ok (found.bind fun c => moved? g (outerCell c)) := by
  rcases Graph.targetOf_cases hfound with ⟨htarget, rfl⟩ | ⟨t, place, htarget, hplace, rfl⟩
  · have hnamed := Graph.named?_of_lookup? htarget
    refine targetOf_flat_none h.keyed (w := .outer l) trivial ?_
    simp [Wire.target?, hnamed]
  · have hnamed := Graph.named?_of_lookup? htarget
    have ht := Graph.mem_of_lookup? htarget
    have hend : (Wire.outer l).target? g = t.entrance? l.targetSlot := by
      simp [Wire.target?, hnamed]
    cases hparts : t.parts? with
    | none =>
      have hentrance : t.entrance? l.targetSlot = some (.outer t, l.targetSlot) := by
        simp [Node.entrance?, hparts]
      have hmem : Site.outer t ∈ expanded g := mem_expanded_outer.2 ⟨ht, hparts⟩
      rw [targetOf_flat h.keyed (w := .outer l) trivial (hend.trans hentrance)]
      simp only [Site.inputs, Site.widgets, hplace, Except.map]
      cases place with
      | none => rfl
      | some i => exact congrArg Except.ok (moved?_place h.keyed.distinct hmem i).symm
    | some x =>
      have hgroup : t.group?.isSome = true := by rw [(parts?_eq_some.1 hparts).2]; rfl
      rw [targetOf_flat_none h.keyed (w := .outer l) trivial (hend.trans (hstays t htarget hgroup))]
      cases place with
      | none => rfl
      | some i => exact congrArg Except.ok (moved?_host h.ids_nodup ht hparts i).symm

/-- Where a link inside a group leads. -/
theorem targetOf_flat_inner (hkeyed : Keyed g) {host : Node Group} (hhost : host ∈ g.nodes)
    {x : Group} (hparts : host.parts? = some x) {l : Link} {found : Option (NodeId × Nat)}
    (hfound : x.graph.targetOf l = .ok found) :
    Graph.targetOf (flatten g) ((Wire.inner host x l).flat g) =
      .ok (found.bind fun c => moved? g (innerCell host.id c)) := by
  have hcarries : g.Carries (.inner host x l) := ⟨hhost, hparts⟩
  rcases Graph.targetOf_cases hfound with ⟨htarget, rfl⟩ | ⟨t, place, htarget, hplace, rfl⟩
  · have hnamed := Graph.named?_of_lookup? htarget
    refine targetOf_flat_none hkeyed hcarries ?_
    simp [Wire.target?, hnamed]
  · have hnamed := Graph.named?_of_lookup? htarget
    have hend : (Wire.inner host x l).target? g = some (.inner host x t, l.targetSlot) := by
      simp [Wire.target?, hnamed]
    have hmem : Site.inner host x t ∈ expanded g :=
      mem_expanded_inner.2 ⟨hhost, hparts, Graph.mem_of_lookup? htarget⟩
    rw [targetOf_flat hkeyed hcarries hend]
    simp only [Site.inputs, Site.widgets, hplace, Except.map]
    cases place with
    | none => rfl
    | some i => exact congrArg Except.ok (moved?_place hkeyed.distinct hmem i).symm

/-! ## Links that leave a primitive -/

/-- The links of the first output of a node that stands for one of the workflow. -/
theorem outLinks?_flat_outer (g : Workflow) (n : Node Group) :
    Graph.outLinks? (flatten g) (Site.flat g (.outer n)) 0 =
      (Graph.outLinks? g n 0).map (List.map fun l => (Wire.outer l).flat g) := by
  have hcut : (Site.flat g (.outer n)).isCutOff = n.isCutOff := rfl
  cases hn : n.isCutOff with
  | true =>
    rw [Graph.outLinks?_of_isCutOff hn, Graph.outLinks?_of_isCutOff (hcut.trans hn)]
    rfl
  | false =>
    rw [Graph.outLinks?_zero hn, Graph.outLinks?_zero (hcut.trans hn)]
    have hlisted : (Site.flat g (.outer n)).outputs[0]? =
        (n.outputs[0]?).map fun o => { o with links := o.links.map (g.linkNumber 0) } :=
      List.getElem?_mapIdx
    rw [hlisted]
    cases n.outputs[0]? with
    | none => rfl
    | some o =>
      simp only [Option.map_some, Option.getD_some, List.filterMap_map, Except.map, List.map_filterMap]
      refine congrArg Except.ok (List.filterMap_congr fun id _ => ?_)
      exact link?_flatten_outer g id

/-- Inside a group too, where no link leaves the group from there. -/
theorem outLinks?_flat_inner (hkeyed : Keyed g) {host : Node Group} {x : Group} {n : Node Empty}
    (hn : Site.inner host x n ∈ expanded g)
    (hleaving : ∀ (j : Nat) p, host.outputs[j]? = some p → ∀ i, x.exit? j = some (n, i) →
      ∀ k ∈ p.links, g.link? k = none) :
    Graph.outLinks? (flatten g) (Site.flat g (.inner host x n)) 0 =
      (x.graph.outLinks? n 0).map (List.map fun l => (Wire.inner host x l).flat g) := by
  rcases mem_expanded_inner.1 hn with ⟨hhost, hparts, hmem⟩
  have hgroup := (parts?_eq_some.1 hparts).2
  have hcut : (Site.flat g (.inner host x n)).isCutOff = false := rfl
  have hlisted : (Site.flat g (.inner host x n)).outputs[0]? = (n.outputs[0]?).map fun o =>
      { o with links := (Site.inner host x n).listed g 0 o } := List.getElem?_mapIdx
  -- what leaves the group is no link
  have hgone : ∀ o : OutputSlot, ((Site.inner host x n).listed g 0 o).filterMap (flatten g).link? =
      if n.isCutOff then []
      else (o.links.filterMap x.graph.link?).map fun l => (Wire.inner host x l).flat g := by
    intro o
    simp only [Site.listed, List.filterMap_append]
    refine (congrArg₂ (· ++ ·) ?_ (List.filterMap_eq_nil_iff.2 ?_)).trans (List.append_nil _)
    · cases n.isCutOff with
      | true => rfl
      | false =>
        simp only [Bool.false_eq_true, if_false, List.filterMap_map, List.map_filterMap]
        refine List.filterMap_congr fun id _ => ?_
        exact link?_flatten_inner hkeyed.ids_nodup hhost hparts id
    · intro k hk
      rcases List.mem_flatMap.1 hk with ⟨⟨p, j⟩, hp, hfound⟩
      have hp := List.mem_zipIdx_iff_getElem?.1 hp
      cases hexit : x.exit? j with
      | none => simp [hexit] at hfound
      | some e =>
        rcases e with ⟨m, i⟩
        simp only [hexit] at hfound
        split at hfound
        · rename_i hsame
          have hm := List.inj_on_of_nodup_map (hkeyed.inner_ids_nodup hhost hgroup)
            (mem_of_exit? hexit) hmem hsame.1
          subst hm
          rcases List.mem_map.1 hfound with ⟨id, hid, rfl⟩
          rw [link?_flatten_outer, hleaving j p hp i hexit id hid]
          rfl
        · cases hfound
  rw [Graph.outLinks?_zero hcut, hlisted]
  cases hnc : n.isCutOff with
  | true =>
    rw [Graph.outLinks?_of_isCutOff hnc]
    cases n.outputs[0]? with
    | none => rfl
    | some o => simp [hgone, hnc, Except.map]
  | false =>
    rw [Graph.outLinks?_zero hnc]
    cases n.outputs[0]? with
    | none => rfl
    | some o => simp [hgone, hnc, Except.map]

/-! ## Hooks -/

/-- The name of a widget as a cell of the flattened workflow, if it is there. -/
def movedCell? (g : Workflow) (c : Cell) : Option Cell := (moved? g c).map outerCell

/-- The widgets of a site that is met are those of the node that stands for it. -/
theorem movedCell?_place (hdistinct : Distinct g) (hs : s ∈ expanded g) (i : Nat) :
    movedCell? g (s.place, i) = some (.outer s.id, i) := by
  rw [movedCell?, moved?_place hdistinct hs]
  rfl

/-- Widgets that are moved to one place come from one place. -/
theorem movedCell?_injective (hkeyed : Keyed g) {c c' d : Cell} (h : movedCell? g c = some d)
    (h' : movedCell? g c' = some d) : c = c' := by
  rcases Option.map_eq_some_iff.1 h with ⟨e, he, rfl⟩
  rcases Option.map_eq_some_iff.1 h' with ⟨e', he', hsame⟩
  exact moved?_injective hkeyed he (outerCell_injective hsame ▸ he')

private theorem widgetsAt_flatten (hkeyed : Keyed g) (hs : s ∈ expanded g) :
    widgetsAt (flatten g) (.outer s.id) = s.widgets := by
  rw [widgetsAt, siteAt?_outer, at?_flatten hkeyed hs]
  exact Site.widgets_flat g s

/-- The hooks of the node that stands for a site write what those of the site write. -/
theorem hooksAt_flatten (hkeyed : Keyed g) (hs : s ∈ expanded g) :
    hooksAt (flatten g) (.outer s.id) =
      (hooksAt g s.place).filterMap (Write.carry? (movedCell? g)) := by
  rw [hooksAt, hooksAt, widgetsAt_flatten hkeyed hs,
    widgetsAt_place hkeyed.distinct (mem_sites_of_mem_expanded hs), List.filterMap_filterMap]
  refine List.filterMap_congr fun i _ => ?_
  cases s.widgets[i]? with
  | none => rfl
  | some w =>
    simp only [Option.bind_some, hookWrite?]
    cases w.beforeQueued with
    | none => rfl
    | some h => exact (Write.carry?_own (movedCell?_place hkeyed.distinct hs i) _).symm

end Workflow

/-! ## Pushes -/

namespace Graph

variable {γ γ' : Type} {g : Graph γ} {h : Graph γ'} {ρ : NodeId × Nat → Option (NodeId × Nat)}

private theorem targetsOf_map {φ : Link → Link} {ls : List Link}
    (hφ : ∀ l ∈ ls, ∀ found, g.targetOf l = .ok found → h.targetOf (φ l) = .ok (found.bind ρ))
    {places : List (NodeId × Nat)} (hplaces : g.targetsOf ls = .ok places) :
    h.targetsOf (ls.map φ) = .ok (places.filterMap ρ) := by
  induction ls generalizing places with
  | nil =>
    cases hplaces
    rfl
  | cons l ls ih =>
    rcases Fault.bind_eq_ok_iff.1 hplaces with ⟨found, hfound, hplaces⟩
    rcases Fault.bind_eq_ok_iff.1 hplaces with ⟨rest, hrest, hsame⟩
    cases hsame
    have hfirst := hφ l List.mem_cons_self found hfound
    have hothers := ih (fun k hk => hφ k (List.mem_cons_of_mem l hk)) hrest
    rw [List.map_cons, targetsOf, hfirst, hothers]
    cases found with
    | none => rfl
    | some c => cases hc : ρ c <;> simp [hc] <;> rfl

private theorem tellAll_filterMap (htell : ∀ c d, ρ c = some d → h.tell d = g.tell c)
    {places : List (NodeId × Nat)} (hplaces : g.tellAll places = .ok ()) :
    h.tellAll (places.filterMap ρ) = .ok () := by
  induction places with
  | nil => rfl
  | cons c cs ih =>
    rcases Fault.bind_eq_ok_iff.1 hplaces with ⟨⟨⟩, hc, hcs⟩
    cases hd : ρ c with
    | none =>
      rw [List.filterMap_cons_none hd]
      exact ih hcs
    | some d =>
      rw [List.filterMap_cons_some hd, tellAll, htell c d hd, hc]
      exact ih hcs

/-- What a primitive copies in another graph, where it stands for the same and its targets have
other names. -/
theorem copiesOf_transfer {n : Node γ} {m : Node γ'} (hn : g.at? n.id = some n)
    (hm : h.at? m.id = some m) (hkind : m.kind.isPrimitive = n.kind.isPrimitive)
    (hwidgets : m.widgets = n.widgets)
    (htargets : n.kind.isPrimitive = true → ∀ places, g.targets n = .ok places →
      h.targets m = .ok (places.filterMap ρ))
    (htell : ∀ c d, ρ c = some d → h.tell d = g.tell c) {cs : List (Copy (NodeId × Nat))}
    (hcs : g.copiesOf n.id = .ok cs) :
    h.copiesOf m.id = .ok (cs.map fun c => ⟨(m.id, 0), c.targets.filterMap ρ⟩) := by
  simp only [copiesOf, hn] at hcs
  simp only [copiesOf, hm, hkind, hwidgets]
  split at hcs
  · rename_i hpushes
    rw [if_pos hpushes]
    rw [Bool.and_eq_true] at hpushes
    rcases Fault.bind_eq_ok_iff.1 hcs with ⟨places, hplaces, hcs⟩
    rcases Fault.bind_eq_ok_iff.1 hcs with ⟨⟨⟩, htold, hcs⟩
    cases hcs
    rw [htargets hpushes.1 places hplaces]
    simp only [bind, Except.bind, tellAll_filterMap htell htold]
    rfl
  · rename_i hpushes
    cases hcs
    rw [if_neg hpushes]
    rfl

end Graph

namespace Workflow

variable {g : Workflow} {s : Site}

private theorem tell_outer (g : Workflow) (c : NodeId × Nat) :
    Graph.tell g c = (((widgetsAt g (.outer c.1))[c.2]?).map (·.told)).getD (.ok ()) := by
  rw [Graph.tell, Graph.widgetAt?, widgetsAt, siteAt?]
  cases g.at? c.1 with
  | none => rfl
  | some n =>
    simp only [Option.map_some, Option.getD_some, Site.widgets, Option.bind_eq_bind, Option.bind_some]
    cases n.widgets[c.2]? <;> rfl

private theorem tell_inner (g : Workflow) (host : NodeId) (c : NodeId × Nat) :
    (innerGraph g host).tell c =
      (((widgetsAt g (.inner host c.1))[c.2]?).map (·.told)).getD (.ok ()) := by
  rw [Graph.tell, Graph.widgetAt?, widgetsAt, siteAt?, innerGraph]
  cases g.at? host with
  | none => rfl
  | some n =>
    cases hgroup : n.group? with
    | none => simp [hgroup, Graph.at?]
    | some x =>
      simp only [Option.bind_some, hgroup, Option.map_some, Option.getD_some, Option.bind_eq_bind]
      cases x.graph.at? c.1 with
      | none => rfl
      | some m =>
        simp only [Option.bind_some, Option.map_some, Option.pure_def, Option.getD_some, Site.widgets]
        cases m.widgets[c.2]? <;> rfl

/-- No primitive is linked across the border of a group. -/
structure Confined (g : Workflow) : Prop where
  /-- No link of a primitive leads to a group. -/
  entering : ∀ n ∈ g.nodes, n.kind.isPrimitive = true → ∀ ls, Graph.outLinks? g n 0 = .ok ls →
    ∀ l ∈ ls, ∀ t, g.lookup? l.target = .ok (some t) → t.group? = none
  /-- No link leaves an output of a group that a primitive inside stands behind. -/
  leaving : ∀ host ∈ g.nodes, ∀ x, host.group? = some x → ∀ (j : Nat) p, host.outputs[j]? = some p →
    ∀ m i, x.exit? j = some (m, i) → m.kind.isPrimitive = true → ∀ k ∈ p.links, g.link? k = none

private theorem isPrimitive_flat (g : Workflow) (s : Site) :
    (s.flat g).kind.isPrimitive = s.isPrimitive := by
  cases s with
  | outer n => rfl
  | inner host x n =>
    simp only [Site.flat, Site.asNode, Node.widen, Site.isPrimitive]
    cases n.kind with
    | group y => exact y.elim
    | _ => rfl

/-- A widget that is in the flattened workflow is told the same there. -/
theorem tell_flatten (hkeyed : Keyed g) {k : Cell} {d : NodeId × Nat} (h : moved? g k = some d) :
    Graph.tell (flatten g) d = (((widgetsAt g k.1)[k.2]?).map (·.told)).getD (.ok ()) := by
  rcases exists_of_moved? h with ⟨t, ht, rfl, hd⟩
  rw [tell_outer, congrArg Prod.fst hd, widgetsAt_flatten hkeyed ht,
    widgetsAt_place hkeyed.distinct (mem_sites_of_mem_expanded ht)]

/-- The node that stands for a site copies what the site copies. -/
theorem copiesAt_flatten (h : Flattenable g) (hconfined : Confined g) (hs : s ∈ expanded g)
    {cs : List (Copy Cell)} (hcs : copiesAt g s.place = .ok cs) :
    copiesAt (flatten g) (.outer s.id) =
      .ok (cs.map fun c => ⟨(.outer s.id, 0), c.targets.filterMap (movedCell? g)⟩) := by
  have hkeyed := h.keyed
  have hat : Graph.at? (flatten g) (s.flat g).id = some (s.flat g) := at?_flatten hkeyed hs
  -- what is left to show is the same inside groups and outside
  have hnames : ∀ (cell : NodeId × Nat → Cell) (ds : List (Copy (NodeId × Nat))),
      Graph.copiesOf (flatten g) s.id =
        .ok (ds.map fun c => ⟨(s.id, 0), c.targets.filterMap fun k => moved? g (cell k)⟩) →
      copiesAt (flatten g) (.outer s.id) =
        .ok ((ds.map (Copy.map cell)).map fun c =>
          ⟨(.outer s.id, 0), c.targets.filterMap (movedCell? g)⟩) := by
    intro cell ds hds
    rw [copiesAt, hds, Except.map, List.map_map, List.map_map]
    refine congrArg Except.ok (List.map_congr_left fun c _ => ?_)
    simp only [Function.comp_apply, Copy.map, List.filterMap_map, List.map_filterMap]
    rfl
  cases s with
  | outer n =>
    rcases mem_expanded_outer.1 hs with ⟨hn, -⟩
    rcases Fault.map_eq_ok_iff.1 hcs with ⟨ds, hds, rfl⟩
    refine hnames outerCell ds (Graph.copiesOf_transfer (Graph.at?_of_mem h.ids_nodup hn) hat
      (isPrimitive_flat g _) (Site.widgets_flat g _) ?_ ?_ hds)
    · intro hprimitive places hplaces
      rcases Fault.bind_eq_ok_iff.1 hplaces with ⟨ls, hls, hplaces⟩
      rw [Graph.targets, outLinks?_flat_outer, hls]
      refine Graph.targetsOf_map (fun l hl found hfound => ?_) hplaces
      refine targetOf_flat_outer h (fun t ht hgroup => ?_) hfound
      rw [hconfined.entering n hn hprimitive ls hls l hl t ht] at hgroup
      cases hgroup
    · intro c d hd
      rw [tell_flatten hkeyed hd, tell_outer]
      rfl
  | inner host x n =>
    rcases mem_expanded_inner.1 hs with ⟨hhost, hparts, hn⟩
    have hgroup := (parts?_eq_some.1 hparts).2
    have hinner := innerGraph_of_mem h.ids_nodup hhost hgroup
    rcases Fault.map_eq_ok_iff.1 hcs with ⟨ds, hds, rfl⟩
    rw [hinner] at hds
    refine hnames (innerCell host.id) ds (Graph.copiesOf_transfer
      (Graph.at?_of_mem (hkeyed.inner_ids_nodup hhost hgroup) hn) hat
      (isPrimitive_flat g _) (Site.widgets_flat g _) ?_ ?_ hds)
    · intro hprimitive places hplaces
      rcases Fault.bind_eq_ok_iff.1 hplaces with ⟨ls, hls, hplaces⟩
      rw [Graph.targets, outLinks?_flat_inner hkeyed hs fun j p hp i hexit =>
        hconfined.leaving host hhost x hgroup j p hp n i hexit hprimitive, hls]
      exact Graph.targetsOf_map
        (fun l _ found hfound => targetOf_flat_inner hkeyed hhost hparts hfound) hplaces
    · intro c d hd
      rw [tell_flatten hkeyed hd, ← hinner, tell_inner]
      rfl

/-- The node that stands for a site pushes what the site pushes. -/
theorem pushesAt_flatten (h : Flattenable g) (hconfined : Confined g) (hs : s ∈ expanded g)
    {cs : List (Copy Cell)} (hcs : copiesAt g s.place = .ok cs) :
    pushesAt (flatten g) (.outer s.id) =
      (pushesAt g s.place).filterMap (Write.carry? (movedCell? g)) := by
  have hsources : ∀ c ∈ cs, movedCell? g c.source = some (.outer s.id, 0) := by
    intro c hc
    rcases copiesAt_eq_ok hcs with rfl | ⟨targets, rfl, -⟩
    · cases hc
    · rw [List.mem_singleton.1 hc]
      exact movedCell?_place h.keyed.distinct hs 0
  rw [pushesAt, pushesAt, hcs, copiesAt_flatten h hconfined hs hcs]
  exact (Write.filterMap_carry?_copies hsources).symm

end Workflow

end NodeFlow
