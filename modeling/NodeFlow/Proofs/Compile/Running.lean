import NodeFlow.Proofs.Compile.Inputs
import NodeFlow.Proofs.Edit.Bookkeeping

/-!
# Workflows that only run

Where there are neither groups nor virtual nodes, nothing is muted or bypassed, and no hook runs
around a submission, every link leads straight to the node that feeds an input.  A compilation then
fails only if the nodes cannot be ordered, and changes nothing.

Main results:

- Structure `Node.Runs`: a node that simply runs.
- Theorem `Site.exists_resolve_of_runs`: a slot resolves to the node at the other end of its link.
- Theorem `Editor.exec_compile_of_runs`: the compilation of a workflow whose nodes all run.
-/

namespace NodeFlow

open Workflow NodeFlow.Graph

/-- The node runs: it is no virtual node and no group, it is neither muted nor bypassed, it sees its
links, and no hook of it runs around a submission. -/
structure Node.Runs (n : Node Group) : Prop where
  kind : n.kind = .plain
  mode : n.mode = normalMode
  attached : n.isCutOff = false
  silent : ∀ w ∈ n.widgets, w.beforeQueued = none ∧ w.serializer = none

namespace Node.Runs

variable {n : Node Group} (h : n.Runs)

include h

private theorem group? : n.group? = none := by rw [Node.group?, h.kind]

private theorem isVirtual : n.isVirtual = false := by
  rw [Node.isVirtual, h.kind]
  rfl

private theorem isSkipped : n.isSkipped = false := by
  rw [Node.isSkipped, h.mode]
  rfl

private theorem isBypassed : n.isBypassed = false := by
  rw [Node.isBypassed, h.mode]
  rfl

private theorem innerSites? : innerSites? n = .ok none := by rw [Workflow.innerSites?, h.group?]

private theorem expand : (Site.outer n).expand = .ok [.outer n] := by
  simp only [Site.expand, h.isSkipped, Bool.false_eq_true, if_false, h.innerSites?]
  rfl

private theorem isEmitted : (Site.outer n).isEmitted = true := by
  simp only [Site.isEmitted, Site.isVirtual, Site.isSkipped, h.isVirtual, h.isSkipped]
  rfl

private theorem isPassing : (Site.outer n).isPassing = false := by
  simp only [Site.isPassing, Site.isVirtual, Site.isBypassed, h.isVirtual, h.isBypassed]
  rfl

end Node.Runs

/-! ## Links -/

/-- The link as a reference to the slot that it leaves. -/
def Link.reference (l : Link) : Reference := ⟨l.origin.display, l.originSlot.val⟩

private theorem NodeId.display_toJson (id : NodeId) : id.toJson.display = id.key := by
  cases id <;> rfl

/-- A link refers to the output that it leaves. -/
theorem Link.Leaves.reference {l : Link} {o : NodeId} {i : Nat} (h : l.Leaves o i) :
    l.reference = ⟨o.key, i⟩ := by
  rw [Link.reference, h.1, h.2, NodeId.display_toJson]

private theorem Graph.inLink?_eq_incoming? {γ : Type} {g : Graph γ} {n : Node γ}
    (hn : g.at? n.id = some n)
    (hattached : n.isCutOff = false) (i : Nat) : g.inLink? n i = g.incoming? n.id i := by
  have hinside : ¬ (i : Int) < 0 := by omega
  rw [inLink?, hattached, if_neg Bool.false_ne_true, Node.inputLink?, if_neg hinside, incoming?,
    heldAt?, hn, Int.toNat_natCast, Option.bind_some]
  cases n.inputs[i]? <;> rfl

namespace Site

variable {g : Workflow} (hbooked : g.Booked) (hruns : ∀ n ∈ g.nodes, n.Runs)

include hbooked hruns

/-- Every slot resolves, and to the node at the other end of its link if it holds one. -/
theorem exists_resolve_of_runs (maxHops : Int) {n : Node Group} (hn : n ∈ g.nodes) (i : Nat) :
    ∃ found, (outer n).resolve g maxHops i = .ok found ∧
      referenceOf found = (g.incoming? n.id i).map Link.reference := by
  have hat := at?_of_mem hbooked.ids hn
  have hlink := inLink?_eq_incoming? hat (hruns n hn).attached i
  cases hl : g.incoming? n.id i with
  | none =>
    rw [hl] at hlink
    have hsource : (outer n).source g i = .ok none := by simp only [source, Workflow.source, hlink]
    refine ⟨none, ?_, rfl⟩
    simp only [resolve, hsource]
    rfl
  | some l =>
    rw [hl] at hlink
    obtain ⟨k, hk, hfound⟩ := Option.bind_eq_some_iff.1 hl
    rcases exists_of_heldAt? (Option.join_eq_some_iff.1 hk) with ⟨n', s, hn', hs, -⟩
    rw [hat, Option.some.injEq] at hn'
    subst hn'
    -- the node at the other end
    rcases hbooked.leaves l (List.mem_of_find?_eq_some hfound) with ⟨id, a, ks, hleaves, hlisted, -⟩
    rcases exists_of_listedAt? hlisted with ⟨o, _, ho, -, -⟩
    have horuns := hruns o (mem_of_at? ho)
    have hlookup : g.lookup? l.origin = .ok (some o) := by
      rw [hleaves.1]
      exact lookup?_of_at? ho
    have hunwrap : unwrap o l = .ok (outer o, l) := by rw [unwrap, horuns.group?]
    have hsource : (outer n).source g i = .ok (some (outer o, l)) := by
      simp only [source, Workflow.source, hlink, hlookup, bind, Except.bind, hunwrap]
      rfl
    have hposition : (position? n.inputs.length i).bind (n.inputs[·]?) = some s := by
      rw [position?_ofNat (List.getElem?_eq_some_iff.1 hs).1, Option.bind_some, hs]
    refine ⟨some ⟨outer o, l.originSlot, l⟩, ?_, ?_⟩
    · simp only [resolve, hsource, inputs, hposition, bind, Except.bind]
      unfold walk
      simp [horuns.isPassing]
    · simp only [referenceOf, Site.isVirtual, horuns.isVirtual, Site.id, id_of_at? ho, hleaves.2,
        hleaves.reference, Option.map_some, Bool.false_eq_true, if_false]

end Site

/-! ## Steps -/

namespace Site

/-- A site whose slots all resolve has a step. -/
theorem exists_linkInputs {g : Workflow} {maxHops : Int} {s : Site}
    (h : ∀ i : Nat, ∃ found, s.resolve g maxHops i = .ok found) (i : Nat) (slots : List InputSlot)
    (inputs : Members) : ∃ out, linkInputs g maxHops s i slots inputs = .ok out := by
  induction slots generalizing i inputs with
  | nil => exact ⟨inputs, rfl⟩
  | cons slot slots ih =>
    rcases h i with ⟨found, hfound⟩
    simp only [linkInputs, hfound, bind, Except.bind]
    cases referenceOf found with
    | none => exact ih (i + 1) inputs
    | some r => exact ih (i + 1) (inputs.set slot.name r.toJson)

private theorem exists_isBuilt {g : Workflow} {maxHops : Int} (titled : Bool) {s : Site}
    (h : ∀ i : Nat, ∃ found, s.resolve g maxHops i = .ok found) :
    ∃ step, s.IsBuilt g maxHops titled (s.id.key, step) := by
  rcases exists_linkInputs h 0 s.inputs s.literals with ⟨inputs, hinputs⟩
  refine ⟨⟨s.type, inputs, if titled then some ⟨s.title⟩ else none⟩, rfl, ?_⟩
  simp only [step, hinputs, bind, Except.bind, pure, Except.pure]

end Site

namespace Editor

/-- Widgets without hooks send their literals, and nothing else happens. -/
theorem exec_sentValues_of_silent {ws : List Widget} (hsilent : ∀ w ∈ ws, w.serializer = none)
    (node : NodeId) (i : Nat) (sent : Members) (e : Editor) :
    (sentValues node i ws sent).exec e =
      (.ok (Table.update sent ((ws.filter (·.isSent)).map fun w => (w.name, w.literal))), e) := by
  induction ws generalizing i sent with
  | nil => rfl
  | cons w ws ih =>
    have ih := ih fun u hu => hsilent u (List.mem_cons_of_mem w hu)
    have hserializer := hsilent w List.mem_cons_self
    rw [sentValues]
    split
    · rename_i hsent
      have hvalue : (outward (w.sentValue node i)).exec e = (.ok w.literal, e) := by
        rw [exec_outward, Widget.sentValue, Widget.literal, hserializer]
        rfl
      rw [Act.exec_bind, Act.exec_waitFor]
      dsimp only
      rw [Act.exec_bind, hvalue]
      dsimp only
      rw [ih]
      simp [hsent, Table.update]
    · rename_i hsent
      rw [ih]
      simp [hsent]

section Runs

variable {g : Workflow} (hbooked : g.Booked) (hruns : ∀ n ∈ g.nodes, n.Runs)

include hruns

include hbooked in
/-- The steps of running nodes are those of their sites. -/
theorem exists_expandSteps_of_runs (maxHops : Int) (titled : Bool) {ns : List (Node Group)}
    (hns : ns ⊆ g.nodes) (output : Output) (e : Editor) :
    ∃ steps, List.Forall₂ (Site.IsBuilt g maxHops titled) (ns.map Site.outer) steps ∧
      (expandSteps g maxHops titled (ns.map Site.outer) output).exec e =
        (.ok (Table.update output steps), e) := by
  induction ns generalizing output with
  | nil => exact ⟨[], .nil, rfl⟩
  | cons n ns ih =>
    have hn := hns List.mem_cons_self
    have hresolves : ∀ i : Nat, ∃ found, (Site.outer n).resolve g maxHops i = .ok found := fun i =>
      (Site.exists_resolve_of_runs hbooked hruns maxHops hn i).imp fun _ h => h.1
    rcases Site.exists_isBuilt titled hresolves with ⟨step, hbuilt⟩
    rcases ih (fun m hm => hns (List.mem_cons_of_mem n hm)) (output.set n.id.key step) with
      ⟨steps, hsteps, hexec⟩
    refine ⟨(n.id.key, step) :: steps, .cons hbuilt hsteps, ?_⟩
    have hsent := exec_sentValues_of_silent (fun w hw => ((hruns n hn).silent w hw).2)
      n.id 0 [] e
    have hbuild : (buildSteps g maxHops titled [.outer n] output).exec e =
        (.ok (output.set n.id.key step), e) := by
      rw [buildSteps, if_pos (hruns n hn).isEmitted]
      refine Act.exec_bind_eq_ok_iff.2 ⟨_, e, hsent, ?_⟩
      exact Act.exec_bind_eq_ok_iff.2 ⟨step, e, Act.exec_lift_eq_ok_iff.2 ⟨hbuilt.2, rfl⟩, rfl⟩
    refine Act.exec_bind_eq_ok_iff.2
      ⟨[.outer n], e, Act.exec_lift_eq_ok_iff.2 ⟨(hruns n hn).expand, rfl⟩, ?_⟩
    exact Act.exec_bind_eq_ok_iff.2 ⟨_, e, hbuild, hexec⟩

/-- Preparing running nodes does nothing. -/
theorem exec_prepare_of_runs {e : Editor} (he : e.graph = g) (order : List NodeId) :
    (prepare order).exec e = (.ok ⟨⟩, e) := by
  refine Act.exec_each_of_nothing fun id _ => ?_
  rw [prepareNode, Act.exec_bind, Act.exec_get]
  dsimp only
  cases hn : e.graph.at? id with
  | none => rfl
  | some n =>
    rw [he] at hn
    have hrun := hruns n (mem_of_at? hn)
    have hsites : hookSites n = .ok [.outer n] := by
      rw [hookSites, hrun.innerSites?]
      rfl
    have hwidgets : e.widgetsAt (Site.outer n).place = n.widgets := by
      rw [widgetsAt, he, Site.place, siteAt?_outer, id_of_at? hn, hn]
      rfl
    have hbefore : (runBefore (Site.outer n).place).exec e = (.ok ⟨⟩, e) := by
      rw [runBefore, Act.exec_bind, Act.exec_get]
      dsimp only
      rw [hwidgets]
      refine Act.exec_each_of_nothing fun i _ => ?_
      cases hw : n.widgets[i]? with
      | none => rfl
      | some w =>
        rw [Option.bind_some, (hrun.silent w (List.mem_of_getElem? hw)).1]
        rfl
    have hpush : ([Site.outer n]).filter (·.isVirtual) = [] := by
      simp [Site.isVirtual, hrun.isVirtual]
    refine Act.exec_bind_eq_ok_iff.2 ⟨_, e, Act.exec_lift_eq_ok_iff.2 ⟨hsites, rfl⟩, ?_⟩
    refine Act.exec_bind_eq_ok_iff.2 ⟨⟨⟩, e, ?_, ?_⟩
    · refine Act.exec_each_of_nothing fun s hs => ?_
      rw [List.mem_singleton.1 hs]
      exact hbefore
    · refine Act.exec_bind_eq_ok_iff.2
        ⟨none, e, Act.exec_lift_eq_ok_iff.2 ⟨hrun.innerSites?, rfl⟩, ?_⟩
      rw [Option.getD_none, hpush]
      rfl

include hbooked in
/-- A workflow whose nodes all run compiles if it can be ordered, and stays as it is. -/
theorem exec_compile_of_runs {e : Editor} (he : e.graph = g) {order : List NodeId}
    (horder : g.plan = .ok order) :
    ∃ steps, List.Forall₂ (Site.IsBuilt g e.settings.maxHops e.settings.devMode)
        ((order.filterMap g.at?).map Site.outer) steps ∧
      compile.exec e = (.ok ⟨Workflow.save g, Output.prune (Table.update [] steps)⟩, e) := by
  subst he
  have hns : order.filterMap (Graph.at? e.graph) ⊆ e.graph.nodes := by
    intro n hn
    rcases List.mem_filterMap.1 hn with ⟨id, -, hat⟩
    exact mem_of_at? hat
  rcases exists_expandSteps_of_runs hbooked hruns e.settings.maxHops e.settings.devMode hns [] e with
    ⟨steps, hsteps, hexec⟩
  refine ⟨steps, hsteps, exec_compile_eq_ok_iff.2
    ⟨order, e, _, horder, exec_prepare_of_runs hruns rfl order, ?_, rfl⟩⟩
  exact Act.exec_bind_eq_ok_iff.2 ⟨_, e, hexec, rfl⟩

end Runs

end Editor

end NodeFlow
