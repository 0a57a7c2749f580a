import NodeFlow.Proofs.Compile.Idempotence
import NodeFlow.Proofs.Load.Refusal

/-!
# What stops a compilation

Links and groups may refer to nodes and slots that are not there: such references are passed over.
A compilation stops at a circle or an endless chain.  It also stops at a few references that cannot
even be looked up: at endpoints that are arrays, objects or texts that look like numbers and are
none, and at output slots of groups that lie before the first one.

Main results:

- Type `Workflow.Obstructed`: a reference that stops a compilation without being a knot; whether
  there is one can be decided.
- Theorem `Workflow.exists_source`: the producer behind an input, if nothing obstructs the way.
- Theorems `Editor.exec_compile_of_not_planned` and `Editor.exec_compile_of_planned`: circles stop a
  compilation before any step is built, and endless chains while steps are built.
- Theorem `Editor.compile_onlyKnots`: only knots stop the compilation of a ready graph.
-/

namespace NodeFlow

/-! ## Knots -/

/-- A circle or an endless chain. -/
def Fault.IsKnot (f : Fault) : Prop :=
  (∃ ids, f = .cyclic ids) ∨ ∃ node slot hops, f = .endlessChain node slot hops

/-- Nodes that depend on each other in a circle. -/
def Fault.IsCircle (f : Fault) : Prop := ∃ ids, f = .cyclic ids

/-- A chain of passing nodes that does not end within the bound. -/
def Fault.IsEndless (f : Fault) : Prop := ∃ node slot hops, f = .endlessChain node slot hops

private theorem Fault.IsCircle.isKnot {f : Fault} (h : f.IsCircle) : f.IsKnot := .inl h

private theorem Fault.IsEndless.isKnot {f : Fault} (h : f.IsEndless) : f.IsKnot := .inr h

/-- A computation that fails at knots only. -/
abbrev OnlyKnots {α : Type} (x : Except Fault α) : Prop := FailsWith Fault.IsKnot x

/-- A computation that fails at circles only. -/
abbrev OnlyCircles {α : Type} (x : Except Fault α) : Prop := FailsWith Fault.IsCircle x

/-- A computation that fails at endless chains only. -/
abbrev OnlyEndless {α : Type} (x : Except Fault α) : Prop := FailsWith Fault.IsEndless x

/-! ## References of links -/

namespace Graph

variable {γ : Type} {g : Graph γ}

/-- An input of a node of the graph holds the link. -/
def Holds (g : Graph γ) (l : Link) : Prop :=
  ∃ n ∈ g.nodes, ∃ slot ∈ n.inputs, slot.link.bind g.link? = some l

/-- The links that inputs of nodes hold. -/
def held (g : Graph γ) : List Link :=
  g.nodes.flatMap fun n => n.inputs.filterMap fun slot => slot.link.bind g.link?

private theorem mem_held {l : Link} : l ∈ g.held ↔ g.Holds l := by
  simp only [held, Holds, List.mem_flatMap, List.mem_filterMap]

private theorem holds_of_inLink? {n : Node γ} (hn : n ∈ g.nodes) {slot : Int} {l : Link}
    (h : g.inLink? n slot = some l) : g.Holds l := by
  unfold inLink? at h
  split at h
  · cases h
  · rcases Option.bind_eq_some_iff.1 h with ⟨id, hid, hl⟩
    unfold Node.inputLink? at hid
    split at hid
    · cases hid
    · rcases Option.bind_eq_some_iff.1 hid with ⟨s, hs, hlink⟩
      exact ⟨n, hn, s, List.mem_of_getElem? hs, by rw [hlink]; exact hl⟩

/-- The order can be found, or there is a circle, if the origins of links can be looked up. -/
theorem plan_onlyCircles (h : ∀ l, g.Holds l → ¬ g.Refuses l.origin) : OnlyCircles g.plan := by
  have hproducers : ∀ (slots : List InputSlot) (found : List NodeId),
      (∀ slot ∈ slots, ∀ l, slot.link.bind g.link? = some l → ¬ g.Refuses l.origin) →
      ∃ needs, g.producers slots found = .ok needs := by
    intro slots
    induction slots with
    | nil => exact fun found _ => ⟨found, rfl⟩
    | cons slot slots ih =>
      intro found hslots
      have hproducer : ∃ id?, g.producer? slot = .ok id? := by
        unfold producer?
        cases hl : slot.link.bind g.link? with
        | none => exact ⟨none, rfl⟩
        | some l =>
          rcases exists_lookup (hslots slot List.mem_cons_self l hl) with ⟨origin, horigin⟩
          simp only [horigin]
          exact ⟨_, rfl⟩
      rcases hproducer with ⟨id?, hid⟩
      have hrest := fun found => ih found fun s hs => hslots s (List.mem_cons_of_mem slot hs)
      rw [producers, hid]
      cases id? with
      | none => exact hrest found
      | some id => exact hrest _
  have hwaiting : ∀ ns : List (Node γ), (∀ n ∈ ns, n ∈ g.nodes) →
      ∃ ws, g.waitingList ns = .ok ws := by
    intro ns
    induction ns with
    | nil => exact fun _ => ⟨[], rfl⟩
    | cons n ns ih =>
      intro hns
      rcases hproducers n.inputs [] (fun slot hslot l hl =>
        h l ⟨n, hns n List.mem_cons_self, slot, hslot, hl⟩) with ⟨needs, hneeds⟩
      rcases ih fun m hm => hns m (List.mem_cons_of_mem n hm) with ⟨ws, hws⟩
      exact ⟨_, Fault.bind_eq_ok_iff.2 ⟨needs, hneeds, Fault.bind_eq_ok_iff.2 ⟨ws, hws, rfl⟩⟩⟩
  rcases hwaiting g.candidates fun n hn => g.candidates_perm.mem_iff.1 hn with ⟨ws, hws⟩
  rw [plan, hws]
  simp only [bind, Except.bind]
  split
  · exact FailsWith.ok _
  · intro f hf
    cases hf
    exact ⟨_, rfl⟩

private theorem planned_onlyCircles (h : ∀ l, g.Holds l → ¬ g.Refuses l.origin) :
    OnlyCircles g.planned :=
  (plan_onlyCircles h).bind fun _ _ => FailsWith.ok _

/-- Whether a value is refused depends on ids only. -/
theorem refuses_mapNodes {f : Node γ → Node γ} (hf : IsNeutral f) {v : Json} :
    (g.mapNodes f).Refuses v ↔ g.Refuses v := by
  rw [refuses_iff, refuses_iff, lookup?_mapNodes hf]
  cases g.lookup? v with
  | error e => exact ⟨fun _ => ⟨e, rfl⟩, fun _ => ⟨e, rfl⟩⟩
  | ok found =>
    constructor <;>
    · rintro ⟨e, he⟩
      cases he

/-- Which links inputs hold depends on inputs only. -/
theorem holds_mapNodes {f : Node γ → Node γ} (hf : IsNeutral f) {l : Link} :
    (g.mapNodes f).Holds l ↔ g.Holds l := by
  constructor
  · rintro ⟨m, hm, slot, hslot, hl⟩
    rcases List.mem_map.1 hm with ⟨n, hn, rfl⟩
    rw [hf.inputs] at hslot
    exact ⟨n, hn, slot, hslot, hl⟩
  · rintro ⟨n, hn, slot, hslot, hl⟩
    exact ⟨f n, List.mem_map_of_mem hn, slot, by rwa [hf.inputs], hl⟩

end Graph

namespace Workflow

/-- A reference stops a compilation: an input holds a link from an endpoint that cannot be looked
up, or from an output of an active group before its first one, or an output of an active group leads
to an id that cannot be looked up. -/
inductive Obstructed (g : Workflow) : Prop
  | origin {l : Link} (hl : Graph.Holds g l) (h : Graph.Refuses g l.origin)
  | inside {host : Node Group} {x : Group} {l : Link} (hhost : host ∈ g.nodes)
      (hx : host.group? = some x) (hl : x.graph.Holds l) (h : x.graph.Refuses l.origin)
  | output {host : Node Group} {x : Group} {l : Link} (hl : Graph.Holds g l)
      (hhost : Graph.lookup? g l.origin = .ok (some host)) (hx : host.group? = some x)
      (hmode : host.mode = normalMode) (h : l.originSlot.val < -(x.outputs.length : Int))
  | port {host : Node Group} {x : Group} {port : PortRef} (hhost : host ∈ g.nodes)
      (hx : host.group? = some x) (hmode : host.mode = normalMode) (hport : port ∈ x.outputs)
      (h : x.graph.Refuses port.node.toJson)

variable {g g' : Workflow}

/-- Whether a link starts before the first output of an active group. -/
def startsBefore (g : Workflow) (l : Link) : Bool :=
  match Graph.lookup? g l.origin with
  | .ok (some host) =>
    host.mode == normalMode &&
      host.group?.any fun x => l.originSlot.val < -(x.outputs.length : Int)
  | _ => false

private theorem startsBefore_iff {l : Link} : startsBefore g l = true ↔
    ∃ host x, Graph.lookup? g l.origin = .ok (some host) ∧ host.group? = some x ∧
      host.mode = normalMode ∧ l.originSlot.val < -(x.outputs.length : Int) := by
  unfold startsBefore
  rcases Graph.lookup? g l.origin with f | _ | host
  · simp
  · simp
  · cases hx : host.group? <;> simp [hx]

/-- Whether a group stops a compilation. -/
def stopsInside (host : Node Group) (x : Group) : Bool :=
  x.graph.held.any (fun l => x.graph.Refuses l.origin) ||
    (host.mode == normalMode && x.outputs.any fun port => x.graph.Refuses port.node.toJson)

instance (g : Workflow) : Decidable (Obstructed g) :=
  decidable_of_iff ((Graph.held g).any (fun l => Graph.Refuses g l.origin || startsBefore g l) ||
      g.nodes.any fun host => host.group?.any (stopsInside host)) <| by
    simp only [Bool.or_eq_true, List.any_eq_true, Graph.mem_held, decide_eq_true_eq,
      startsBefore_iff, Option.any_eq_true, stopsInside, Bool.and_eq_true, beq_iff_eq]
    constructor
    · rintro (⟨l, hl, h | ⟨host, x, hhost, hx, hmode, h⟩⟩ |
        ⟨host, hhost, x, hx, ⟨l, hl, h⟩ | ⟨hmode, port, hport, h⟩⟩)
      · exact .origin hl h
      · exact .output hl hhost hx hmode h
      · exact .inside hhost hx hl h
      · exact .port hhost hx hmode hport h
    · intro h
      cases h with
      | origin hl h => exact .inl ⟨_, hl, .inl h⟩
      | inside hhost hx hl h => exact .inr ⟨_, hhost, _, hx, .inl ⟨_, hl, h⟩⟩
      | output hl hhost hx hmode h => exact .inl ⟨_, hl, .inr ⟨_, _, hhost, hx, hmode, h⟩⟩
      | port hhost hx hmode hport h => exact .inr ⟨_, hhost, _, hx, .inr ⟨hmode, _, hport, h⟩⟩

private theorem refuses_skeleton {v : Json} : Graph.Refuses (skeleton g) v ↔ Graph.Refuses g v :=
  (Graph.refuses_mapNodes Node.isNeutral_hollow).trans (Graph.refuses_mapNodes Node.isNeutral_bare)

private theorem holds_skeleton {l : Link} : Graph.Holds (skeleton g) l ↔ Graph.Holds g l :=
  (Graph.holds_mapNodes Node.isNeutral_hollow).trans (Graph.holds_mapNodes Node.isNeutral_bare)

/-- Values of widgets obstruct nothing. -/
theorem obstructed_skeleton : Obstructed (skeleton g) ↔ Obstructed g := by
  have hgroup : ∀ n : Node Group, n.bare.hollow.group? = n.group?.map Group.bare :=
    fun n => Node.group?_hollow n.bare
  have hrefuses : ∀ (x : Group) (v : Json), x.bare.graph.Refuses v ↔ x.graph.Refuses v :=
    fun _ _ => Graph.refuses_mapNodes Node.isNeutral_bare
  have hholds : ∀ (x : Group) (l : Link), x.bare.graph.Holds l ↔ x.graph.Holds l :=
    fun _ _ => Graph.holds_mapNodes Node.isNeutral_bare
  constructor
  · intro h
    cases h with
    | origin hl h => exact .origin (holds_skeleton.1 hl) (refuses_skeleton.1 h)
    | inside hhost hx hl h =>
      rcases mem_skeleton_nodes.1 hhost with ⟨n, hn, rfl⟩
      rw [hgroup] at hx
      rcases Option.map_eq_some_iff.1 hx with ⟨x, hy, rfl⟩
      exact .inside hn hy ((hholds x _).1 hl) ((hrefuses x _).1 h)
    | @output _ _ l hl hhost hx hmode h =>
      rw [lookup?_skeleton] at hhost
      rcases Fault.map_eq_ok_iff.1 hhost with ⟨found, hfound, hsame⟩
      rcases Option.map_eq_some_iff.1 hsame with ⟨n, rfl, rfl⟩
      rw [hgroup] at hx
      rcases Option.map_eq_some_iff.1 hx with ⟨x, hy, rfl⟩
      have hlt : l.originSlot.val < -(x.outputs.length : Int) := h
      exact .output (holds_skeleton.1 hl) hfound hy hmode hlt
    | port hhost hx hmode hport h =>
      rcases mem_skeleton_nodes.1 hhost with ⟨n, hn, rfl⟩
      rw [hgroup] at hx
      rcases Option.map_eq_some_iff.1 hx with ⟨x, hy, rfl⟩
      exact .port hn hy hmode hport ((hrefuses x _).1 h)
  · have hbare : ∀ {n : Node Group} {x : Group}, n.group? = some x →
        n.bare.hollow.group? = some x.bare := by
      intro n x hx
      rw [hgroup, hx, Option.map_some]
    intro h
    cases h with
    | origin hl h => exact .origin (holds_skeleton.2 hl) (refuses_skeleton.2 h)
    | inside hhost hx hl h =>
      exact .inside (mem_skeleton_nodes.2 ⟨_, hhost, rfl⟩) (hbare hx) ((hholds _ _).2 hl)
        ((hrefuses _ _).2 h)
    | @output host _ l hl hhost hx hmode h =>
      have hfound : Graph.lookup? (skeleton g) l.origin = .ok (some host.bare.hollow) := by
        rw [lookup?_skeleton, hhost]
        rfl
      exact .output (holds_skeleton.2 hl) hfound (hbare hx) hmode h
    | port hhost hx hmode hport h =>
      exact .port (mem_skeleton_nodes.2 ⟨_, hhost, rfl⟩) (hbare hx) hmode hport ((hrefuses _ _).2 h)

/-- Whether a workflow is obstructed does not depend on values of widgets. -/
theorem obstructed_of_skeleton_eq (h : skeleton g' = skeleton g) :
    Obstructed g' ↔ Obstructed g := by
  rw [← obstructed_skeleton, h, obstructed_skeleton]

/-! ## The producer behind an input -/

variable (hclear : ¬ Obstructed g)

include hclear

private theorem exists_innerProducer {host : Node Group} {x : Group} (hhost : host ∈ g.nodes)
    (hx : host.group? = some x) (hmode : host.mode = normalMode) {l : Link}
    (hslot : -(x.outputs.length : Int) ≤ l.originSlot.val) :
    ∃ found, innerProducer? host x l = .ok found := by
  unfold innerProducer?
  split
  · exact ⟨none, rfl⟩
  · rename_i hlt
    have hposition : ∃ p, position? x.outputs.length l.originSlot.val = some p := by
      unfold position?
      split
      · rw [if_pos (by omega)]
        exact ⟨_, rfl⟩
      · rw [if_pos (by omega)]
        exact ⟨_, rfl⟩
    rcases hposition with ⟨p, hp⟩
    obtain ⟨port, hget⟩ : ∃ port, x.outputs[p]? = some port :=
      ⟨_, List.getElem?_eq_getElem (position?_lt hp)⟩
    have hfind : ∃ found, x.graph.find? port.node = .ok found := Graph.exists_lookup fun h =>
      hclear (.port hhost hx hmode (List.mem_of_getElem? hget) h)
    rcases hfind with ⟨found, hfound⟩
    rw [hp, Option.bind_some, hget]
    simp only [hfound, bind, Except.bind]
    cases found <;> exact ⟨_, rfl⟩

private theorem exists_workflowSource {n : Node Group} (hn : n ∈ g.nodes) (slot : Int) :
    ∃ found, Workflow.source g n slot = .ok found := by
  unfold Workflow.source
  cases hlink : g.inLink? n slot with
  | none => exact ⟨none, rfl⟩
  | some l =>
    have hheld := Graph.holds_of_inLink? hn hlink
    rcases Graph.exists_lookup fun h => hclear (.origin hheld h) with ⟨origin, horigin⟩
    simp only [horigin, bind, Except.bind]
    cases origin with
    | none => exact ⟨none, rfl⟩
    | some origin =>
      have hunwrap : ∃ found, unwrap origin l = .ok found := by
        unfold unwrap
        cases hx : origin.group? with
        | none => exact ⟨_, rfl⟩
        | some x =>
          simp only
          split
          · rename_i hmode
            have hslot : -(x.outputs.length : Int) ≤ l.originSlot.val := by
              by_contra hlt
              exact hclear (.output hheld horigin hx hmode (Int.not_le.1 hlt))
            rcases exists_innerProducer hclear (Graph.mem_of_lookup? horigin) hx hmode hslot with
              ⟨found, hfound⟩
            rw [hfound]
            exact ⟨_, rfl⟩
          · exact ⟨_, rfl⟩
      rcases hunwrap with ⟨found, hfound⟩
      simp only [hfound]
      exact ⟨some found, rfl⟩

/-- The producer behind an input can be found, or there is none, if nothing is in the way. -/
theorem exists_source {s : Site} (hs : s ∈ sites g) (slot : Int) :
    ∃ found, s.source g slot = .ok found := by
  cases s with
  | outer n => exact exists_workflowSource hclear (mem_sites_outer.1 hs) slot
  | inner host x n =>
    rcases mem_sites_inner.1 hs with ⟨hhost, hx, hn⟩
    unfold Site.source
    cases hlink : x.graph.inLink? n slot with
    | some l =>
      have hheld := Graph.holds_of_inLink? hn hlink
      rcases Graph.exists_lookup fun h => hclear (.inside hhost hx hheld h) with ⟨origin, horigin⟩
      simp only [hlink, horigin, bind, Except.bind]
      cases origin with
      | none => exact ⟨none, rfl⟩
      | some origin => exact ⟨_, rfl⟩
    | none =>
      simp only [hlink]
      split
      · exact ⟨none, rfl⟩
      · rename_i i _
        rcases exists_workflowSource hclear hhost i with ⟨found, hfound⟩
        simp only [hfound, bind, Except.bind]
        cases found with
        | none => exact ⟨none, rfl⟩
        | some found => exact ⟨_, rfl⟩

end Workflow

/-! ## Steps -/

namespace Site

open Workflow

variable {g : Workflow}

variable (hclear : ¬ Obstructed g)

include hclear

/-- A walk ends, or the chain is endless. -/
theorem walk_onlyEndless {asker : NodeId} {slot : Int} {wanted : String} {left hops : Nat}
    {seen : List (NodeId × Int)} {p : Site} {l : Link} (hp : p ∈ sites g) :
    OnlyEndless (walk g asker slot wanted left hops seen p l) := by
  induction left generalizing hops seen p l with
  | zero =>
    intro f h
    rcases walk_zero_cases h with hend | ⟨-, hend⟩
    · cases hend
    · cases hend
      exact ⟨_, _, _, rfl⟩
  | succ left ih =>
    intro f h
    rcases walk_succ_cases h with hend | ⟨-, ⟨next, f', hsource, -⟩ | hend |
      ⟨q, l', ⟨next, -, hsource⟩, ⟨-, hend⟩ | h⟩⟩
    · cases hend
    · rcases exists_source hclear hp next with ⟨found, hfound⟩
      rw [hfound] at hsource
      cases hsource
    · cases hend
    · cases hend
      exact ⟨_, _, _, rfl⟩
    · exact ih (source_mem_sites hp hsource) f h

private theorem resolve_onlyEndless {s : Site} (hs : s ∈ sites g) (maxHops : Int) {i : Nat}
    (hi : i < s.inputs.length) : OnlyEndless (s.resolve g maxHops i) := by
  rcases exists_source hclear hs i with ⟨found, hfound⟩
  rw [resolve, hfound]
  rcases found with _ | ⟨p, l⟩
  · exact FailsWith.ok _
  · simp only [bind, Except.bind]
    rw [position?_ofNat hi, Option.bind_some, List.getElem?_eq_getElem hi]
    exact walk_onlyEndless hclear (source_mem_sites hs hfound)

private theorem step_onlyEndless {s : Site} (hs : s ∈ sites g) (maxHops : Int) (titled : Bool)
    (sent : Members) : OnlyEndless (s.step g maxHops titled sent) := by
  have hlink : ∀ (slots : List InputSlot) (i : Nat) (inputs : Members),
      i + slots.length = s.inputs.length → OnlyEndless (linkInputs g maxHops s i slots inputs) := by
    intro slots
    induction slots with
    | nil => exact fun _ _ _ => FailsWith.ok _
    | cons slot slots ih =>
      intro i inputs hlength
      rw [List.length_cons] at hlength
      rw [linkInputs]
      refine (resolve_onlyEndless hclear hs maxHops (by omega)).bind fun found _ => ?_
      split
      · exact ih (i + 1) _ (by omega)
      · exact ih (i + 1) _ (by omega)
  exact (hlink s.inputs 0 sent (Nat.zero_add _)).bind fun _ _ => FailsWith.ok _

end Site

/-! ## Preparation -/

namespace Workflow

variable {g : Workflow}

private theorem innerSites?_onlyCircles (hclear : ¬ Obstructed g) {n : Node Group}
    (hn : n ∈ g.nodes) : OnlyCircles (innerSites? n) := by
  unfold innerSites?
  split
  · exact FailsWith.ok _
  · rename_i x hx
    refine (Graph.planned_onlyCircles fun l hl h => hclear (.inside hn hx hl h)).bind ?_
    exact fun _ _ => FailsWith.ok _

/-- Where the orders inside groups can be found, nodes can be expanded. -/
theorem Planned.innerSites?_failsWith {P : Fault → Prop} (hplanned : Planned g) {n : Node Group}
    (hn : n ∈ g.nodes) : FailsWith P (innerSites? n) := by
  unfold innerSites?
  split
  · exact FailsWith.ok _
  · rename_i x hx
    rcases hplanned.inner n hn x hx with ⟨order, horder⟩
    rw [Graph.planned, horder]
    exact FailsWith.ok _

/-- Expanding a node fails only with what looking for the sites inside it fails with. -/
theorem expand_failsWith {P : Fault → Prop} {n : Node Group} (h : FailsWith P (innerSites? n)) :
    FailsWith P (Site.outer n).expand := by
  unfold Site.expand
  simp only
  split
  · exact FailsWith.ok _
  · exact h.bind fun _ _ => FailsWith.ok _

private theorem allCopies_failsWith {P : Fault → Prop} {β : Type}
    {copies : β → Except Fault (List (Copy Cell))} {xs : List β}
    (h : ∀ x ∈ xs, FailsWith P (copies x)) : FailsWith P (allCopies copies xs) := by
  induction xs with
  | nil => exact FailsWith.ok _
  | cons x xs ih =>
    refine (h x List.mem_cons_self).bind fun front _ => ?_
    exact (ih fun y hy => h y (List.mem_cons_of_mem x hy)).bind fun _ _ => FailsWith.ok _

/-- The widgets of an aimed graph without hooks take every value. -/
theorem exists_copiesOf {γ : Type} {g : Graph γ} (haimed : g.Aimed)
    (hsilent : g.AllWidgets Widget.IsSilent) (id : NodeId) : ∃ cs, g.copiesOf id = .ok cs := by
  have htell : ∀ c, g.tell c = .ok () := by
    intro c
    rw [Graph.tell]
    cases hw : g.widgetAt? c with
    | none => rfl
    | some e =>
      rcases Graph.widgetAt?_eq_some.1 hw with ⟨hn, hget⟩
      have hcallback := (hsilent _ (Graph.mem_of_at? hn) _ (List.mem_of_getElem? hget)).callback
      rw [Option.map_some, Option.getD_some, Widget.told, hcallback]
  have htellAll : ∀ places, g.tellAll places = .ok () := by
    intro places
    induction places with
    | nil => rfl
    | cons c places ih =>
      rw [Graph.tellAll, htell]
      exact ih
  unfold Graph.copiesOf
  cases hn : g.at? id with
  | none => exact ⟨[], rfl⟩
  | some n =>
    simp only
    split
    · rename_i hprimitive
      rw [Bool.and_eq_true] at hprimitive
      rcases haimed n (Graph.mem_of_at? hn) hprimitive.1 with ⟨places, hplaces⟩
      rw [hplaces]
      simp only [htellAll, bind, Except.bind]
      exact ⟨_, rfl⟩
    · exact ⟨[], rfl⟩

/-- A preparation of a ready graph fails where the order inside a group cannot be found. -/
theorem copies_failsWith {P : Fault → Prop} (hready : IsReady g)
    (hinside : ∀ n ∈ g.nodes, FailsWith P (innerSites? n)) (order : List NodeId) :
    FailsWith P (copies g order) := by
  have hinner : ∀ host, (innerGraph g host).Aimed := by
    intro host
    rcases innerGraph_cases g host with hempty | ⟨n, hn, x, hx, hsame⟩
    · rw [hempty]
      exact fun _ hm => absurd hm List.not_mem_nil
    · rw [hsame]
      exact hready.aimedInside n hn x hx
  have hat : ∀ place, FailsWith P (copiesAt g place) := by
    intro place
    cases place with
    | outer id =>
      rcases exists_copiesOf hready.aimed hready.silent.outer id with ⟨cs, hcs⟩
      rw [copiesAt, hcs]
      exact FailsWith.ok _
    | inner host id =>
      rcases exists_copiesOf (hinner host) (hready.silent.innerGraph host) id with ⟨cs, hcs⟩
      rw [copiesAt, hcs]
      exact FailsWith.ok _
  refine allCopies_failsWith fun id _ => ?_
  unfold copiesFor
  split
  · exact FailsWith.ok _
  · rename_i n hn
    refine ((hinside n (Graph.mem_of_at? hn)).bind ?_).bind ?_
    · exact fun _ _ => FailsWith.ok _
    · exact fun places _ => allCopies_failsWith fun place _ => hat place

/-- Where the orders inside groups can be found, the copies of a ready graph are known. -/
theorem Planned.exists_copies (hplanned : Planned g) (hready : IsReady g) (order : List NodeId) :
    ∃ cs, copies g order = .ok cs := by
  have hnever : FailsWith (fun _ => False) (copies g order) :=
    copies_failsWith hready (fun n hn => hplanned.innerSites?_failsWith hn) order
  cases hcopies : copies g order with
  | error f => exact (hnever f hcopies).elim
  | ok cs => exact ⟨cs, rfl⟩

end Workflow

/-! ## Whole compilations -/

/-- An action that fails with faults of one sort only, whatever state it starts from. -/
def Act.StopsWith {σ α : Type} (P : Fault → Prop) (act : Act σ α) : Prop :=
  ∀ s, FailsWith P (act.exec s).1

namespace Act.StopsWith

variable {σ α β : Type} {P : Fault → Prop}

private theorem pure (a : α) : (pure a : Act σ α).StopsWith P := fun _ => FailsWith.ok a

private theorem bind {act : Act σ α} (h : act.StopsWith P) {f : α → Act σ β}
    (hf : ∀ a, (f a).StopsWith P) : (act >>= f).StopsWith P := by
  intro s
  rw [exec_bind]
  rcases hact : act.exec s with ⟨e | a, t⟩
  · intro e' he
    cases he
    exact h s e (congrArg Prod.fst hact)
  · exact hf a t

private theorem lift_bind {x : Except Fault α} (hx : FailsWith P x) {f : α → Act σ β}
    (hf : ∀ a, x = .ok a → (f a).StopsWith P) : (Act.lift x >>= f).StopsWith P := by
  intro s
  rw [exec_bind, exec_lift]
  cases hvalue : x with
  | error e =>
    intro e' he
    cases he
    exact hx e hvalue
  | ok a => exact hf a hvalue s

end Act.StopsWith

namespace Editor

open Workflow

section Build

variable {P : Fault → Prop} {g : Workflow} {maxHops : Int} {titled : Bool}

private theorem sentValues_stopsWith {ws : List Widget} (hsilent : ∀ w ∈ ws, w.IsSilent)
    (node : NodeId) (i : Nat) (sent : Members) : (sentValues node i ws sent).StopsWith P := by
  induction ws generalizing i sent with
  | nil => exact .pure _
  | cons w ws ih =>
    have ih := fun i sent => ih (fun u hu => hsilent u (List.mem_cons_of_mem w hu)) i sent
    have hvalue : (outward (w.sentValue node i)).StopsWith P := by
      rw [Widget.sentValue, (hsilent w List.mem_cons_self).serializer]
      exact fun _ => FailsWith.ok w.value
    have hwait : (Act.waitFor (σ := Editor) w.sendTicks).StopsWith P := by
      intro e
      rw [Act.exec_waitFor]
      exact FailsWith.ok _
    rw [sentValues]
    split
    · exact hwait.bind fun _ => hvalue.bind fun v => ih _ _
    · exact ih _ _

variable (hsteps : ∀ s ∈ sites g, ∀ sent, FailsWith P (s.step g maxHops titled sent))
  (hsilent : AllWidgets Widget.IsSilent g)

include hsteps hsilent

private theorem buildSteps_stopsWith {sites : List Site}
    (hsites : ∀ s ∈ sites, s ∈ Workflow.sites g)
    (output : Output) : (buildSteps g maxHops titled sites output).StopsWith P := by
  induction sites generalizing output with
  | nil => exact .pure _
  | cons s sites ih =>
    have ih := ih fun t ht => hsites t (List.mem_cons_of_mem s ht)
    have hs := hsites s List.mem_cons_self
    rw [buildSteps]
    split
    · refine (sentValues_stopsWith (hsilent.of_mem_sites hs) _ _ _).bind fun sent => ?_
      exact .lift_bind (hsteps s hs sent) fun _ _ => ih _
    · exact ih _

/-- Building fails where the expansion of a node or the step of a site does. -/
theorem compileSites_stopsWith {nodes : List (Node Group)} (hnodes : ∀ n ∈ nodes, n ∈ g.nodes)
    (hexpand : ∀ n ∈ nodes, FailsWith P (Site.outer n).expand) :
    (compileSites g maxHops titled (nodes.map Site.outer)).StopsWith P := by
  have hbuild : ∀ output, (expandSteps g maxHops titled (nodes.map Site.outer) output).StopsWith P := by
    induction nodes with
    | nil => exact fun _ => .pure _
    | cons n nodes ih =>
      intro output
      have ih := ih (fun m hm => hnodes m (List.mem_cons_of_mem n hm))
        fun m hm => hexpand m (List.mem_cons_of_mem n hm)
      refine .lift_bind (hexpand n List.mem_cons_self) fun met hmet => ?_
      have hmem := mem_sites_of_expand (hnodes n List.mem_cons_self) hmet
      exact (buildSteps_stopsWith hsteps hsilent hmem _).bind ih
  exact (hbuild []).bind fun _ => .pure _

end Build

private theorem mem_nodes_of_order {g : Workflow} {order : List NodeId} {n : Node Group}
    (hn : n ∈ order.filterMap g.at?) : n ∈ g.nodes := by
  rcases List.mem_filterMap.1 hn with ⟨id, -, hat⟩
  exact Graph.mem_of_at? hat

/-- Where the orders are known and no reference is in the way, building stops at endless chains only. -/
theorem compileSites_onlyEndless {g : Workflow} (hclear : ¬ Obstructed g) (hplanned : Planned g)
    (hsilent : AllWidgets Widget.IsSilent g) (maxHops : Int) (titled : Bool) (order : List NodeId) :
    (compileSites g maxHops titled ((order.filterMap g.at?).map Site.outer)).StopsWith
      Fault.IsEndless :=
  compileSites_stopsWith (fun _ hs sent => Site.step_onlyEndless hclear hs maxHops titled sent)
    hsilent (fun _ hn => mem_nodes_of_order hn)
    fun _ hn => expand_failsWith (hplanned.innerSites?_failsWith (mem_nodes_of_order hn))

section Ready

variable {e : Editor} (hready : e.graph.IsReady) (hclear : ¬ Obstructed e.graph)

include hready

/-- A ready graph with known orders is prepared. -/
theorem exists_prepared (hplanned : Planned e.graph) (order : List NodeId) : ∃ g cs o,
      (prepare order).exec e = (.ok ⟨⟩, { e with graph := g, outside := o }) ∧
        skeleton g = skeleton e.graph ∧ copies e.graph order = .ok cs ∧
        valueAt g = Copy.run cs (valueAt e.graph) := by
  rcases prepare_makes hready.distinct (hready.silent.imp fun w hw => hw.isSteady) order e rfl with
    ⟨g, o, hprepare, hskeleton, hvalues, -⟩
  rcases hplanned.exists_copies hready order with ⟨cs, hcopies⟩
  rw [hcopies] at hprepare
  exact ⟨g, cs, o, hprepare, hskeleton, hcopies, hvalues cs hcopies⟩

include hclear

/-- Without an order, of the workflow or inside a group, a compilation names a circle. -/
theorem exec_compile_of_not_planned (hcircle : ¬ Planned e.graph) :
    ∃ f e', compile.exec e = (.error f, e') ∧ f.IsCircle ∧
      ∀ f', e.graph.plan = .error f' → f = f' := by
  cases horder : e.graph.plan with
  | error f =>
    refine ⟨f, e, exec_compile_of_plan horder,
      Graph.plan_onlyCircles (fun l hl h => hclear (.origin hl h)) f horder, ?_⟩
    intro f' hf'
    exact Except.error.inj hf'
  | ok order =>
    rcases prepare_makes hready.distinct (hready.silent.imp fun w hw => hw.isSteady) order e rfl with
      ⟨g, o, hprepare, -, -, -⟩
    cases hcopies : copies e.graph order with
    | ok cs => exact absurd (planned_of_copies hready.distinct horder hcopies) hcircle
    | error f =>
      rw [hcopies] at hprepare
      exact ⟨f, _, exec_compile_of_prepare horder hprepare,
        copies_failsWith hready (fun n hn => innerSites?_onlyCircles hclear hn) order f hcopies, nofun⟩

/-- With all orders known, a compilation gives a prompt or stops at an endless chain. -/
theorem exec_compile_of_planned (hplanned : Planned e.graph) : OnlyEndless (compile.exec e).1 := by
  rcases hplanned.outer with ⟨order, horder⟩
  rcases exists_prepared hready hplanned order with ⟨g, cs, o, hprepare, hskeleton, -, -⟩
  have hclear' : ¬ Obstructed g := fun h => hclear ((obstructed_of_skeleton_eq hskeleton).1 h)
  have hbuild := compileSites_onlyEndless hclear' (planned_of_skeleton_eq hskeleton hplanned)
    (allWidgets_of_skeleton_eq Widget.isSilent_bare hskeleton hready.silent) e.settings.maxHops
    e.settings.devMode order
  rw [exec_compile_of_prepared horder hprepare]
  exact (hbuild.bind fun output => .pure (⟨Workflow.save g, output⟩ : Prompt))
    { e with graph := g, outside := o }

/-- The compilation of a ready graph stops at a circle or an endless chain, if no reference obstructs
it. -/
theorem compile_onlyKnots : OnlyKnots (compile.exec e).1 := by
  by_cases hplanned : Planned e.graph
  · exact (exec_compile_of_planned hready hclear hplanned).mono fun _ hf => hf.isKnot
  · rcases exec_compile_of_not_planned hready hclear hplanned with ⟨f, e', hexec, hcircle, -⟩
    rw [hexec]
    exact FailsWith.error hcircle.isKnot

end Ready

end Editor

end NodeFlow
