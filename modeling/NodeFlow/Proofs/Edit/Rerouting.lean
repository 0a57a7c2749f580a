import NodeFlow.Proofs.Edit.Detour

/-!
# Putting a reroute into a link

Three edits put a reroute into a link: the reroute is added, the origin of the link is connected to the
reroute, and the reroute to the input that the link enters.  The last of them takes the link away.  What
is left is the workflow with a detour for the link, if the records of links agree, no number of a link
is above the counter, and no link of the workflow finds the reroute.

Main results:

- Structure `Graph.Joins`: a link that an input holds, and the nodes at its ends.
- Definition `Workflow.reroute`: the three edits.
- Theorem `Workflow.exists_detour`: what they come to.
-/

namespace NodeFlow

/-- A reroute that stands for itself: it holds no links and has no widgets. -/
structure Node.IsLoose (r : Node Group) : Prop where
  kind : r.kind = .reroute
  inputs : r.inputs ≠ []
  outputs : r.outputs ≠ []
  unlinked : r.IsUnlinked
  bare : r.widgets = []
  attached : r.isCutOff = false

/-- The id of a node and how many slots it has. -/
def Node.extent {γ : Type} (n : Node γ) : NodeId × Nat × Nat :=
  (n.id, n.inputs.length, n.outputs.length)

namespace Graph

variable {γ : Type} {g g' : Graph γ}

/-- The counter is not below the number of any link that is there, held or listed. -/
structure Counted (g : Graph γ) : Prop where
  links : ∀ l ∈ g.links, l.id.val ≤ g.lastLinkId.val
  held : ∀ n ∈ g.nodes, ∀ s ∈ n.inputs, ∀ k, s.link = some k → k ≤ g.lastLinkId.val
  listed : ∀ n ∈ g.nodes, ∀ o ∈ n.outputs, ∀ k ∈ o.links, k ≤ g.lastLinkId.val

/-- An input of a node holds the link, and the origin of the link is another node. -/
structure Joins (g : Graph γ) (l : Link) (o t : Node γ) (j : Nat) : Prop where
  mem : t ∈ g.nodes
  held : g.heldLink? t j = some l
  origin : g.lookup? l.origin = .ok (some o)

private theorem Joins.link? {l : Link} {o t : Node γ} {j : Nat} (h : g.Joins l o t j) :
    (t.inputs[j]?).bind (·.link) = some l.id.val ∧ g.link? l.id.val = some l := by
  rcases Option.bind_eq_some_iff.1 h.held with ⟨k, hk, hl⟩
  have hnumber : l.id.val = k := by simpa using List.find?_some hl
  exact ⟨hnumber ▸ hk, hnumber ▸ hl⟩

/-! ## Extents -/

section Extents

variable (h : g'.nodes.map Node.extent = g.nodes.map Node.extent)

include h

private theorem map_extent_at? (id : NodeId) :
    (g'.at? id).map Node.extent = (g.at? id).map Node.extent := by
  have hfind : ∀ g : Graph γ, (g.at? id).map Node.extent =
      (g.nodes.map Node.extent).find? (·.1 == id) := by
    intro g
    rw [List.find?_map]
    rfl
  rw [hfind, hfind, h]

/-- Where nodes have the same extents, a node is found under its id in the same extent. -/
theorem exists_at?_of_extent {id : NodeId} {n : Node γ} (hn : g.at? id = some n) :
    ∃ m, g'.at? id = some m ∧ m.extent = n.extent := by
  have hsame := map_extent_at? h id
  rw [hn] at hsame
  exact Option.map_eq_some_iff.1 hsame

private theorem exists_lookup?_of_extent {v : Json} {n : Node γ} (hn : g.lookup? v = .ok (some n)) :
    ∃ m, g'.lookup? v = .ok (some m) ∧ m.extent = n.extent := by
  have hsame : (g'.lookup? v).map (·.map Node.extent) = (g.lookup? v).map (·.map Node.extent) :=
    lookup?_map_congr (map_extent_at? h) v
  rw [hn] at hsame
  rcases Fault.map_eq_ok_iff.1 hsame with ⟨found, hfound, hsome⟩
  rcases Option.map_eq_some_iff.1 hsome with ⟨m, rfl, hextent⟩
  exact ⟨m, hfound, hextent⟩

end Extents

private theorem extent_hold (id : NodeId) (j : Nat) (k : Option Int) (g : Graph γ) :
    (g.hold id j k).nodes.map Node.extent = g.nodes.map Node.extent :=
  map_modifyNode (fun n => by simp [Node.extent, Node.modifyInput]) g id

private theorem extent_relist (id : NodeId) (i : Nat) (f : List Int → List Int) (g : Graph γ) :
    (g.relist id i f).nodes.map Node.extent = g.nodes.map Node.extent :=
  map_modifyNode (fun n => by simp [Node.extent, Node.modifyOutput]) g id

private theorem extent_enlink (l : Link) (o : NodeId) (i : Nat) (t : NodeId) (j : Nat)
    (g : Graph γ) : (g.enlink l o i t j).nodes.map Node.extent = g.nodes.map Node.extent := by
  rw [enlink, extent_hold, extent_relist]
  rfl

/-- A link that is there once another of a new number has been put in. -/
theorem link?_enlink {l : Link} {o t : NodeId} {i j : Nat}
    (hfresh : ∀ m ∈ g.links, m.id.val ≠ l.id.val) {k : Int} (hk : k ≠ l.id.val) :
    (g.enlink l o i t j).link? k = g.link? k := by
  rw [link?, links_enlink l o i t j hfresh, List.find?_append]
  simp [hk.symm, link?]

end Graph

namespace Workflow

open NodeFlow.Graph

/-- Put a reroute into a link between two nodes, and give the id of the reroute. -/
def reroute (id? : Option NodeId) (r : Node Group) (o t : NodeId) (l : Link) :
    Act Workflow NodeId := do
  let id ← Graph.add id? r
  let _ ← connect (.outer o) l.originSlot (.outer id) (.number 0)
  let _ ← connect (.outer id) (.number 0) (.outer t) l.targetSlot
  pure id

variable {g : Workflow} {l : Link} {o t r : Node Group} {j : Nat} {id? : Option NodeId} {id : NodeId}

/-- A node that is added is new, and comes last. -/
theorem added_of_exec_add {g₁ : Workflow} (hadd : (Graph.add id? r).exec g = (.ok id, g₁)) :
    g.at? id = none ∧
      g₁ = { g with nodes := g.nodes ++ [g.placed id r], lastNodeId := g.counterFor id } := by
  rcases exec_add g id? r rfl with ⟨hfind, hexec⟩ | ⟨-, f, hexec⟩
  · rw [hadd] at hexec
    cases hexec
    exact ⟨(find?_eq_none (find?_of_occupant? hfind)).1, rfl⟩
  · rw [hadd] at hexec
    cases hexec

section Edits

variable (hcounted : Graph.Counted g) (hids : (g.nodes.map (·.id)).Nodup) (hjoins : Joins g l o t j)
  (hr : r.IsLoose) (hfresh : g.at? id = none) {g₁ : Workflow}
  (hg₁ : g₁ = { g with nodes := g.nodes ++ [g.placed id r], lastNodeId := g.counterFor id })
  {i : Nat} (hi : position? o.outputs.length l.originSlot.val = some i)

include hg₁ in
private theorem at?_added (x : NodeId) :
    g₁.at? x = (g.at? x).or (if id = x then some (g.placed id r) else none) := by
  rw [hg₁]
  exact at?_append x

include hids hfresh hg₁ hr hjoins hi in
/-- The second edit: the reroute takes what leaves the origin of the link. -/
theorem exec_connect_origin : ∃ l₁ : Link, l₁.id = .number (g.lastLinkId.val + 1) ∧
    l₁.origin = o.id.toJson ∧ l₁.originSlot = l.originSlot ∧
    (connect (.outer o.id) l.originSlot (.outer id) (.number 0)).exec g₁ =
      (.ok l₁, enlink l₁ o.id i id 0 { g₁ with lastLinkId := l₁.id }) := by
  have hn : g₁.at? o.id = some o := by
    rw [at?_added hg₁, at?_of_mem hids (mem_of_lookup? hjoins.origin), Option.some_or]
  have hm : g₁.at? id = some (g.placed id r) := by
    rw [at?_added hg₁, hfresh, if_pos rfl, Option.none_or]
  have hslots : 0 < (g.placed id r).inputs.length := List.length_pos_iff.2 hr.inputs
  have hfree : (((g.placed id r).inputs[0]?).bind (·.link)) = none := by
    rw [List.getElem?_eq_getElem hslots, Option.bind_some]
    exact hr.unlinked.1 _ (List.getElem_mem hslots)
  have hzero : position? (g.placed id r).inputs.length (Whole.number 0).val = some 0 :=
    position?_ofNat hslots
  rcases exec_connect_of_position (a := l.originSlot) (b := .number 0) hn hm hi hzero
    (exec_disconnect_of_free hm hzero hfree) with ⟨l₁, hid, horigin, hslot, -, -, hexec⟩
  have hcounter : g₁.lastLinkId = g.lastLinkId := by rw [hg₁]
  exact ⟨l₁, by rw [hid, hcounter], horigin, hslot, hexec⟩

section Second

variable {l₁ : Link} {g₂ : Workflow}
  (hg₂ : g₂ = enlink l₁ o.id i id 0 { g₁ with lastLinkId := l₁.id })

include hg₂

private theorem extent_connected : g₂.nodes.map Node.extent = g₁.nodes.map Node.extent := by
  rw [hg₂, extent_enlink]

include hids hjoins hfresh hg₁

/-- After the second edit, the target still holds the link. -/
theorem exists_target_connected : ∃ t₂, g₂.at? t.id = some t₂ ∧ t₂.extent = t.extent ∧
    (t₂.inputs[j]?).bind (·.link) = some l.id.val := by
  have ht₁ : g₁.at? t.id = some t := by
    rw [at?_added hg₁, at?_of_mem hids hjoins.mem, Option.some_or]
  rcases exists_at?_of_extent (extent_connected hg₂) ht₁ with ⟨t₂, ht₂, hextent⟩
  refine ⟨t₂, ht₂, hextent, ?_⟩
  have hheldAt : g₂.heldAt? t.id j = (t.inputs[j]?).map (·.link) := by
    rw [hg₂, heldAt?_enlink, if_neg fun h => ne_of_at?_eq_none hfresh hjoins.mem h.1]
    exact heldAt?_of_at? ht₁ j
  rw [heldAt?_of_at? ht₂] at hheldAt
  rcases Option.bind_eq_some_iff.1 hjoins.link?.1 with ⟨s, hs, hk⟩
  rw [hs, Option.map_some] at hheldAt
  rcases Option.map_eq_some_iff.1 hheldAt with ⟨s₂, hs₂, hsame⟩
  rw [hs₂, Option.bind_some, hsame, hk]

omit hids hfresh in
/-- The origin of the link is found where it was, also once the link is taken out. -/
theorem exists_origin_connected (huncaught : ¬ Finds g₁ l.origin id) :
    ∃ m, (hold t.id j none (g₂.dropLink l.id.val)).lookup? l.origin = .ok (some m) ∧
      m.extent = o.extent := by
  have hfound : g₁.lookup? l.origin = .ok (some o) := by
    have hsame := lookup?_of_not_finds (f := fun n => n) (x := g.placed id r) (g := g) (h := g₁)
      (fun x => by rw [at?_added hg₁, Option.map_id']; rfl) huncaught
    rw [hsame, hjoins.origin]
    rfl
  exact exists_lookup?_of_extent ((extent_hold t.id j none _).trans (extent_connected hg₂)) hfound

include hcounted hr hi

/-- The third edit: the reroute takes the place of the link. -/
theorem exec_connect_target (huncaught : ¬ Finds g₁ l.origin id)
    (hentry : position? t.inputs.length l.targetSlot.val = some j)
    (hid₁ : l₁.id = .number (g.lastLinkId.val + 1)) :
    ∃ l₂ : Link, l₂.id = .number (g.lastLinkId.val + 2) ∧ l₂.origin = id.toJson ∧
      l₂.originSlot = .number 0 ∧
      (connect (.outer id) (.number 0) (.outer t.id) l.targetSlot).exec g₂ =
        (.ok l₂, enlink l₂ id 0 t.id j
          { g₂.unlink l.id.val o.id i t.id j with lastLinkId := l₂.id }) := by
  have hr₁ : g₁.at? id = some (g.placed id r) := by
    rw [at?_added hg₁, hfresh, if_pos rfl, Option.none_or]
  rcases exists_at?_of_extent (extent_connected hg₂) hr₁ with ⟨r₂, hr₂, hextent⟩
  rcases exists_target_connected hids hjoins hfresh hg₁ hg₂ with ⟨t₂, ht₂, hextent', hheld⟩
  rcases exists_origin_connected hjoins hg₁ hg₂ huncaught with ⟨m, hm, hextent''⟩
  simp only [Node.extent, Prod.mk.injEq] at hextent hextent' hextent''
  have hlink : g₂.link? l.id.val = some l := by
    have hnew : ∀ m ∈ g.links, m.id.val ≠ l₁.id.val := by
      intro m hm
      have hle := hcounted.links m hm
      rw [hid₁, Whole.val_number]
      omega
    have hlinks : g₁.links = g.links := by rw [hg₁]
    rw [hg₂, link?_enlink (hlinks ▸ hnew) (hnew l (mem_of_heldLink? hjoins.held)), link?, hlinks]
    exact hjoins.link?.2
  have hslot : position? t₂.inputs.length l.targetSlot.val = some j := by rw [hextent'.2.1, hentry]
  have hexit : position? m.outputs.length l.originSlot.val = some i := by rw [hextent''.2.2, hi]
  have hdisconnect := exec_disconnect_of_held ht₂ hslot hheld hlink hm hexit
  rw [hextent''.1] at hdisconnect
  have houtputs : position? r₂.outputs.length (Whole.number 0).val = some 0 := by
    rw [hextent.2.2]
    exact position?_ofNat (List.length_pos_iff.2 hr.outputs)
  rcases exec_connect_of_position (a := .number 0) (b := l.targetSlot) hr₂ ht₂ houtputs hslot
    hdisconnect with ⟨l₂, hid, horigin, hslot₂, -, -, hexec⟩
  refine ⟨l₂, ?_, horigin, hslot₂, hexec⟩
  have hcounter : (g₂.unlink l.id.val o.id i t.id j).lastLinkId = l₁.id := by rw [hg₂]; rfl
  rw [hid, hcounter, hid₁, Whole.val_number, add_assoc]
  rfl

end Second

end Edits

/-! ## The detour -/

section Detour

/-- The reroute and its two links, as a detour for the link. -/
def detour (g : Workflow) (id : NodeId) {r : Node Group} (hr : r.IsLoose) (l : Link) (o : NodeId)
    (i : Nat) (t : NodeId) (j : Nat) (l₁ l₂ : Link) (starts : l₁.origin = o.toJson)
    (leaves : l₂.origin = id.toJson ∧ l₂.originSlot.val = 0) (differ : l₁.id.val ≠ l₂.id.val) :
    Detour where
  number := l.id.val
  origin := o
  exit := i
  target := t
  entry := j
  node := ((g.placed id r).modifyInput 0 fun s => { s with link := some l₁.id.val }).modifyOutput 0
    fun o => { o with links := o.links ++ [l₂.id.val] }
  first := l₁
  second := l₂
  reroute := hr.kind
  bare := hr.bare
  attached := hr.attached
  holds := by
    cases hinputs : r.inputs with
    | nil => exact absurd hinputs hr.inputs
    | cons slot slots =>
      refine ⟨{ slot with link := some l₁.id.val }, slots, ?_, rfl, fun s hs => ?_⟩
      · simp [Node.modifyInput, Node.modifyOutput, placed, hinputs]
      · exact hr.unlinked.1 s (hinputs ▸ List.mem_cons_of_mem slot hs)
  starts := starts
  leaves := leaves
  differ := differ

variable (hr : r.IsLoose) {i : Nat} {l₁ l₂ : Link} (starts : l₁.origin = o.id.toJson)
  (leaves : l₂.origin = id.toJson ∧ l₂.originSlot.val = 0) (differ : l₁.id.val ≠ l₂.id.val)

/-- What the edits make of the nodes. -/
theorem nodes_edits (hfresh : g.at? id = none) (ho : o.id ≠ id) (ht : t.id ≠ id) {g₁ : Workflow}
    (hg₁ : g₁.nodes = g.nodes ++ [g.placed id r]) :
    (enlink l₂ id 0 t.id j ((enlink l₁ o.id i id 0 g₁).unlink l.id.val o.id i t.id j)).nodes =
      ((detour g id hr l o.id i t.id j l₁ l₂ starts leaves differ).apply g).nodes := by
  have hnew : (g.placed id r).id = id := rfl
  simp only [enlink, unlink, hold, relist, modifyNode, putLink, dropLink, hg₁, Detour.apply,
    List.map_append, List.map_map, List.map_singleton]
  refine congrArg₂ (· ++ ·) (List.map_congr_left fun n hn => ?_) (congrArg (fun x => [x]) ?_)
  · have hne : n.id ≠ id := ne_of_at?_eq_none hfresh hn
    simp only [Function.comp_apply]
    -- the hypotheses are given as truth values, lest they rewrite the id
    have hcases : ∀ id, (n.id = id) = True ∨ (n.id = id) = False := fun id => Classical.propComplete _
    rcases hcases o.id with hno | hno <;> rcases hcases t.id with hnt | hnt <;>
      simp [hno, hnt, hne, detour, Detour.rewire, Node.modifyInput, Node.modifyOutput,
        List.modify_modify_eq, Function.comp_def]
  · simp [detour, Node.modifyInput, Node.modifyOutput, hnew, ho.symm, ht.symm]

include differ in
/-- What the edits make of the links. -/
theorem links_edits {g₁ : Workflow} (hg₁ : g₁.links = g.links)
    (hfresh₁ : ∀ m ∈ g.links, m.id.val ≠ l₁.id.val)
    (hfresh₂ : ∀ m ∈ g.links, m.id.val ≠ l₂.id.val)
    (hkept : l₁.id.val ≠ l.id.val) :
    (enlink l₂ id 0 t.id j ((enlink l₁ o.id i id 0 g₁).unlink l.id.val o.id i t.id j)).links =
      (g.dropLink l.id.val).links ++ [l₁, l₂] := by
  have hfirst : (enlink l₁ o.id i id 0 g₁).links = g.links ++ [l₁] := by
    rw [links_enlink _ _ _ _ _ (hg₁ ▸ hfresh₁), hg₁]
  have hdrop : ((enlink l₁ o.id i id 0 g₁).unlink l.id.val o.id i t.id j).links =
      (g.dropLink l.id.val).links ++ [l₁] := by
    have hkeep : (l₁.id.val != l.id.val) = true := bne_iff_ne.2 hkept
    have hlinks : ((enlink l₁ o.id i id 0 g₁).unlink l.id.val o.id i t.id j).links =
        (enlink l₁ o.id i id 0 g₁).links.filter (·.id.val != l.id.val) := rfl
    rw [hlinks, hfirst, List.filter_append, List.filter_singleton, hkeep]
    rfl
  rw [links_enlink, hdrop, List.append_assoc, List.singleton_append]
  intro m hm
  rw [hdrop, List.mem_append, List.mem_singleton] at hm
  rcases hm with hm | rfl
  · exact hfresh₂ m (List.mem_filter.1 hm).1
  · exact differ

/-- The edits leave the workflow with the detour. -/
theorem edits_eq_apply (hfresh : g.at? id = none) (ho : o ∈ g.nodes) (ht : t ∈ g.nodes) {g₁ : Workflow}
    (hg₁ : g₁ = { g with nodes := g.nodes ++ [g.placed id r], lastNodeId := g.counterFor id })
    (hfresh₁ : ∀ m ∈ g.links, m.id.val ≠ l₁.id.val)
    (hfresh₂ : ∀ m ∈ g.links, m.id.val ≠ l₂.id.val)
    (hkept : l₁.id.val ≠ l.id.val) :
    enlink l₂ id 0 t.id j { (enlink l₁ o.id i id 0 { g₁ with lastLinkId := l₁.id }).unlink
      l.id.val o.id i t.id j with lastLinkId := l₂.id } =
      (detour g id hr l o.id i t.id j l₁ l₂ starts leaves differ).apply g := by
  have hnodes : g₁.nodes = g.nodes ++ [g.placed id r] := by rw [hg₁]
  have hlinks : g₁.links = g.links := by rw [hg₁]
  have hno := ne_of_at?_eq_none hfresh ho
  have hnt := ne_of_at?_eq_none hfresh ht
  calc _ = { g with
             nodes := (enlink l₂ id 0 t.id j ((enlink l₁ o.id i id 0 g₁).unlink
               l.id.val o.id i t.id j)).nodes
             links := (enlink l₂ id 0 t.id j ((enlink l₁ o.id i id 0 g₁).unlink
               l.id.val o.id i t.id j)).links
             lastNodeId := g.counterFor id
             lastLinkId := l₂.id } := by rw [hg₁]; rfl
    _ = _ := by
      rw [nodes_edits hr starts leaves differ hfresh hno hnt hnodes,
        links_edits differ hlinks hfresh₁ hfresh₂ hkept]
      rfl

/-- It is a detour for a link whose records agree. -/
theorem fits_detour (hlinks : Graph.Consistent g) (hcounted : Graph.Counted g)
    (hids : (g.nodes.map (·.id)).Nodup) (hjoins : Joins g l o t j)
    (hsteady : o.kind.isPrimitive = false) (hfresh : g.at? id = none) {g₁ : Workflow}
    (hg₁ : g₁ = { g with nodes := g.nodes ++ [g.placed id r], lastNodeId := g.counterFor id })
    (huncaught : ∀ l ∈ g.links, ¬ Finds g₁ l.origin id ∧ ¬ Finds g₁ l.target id)
    (hid₁ : l₁.id.val = g.lastLinkId.val + 1) (hid₂ : l₂.id.val = g.lastLinkId.val + 2)
    (hslot : l₁.originSlot = l.originSlot) :
    (detour g id hr l o.id i t.id j l₁ l₂ starts leaves differ).Fits g := by
  rcases hjoins.link? with ⟨hnumber, hlink⟩
  rcases Option.bind_eq_some_iff.1 hnumber with ⟨s, hs, hk⟩
  rcases hlinks.enters t hjoins.mem j s hs _ hk l hlink with ⟨htarget, hentry⟩
  have hnew : ∀ k ≤ g.lastLinkId.val, k ≠ l₁.id.val ∧ k ≠ l₂.id.val := by
    intro k hk
    omega
  refine ⟨hids, hfresh, fun m hm => ?_, fun m hm => hnew _ (hcounted.links m hm), ?_, ?_, ?_, ?_⟩
  · have hsame : ∀ {v : Json},
        Finds ((detour g id hr l o.id i t.id j l₁ l₂ starts leaves differ).apply g) v id ↔
          Finds g₁ v id := by
      intro v
      refine finds_congr ?_
      rw [Detour.ids_apply, hg₁, List.map_append]
      rfl
    exact ⟨fun hfinds => (huncaught m hm).1 (hsame.1 hfinds),
      fun hfinds => (huncaught m hm).2 (hsame.1 hfinds)⟩
  · intro n hn slot hslot
    constructor <;> intro hk
    · exact (hnew _ (hcounted.held n hn slot hslot _ hk)).1 rfl
    · exact (hnew _ (hcounted.held n hn slot hslot _ hk)).2 rfl
  · -- a primitive that lists the link would be the origin
    intro n hn hprimitive out hout k hk
    refine ⟨?_, hnew k (hcounted.listed n hn out hout k hk)⟩
    rintro rfl
    have horigin := (hlinks.linked n hn out hout _ hk l hlink).1
    cases hjoins.origin.symm.trans horigin
    rw [hsteady] at hprimitive
    cases hprimitive
  · intro n hn j' slot hslot hk
    rcases hlinks.enters n hn j' slot hslot _ hk l hlink with ⟨htarget', hentry'⟩
    cases htarget.symm.trans htarget'
    exact ⟨rfl, Option.some.inj (hentry'.symm.trans hentry)⟩
  · exact ⟨l, o, t, hlink, hslot, hjoins.origin, rfl, hsteady, hjoins.mem, rfl,
      hlinks.attached t hjoins.mem, hnumber⟩

end Detour

/-- The three edits come to a detour for the link. -/
theorem exists_detour (hlinks : Graph.Consistent g) (hcounted : Graph.Counted g)
    (hids : (g.nodes.map (·.id)).Nodup) (hjoins : Joins g l o t j)
    (hsteady : o.kind.isPrimitive = false) (hr : r.IsLoose) {g₁ : Workflow}
    (hadd : (Graph.add id? r).exec g = (.ok id, g₁))
    (huncaught : ∀ l ∈ g.links, ¬ Finds g₁ l.origin id ∧ ¬ Finds g₁ l.target id) :
    ∃ d : Detour, d.Fits g ∧ (reroute id? r o.id t.id l).exec g = (.ok id, d.apply g) := by
  rcases added_of_exec_add hadd with ⟨hfresh, hg₁⟩
  have hmem := mem_of_heldLink? hjoins.held
  rcases hjoins.link? with ⟨hnumber, hlink⟩
  rcases Option.bind_eq_some_iff.1 hnumber with ⟨s, hs, hk⟩
  rcases hlinks.listed t hjoins.mem s (List.mem_of_getElem? hs) _ hk l hlink with
    ⟨m, i, out, hm, hexit, -, -⟩
  cases hm.symm.trans hjoins.origin
  have hentry := (hlinks.enters t hjoins.mem j s hs _ hk l hlink).2
  rcases exec_connect_origin hids hjoins hr hfresh hg₁ hexit with
    ⟨l₁, hid₁, starts, hslot₁, hexec₁⟩
  rcases exec_connect_target hcounted hids hjoins hr hfresh hg₁ hexit rfl (huncaught l hmem).1 hentry
    hid₁ with ⟨l₂, hid₂, horigin₂, hslot₂, hexec₂⟩
  have hexec : (reroute id? r o.id t.id l).exec g = (.ok id, _) :=
    Act.exec_bind_eq_ok_iff.2 ⟨id, g₁, hadd, Act.exec_bind_eq_ok_iff.2 ⟨l₁, _, hexec₁,
      Act.exec_bind_eq_ok_iff.2 ⟨l₂, _, hexec₂, rfl⟩⟩⟩
  have hval₁ : l₁.id.val = g.lastLinkId.val + 1 := by rw [hid₁, Whole.val_number]
  have hval₂ : l₂.id.val = g.lastLinkId.val + 2 := by rw [hid₂, Whole.val_number]
  have hfresh₁ : ∀ m ∈ g.links, m.id.val ≠ l₁.id.val ∧ m.id.val ≠ l₂.id.val := by
    intro m hm
    have hle := hcounted.links m hm
    omega
  have leaves : l₂.origin = id.toJson ∧ l₂.originSlot.val = 0 := ⟨horigin₂, by rw [hslot₂]; rfl⟩
  have differ : l₁.id.val ≠ l₂.id.val := by omega
  refine ⟨detour g id hr l o.id i t.id j l₁ l₂ starts leaves differ,
    fits_detour hr starts leaves differ hlinks hcounted hids hjoins hsteady hfresh hg₁ huncaught hval₁
      hval₂ hslot₁, ?_⟩
  rw [hexec, edits_eq_apply hr starts leaves differ hfresh (mem_of_lookup? hjoins.origin) hjoins.mem
    hg₁ (fun m hm => (hfresh₁ m hm).1) (fun m hm => (hfresh₁ m hm).2) (hfresh₁ l hmem).1.symm]

end Workflow

end NodeFlow
