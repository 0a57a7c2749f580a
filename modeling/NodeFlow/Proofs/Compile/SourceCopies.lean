import NodeFlow.Proofs.Compile.Delivery
import NodeFlow.Proofs.Compile.Lookups

/-!
# Primitives that take nothing

A primitive without inputs is never written.  Where all primitives are such, and no two of them push to
one widget, every widget ends up with what its primitive holds from the beginning, or with its own
value, in whatever order the pushes come.

Main results:

- Definition `Workflow.Copied` and theorem `Workflow.writes_copies_iff`: what a preparation writes.
- Structures `Workflow.PushesOnce` and `Workflow.CopiesOnce`: such primitives.
- Theorem `Workflow.run_copies_of_copied`: what a widget ends up with.
- Theorem `Workflow.SameLookups.run_copies_eq`: the same in workflows that answer lookups alike.
-/

namespace NodeFlow

namespace Workflow

variable {g h : Workflow}

/-! ## Ends of pushes -/

/-- A node inside a group is a site. -/
theorem exists_site_of_mem_innerGraph {host : NodeId} {m : Node Empty}
    (hm : m ∈ (innerGraph g host).nodes) :
    ∃ n x, Site.inner n x m ∈ sites g ∧ n.id = host := by
  unfold innerGraph at hm
  cases hn : g.at? host with
  | none =>
    rw [hn] at hm
    cases hm
  | some n =>
    cases hx : n.group? with
    | none =>
      simp only [hn, Option.bind_some, hx] at hm
      cases hm
    | some x =>
      simp only [hn, Option.bind_some, hx] at hm
      exact ⟨n, x, mem_sites_inner.2 ⟨Graph.mem_of_at? hn, hx, hm⟩, Graph.id_of_at? hn⟩

/-- What pushes is a primitive, and what it pushes to is a node with inputs. -/
theorem PushesTo.exists_ends {p : Place} {k : Cell} (hpushes : PushesTo g p k) :
    (∃ s ∈ sites g, s.place = p ∧ s.isPrimitive = true) ∧
      ∃ t ∈ sites g, t.place = k.1 ∧ t.inputs ≠ [] := by
  have hinputs : ∀ {γ : Type} {x : Graph γ} {id : NodeId} {c : NodeId × Nat}, x.PushesTo id c →
      (∃ n ∈ x.nodes, n.id = id ∧ n.kind.isPrimitive = true) ∧
        ∃ t ∈ x.nodes, t.id = c.1 ∧ t.inputs ≠ [] := by
    rintro γ x id c ⟨n, places, hn, hprimitive, hplaces, hc⟩
    rcases Graph.mem_targets hplaces hc with ⟨_, -, l, -, htarget⟩
    rcases Graph.targetOf_eq_some htarget with ⟨t, slot, _, ht, hslot, -, hid, -⟩
    rcases Option.bind_eq_some_iff.1 hslot with ⟨i, -, hi⟩
    exact ⟨⟨n, Graph.mem_of_at? hn, Graph.id_of_at? hn, hprimitive⟩, t, Graph.mem_of_lookup? ht, hid,
      List.ne_nil_of_mem (List.mem_of_getElem? hi)⟩
  cases hpushes with
  | outer hid =>
    rcases hinputs hid with ⟨⟨n, hn, rfl, hprimitive⟩, t, ht, htid, hne⟩
    exact ⟨⟨.outer n, mem_sites_outer.2 hn, rfl, hprimitive⟩, .outer t, mem_sites_outer.2 ht,
      congrArg Place.outer htid, hne⟩
  | @inner host id c hid =>
    rcases hinputs hid with ⟨⟨n, hn, rfl, hprimitive⟩, t, ht, htid, hne⟩
    rcases exists_site_of_mem_innerGraph hn with ⟨m, x, hs, rfl⟩
    rcases exists_site_of_mem_innerGraph ht with ⟨m', x', hs', hm'⟩
    exact ⟨⟨_, hs, rfl, hprimitive⟩, _, hs', congrArg₂ Place.inner hm' htid, hne⟩

/-! ## What is written -/

/-- The node at the place copies its value to the widget. -/
def Copied (g : Workflow) (p : Place) (k : Cell) : Prop :=
  ∃ cs, copiesAt g p = .ok cs ∧ Copy.Writes cs k

private theorem Copied.pushesTo {p : Place} {k : Cell} (hcopied : Copied g p k) :
    PushesTo g p k := by
  rcases hcopied with ⟨cs, hcs, c, hc, hk⟩
  rcases copiesAt_eq_ok hcs with rfl | ⟨targets, rfl, htargets⟩
  · cases hc
  · rw [List.mem_singleton.1 hc] at hk
    exact htargets k hk

private theorem mem_of_allCopies {β : Type} {f : β → Except Fault (List (Copy Cell))} {xs : List β}
    {cs : List (Copy Cell)} (hall : allCopies f xs = .ok cs) {x : β} (hx : x ∈ xs)
    {ds : List (Copy Cell)} (hds : f x = .ok ds) {c : Copy Cell} (hc : c ∈ ds) : c ∈ cs := by
  induction xs generalizing cs with
  | nil => cases hx
  | cons y ys ih =>
    rcases Fault.bind_eq_ok_iff.1 hall with ⟨es, hes, hall⟩
    rcases Fault.bind_eq_ok_iff.1 hall with ⟨rest, hrest, hall⟩
    cases hall
    rcases List.mem_cons.1 hx with rfl | hx
    · rw [hds, Except.ok.injEq] at hes
      exact List.mem_append_left rest (hes ▸ hc)
    · exact List.mem_append_right es (ih hrest hx)

section Copies

variable {order : List NodeId} {cs : List (Copy Cell)} (hcopies : copies g order = .ok cs)

include hcopies

/-- Every copy of a preparation starts at the first widget of a node that copies it. -/
theorem exists_copied_of_mem {c : Copy Cell} (hc : c ∈ cs) :
    ∃ p, c.source = (p, 0) ∧ ∀ k ∈ c.targets, Copied g p k := by
  rcases mem_allCopies hcopies hc with ⟨id, -, ds, hds, hc⟩
  unfold copiesFor at hds
  split at hds
  · cases hds
    cases hc
  · rcases Fault.bind_eq_ok_iff.1 hds with ⟨places, -, hds⟩
    rcases mem_allCopies hds hc with ⟨p, -, es, hes, hc⟩
    refine ⟨p, ?_, fun k hk => ⟨es, hes, c, hc, hk⟩⟩
    rcases copiesAt_eq_ok hes with rfl | ⟨targets, rfl, -⟩
    · cases hc
    · rw [List.mem_singleton.1 hc]

/-- A preparation writes what the nodes of the workflow copy, each in its turn. -/
theorem writes_copies_iff (hdistinct : Distinct g) (horder : g.plan = .ok order) {k : Cell} :
    Copy.Writes cs k ↔ ∃ p, Copied g p k := by
  constructor
  · rintro ⟨c, hc, hk⟩
    rcases exists_copied_of_mem hcopies hc with ⟨p, -, hcopied⟩
    exact ⟨p, hcopied k hk⟩
  · rintro ⟨p, hcopied⟩
    rcases hcopied.pushesTo.exists_ends.1 with ⟨s, hs, rfl, hprimitive⟩
    rcases hcopied with ⟨ds, hds, c, hc, hk⟩
    have hordered : Graph.Ordered g := ⟨hdistinct.outer, order, horder⟩
    have hhost := Site.host_mem hs
    have hmem : s.host.id ∈ order := (hordered.plan_perm horder).mem_iff.2 (List.mem_map_of_mem hhost)
    obtain ⟨es, hes⟩ : ∃ es, copiesFor g s.host.id = .ok es := exists_of_allCopies hcopies hmem
    have hturn := hes
    rw [copiesFor, Graph.at?_of_mem hdistinct.outer hhost] at hturn
    rcases Fault.bind_eq_ok_iff.1 hturn with ⟨places, hplaces, hall⟩
    have hplace := Site.place_mem_pushPlaces hdistinct hs hprimitive hplaces
    exact ⟨c, mem_of_allCopies hcopies hmem hes (mem_of_allCopies hall hplace hds hc), hk⟩

end Copies

/-! ## Values -/

/-- No primitive has inputs, and no two of them are linked to one widget. -/
structure PushesOnce (g : Workflow) : Prop where
  sources : ∀ s ∈ sites g, s.isPrimitive = true → s.inputs = []
  single : ∀ p q k, PushesTo g p k → PushesTo g q k → p = q

/-- No widget is copied from two nodes, and none of those that are copied is written. -/
structure CopiesOnce (g : Workflow) : Prop where
  reads : ∀ p q k, Copied g p k → ¬ Copied g q (p, 0)
  single : ∀ p q k, Copied g p k → Copied g q k → p = q

/-- Links lead to inputs, so they do not lead to primitives that have none. -/
theorem PushesOnce.copiesOnce (honce : PushesOnce g) (hdistinct : Distinct g) : CopiesOnce g where
  reads p q k hcopied hback := by
    rcases hcopied.pushesTo.exists_ends.1 with ⟨s, hs, rfl, hprimitive⟩
    rcases hback.pushesTo.exists_ends.2 with ⟨t, ht, hplace, hne⟩
    have hsame : some t = some s := by
      rw [← siteAt?_place hdistinct ht, hplace, siteAt?_place hdistinct hs]
    rw [Option.some.inj hsame] at hne
    exact hne (honce.sources s hs hprimitive)
  single p q k hp hq := honce.single p q k hp.pushesTo hq.pushesTo

section Values

variable (honce : CopiesOnce g) (hdistinct : Distinct g) {order : List NodeId}
  (horder : g.plan = .ok order) {cs : List (Copy Cell)} (hcopies : copies g order = .ok cs)

include honce hdistinct horder hcopies

/-- A widget that a primitive is copied to ends up with the value that the primitive has. -/
theorem run_copies_of_copied {p : Place} {k : Cell} (hcopied : Copied g p k) {α : Type}
    (f : Cell → α) : Copy.run cs f k = f (p, 0) := by
  have hwrites := fun {k : Cell} => writes_copies_iff hcopies hdistinct horder (k := k)
  refine Copy.run_of_source ?_ ?_ (hwrites.2 ⟨p, hcopied⟩) f
  · intro hwritten
    rcases hwrites.1 hwritten with ⟨q, hback⟩
    exact honce.reads p q k hcopied hback
  · intro c hc hk
    rcases exists_copied_of_mem hcopies hc with ⟨q, hsource, htargets⟩
    rw [hsource, honce.single q p k (htargets k hk) hcopied]

end Values

/-! ## Workflows that answer lookups alike -/

section Lookups

variable (hsame : SameLookups g h)

include hsame

private theorem SameLookups.copiesAt_eq : copiesAt h = copiesAt g := by
  funext p
  cases p with
  | outer id =>
    rw [copiesAt, copiesAt, hsame.outer.copiesOf_eq,
      Graph.copiesOf_mapNodes (Node.isNominal_across h)]
  | inner host id => rw [copiesAt, copiesAt, (hsame.inner host).copiesOf_eq]

/-- The two workflows have the same values in their cells. -/
theorem SameLookups.valueAt_eq : valueAt h = valueAt g := by
  funext k
  rcases k with ⟨id | ⟨host, id⟩, i⟩
  · rw [valueAt, valueAt, Graph.valueAt_eq, Graph.valueAt_eq, hsame.at?_eq]
    cases Graph.at? g id <;> rfl
  · rw [valueAt, valueAt, Graph.valueAt, Graph.valueAt, (hsame.inner host).widgetAt?_eq]

/-- Preparations of workflows that answer lookups alike leave the same values. -/
theorem SameLookups.run_copies_eq (honce : CopiesOnce g) (hg : Distinct g) (hh : Distinct h)
    {order order' : List NodeId} (horder : g.plan = .ok order) (horder' : h.plan = .ok order')
    {cs cs' : List (Copy Cell)} (hcopies : copies g order = .ok cs)
    (hcopies' : copies h order' = .ok cs') {α : Type} (f : Cell → α) :
    Copy.run cs' f = Copy.run cs f := by
  have hcopied : Copied h = Copied g := by
    funext p k
    rw [Copied, Copied, hsame.copiesAt_eq]
  have honce' : CopiesOnce h := ⟨hcopied ▸ honce.reads, hcopied ▸ honce.single⟩
  funext k
  by_cases hwritten : ∃ p, Copied g p k
  · rcases hwritten with ⟨p, hp⟩
    rw [run_copies_of_copied honce hg horder hcopies hp,
      run_copies_of_copied honce' hh horder' hcopies' (hcopied ▸ hp)]
  · have hnot : ¬ Copy.Writes cs k := fun hwrites =>
      hwritten ((writes_copies_iff hcopies hg horder).1 hwrites)
    have hnot' : ¬ Copy.Writes cs' k := fun hwrites =>
      hwritten (hcopied ▸ (writes_copies_iff hcopies' hh horder').1 hwrites)
    rw [Copy.run_of_not_writes hnot, Copy.run_of_not_writes hnot']

end Lookups

end Workflow

end NodeFlow
