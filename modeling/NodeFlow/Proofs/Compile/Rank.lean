import Mathlib.Data.Prod.Lex
import NodeFlow.Proofs.Order.Position
import NodeFlow.Proofs.Outcome
import NodeFlow.Resolve

/-!
# Ranks of sites

The rank of a site is the position of its node in the workflow, and for a node inside a group its
position there as well.  Wherever a producer is looked up, across groups or within one, it has a
smaller rank than the site that asks.  A walk towards an effective producer thus never comes back to
where it was, and only the bound on its length can stop it.

Main results:

- Definitions `Workflow.Planned` and `Workflow.Keyed`: groups and workflow can be ordered, and all
  sites have different keys.
- Definition `Site.rank` and theorem `Site.rank_source_lt`: every hop goes down.
- Theorem `Site.rank_resolve_lt`: a resolved producer has a smaller rank than the site that asks.
- Theorems `Site.walk_succ_cases` and `Site.walk_induction`: what one step of a walk can do, and what
  holds where it ends.
- Theorem `Site.resolve_neverEndless`: a walk within its bound is not refused.
-/

namespace NodeFlow

/-! ## Workflows that can be ordered -/

namespace Workflow

/-- The workflow and the graphs inside its groups can be ordered. -/
structure Planned (g : Workflow) : Prop where
  outer : ∃ order, g.plan = .ok order
  inner : ∀ n ∈ g.nodes, ∀ group, n.group? = some group → ∃ order, group.graph.plan = .ok order

/-- Sites have different keys. -/
def Keyed (g : Workflow) : Prop := ((sites g).map (·.id.key)).Nodup

variable {g : Workflow}

/-- The outer sites are the nodes of the workflow. -/
theorem mem_sites_outer {n : Node Group} : Site.outer n ∈ sites g ↔ n ∈ g.nodes := by
  simp only [sites, List.mem_flatMap, List.mem_cons, Site.outer.injEq]
  constructor
  · rintro ⟨m, hm, rfl | hinner⟩
    · exact hm
    · split at hinner
      · cases hinner
      · rcases List.mem_map.1 hinner with ⟨_, -, hsite⟩
        cases hsite
  · exact fun hn => ⟨n, hn, .inl rfl⟩

/-- The inner sites are the nodes inside groups. -/
theorem mem_sites_inner {host : Node Group} {group : Group} {n : Node Empty} :
    Site.inner host group n ∈ sites g ↔
      host ∈ g.nodes ∧ host.group? = some group ∧ n ∈ group.graph.nodes := by
  simp only [sites, List.mem_flatMap, List.mem_cons, reduceCtorEq, false_or]
  constructor
  · rintro ⟨m, hm, hinner⟩
    split at hinner
    · cases hinner
    · rename_i x hx
      rcases List.mem_map.1 hinner with ⟨k, hk, hsite⟩
      cases hsite
      exact ⟨hm, hx, hk⟩
  · rintro ⟨hhost, hgroup, hn⟩
    refine ⟨host, hhost, ?_⟩
    rw [hgroup]
    exact List.mem_map_of_mem hn

/-- What stands at a place is a site of the workflow. -/
theorem mem_sites_of_siteAt? {place : Place} {s : Site} (hs : siteAt? g place = some s) :
    s ∈ sites g := by
  cases place with
  | outer id =>
    rcases Option.map_eq_some_iff.1 hs with ⟨n, hn, rfl⟩
    exact mem_sites_outer.2 (Graph.mem_of_at? hn)
  | inner host id =>
    rcases Option.bind_eq_some_iff.1 hs with ⟨n, hn, hs⟩
    rcases Option.bind_eq_some_iff.1 hs with ⟨group, hgroup, hs⟩
    rcases Option.bind_eq_some_iff.1 hs with ⟨m, hm, hs⟩
    cases hs
    exact mem_sites_inner.2 ⟨Graph.mem_of_at? hn, hgroup, Graph.mem_of_at? hm⟩

/-- Sites are told apart by their ids. -/
theorem Keyed.eq_of_id_eq (h : Keyed g) {s t : Site} (hs : s ∈ sites g) (ht : t ∈ sites g)
    (hid : s.id = t.id) : s = t :=
  List.inj_on_of_nodup_map h hs ht (by rw [hid])

/-- Nodes whose keys are distinct have different ids. -/
theorem Keyed.ids_nodup (h : Keyed g) : (g.nodes.map (·.id)).Nodup := by
  have hsub : (g.nodes.map Site.outer).Sublist (sites g) := by
    unfold sites
    induction g.nodes with
    | nil => exact .slnil
    | cons n ns ih =>
      rw [List.map_cons, List.flatMap_cons, List.cons_append]
      exact (ih.trans (List.sublist_append_right _ _)).cons_cons _
  have hkeys : ((g.nodes.map Site.outer).map (·.id.key)).Nodup := (hsub.map _).nodup h
  rw [List.map_map] at hkeys
  apply List.Nodup.of_map NodeId.key
  rwa [List.map_map]

/-- Nodes inside a group have different ids where all keys are distinct. -/
theorem Keyed.inner_ids_nodup (h : Keyed g) {host : Node Group} (hhost : host ∈ g.nodes)
    {group : Group} (hgroup : host.group? = some group) :
    (group.graph.nodes.map (·.id)).Nodup := by
  have hsub : (group.graph.nodes.map (Site.inner host group)).Sublist (sites g) := by
    refine (List.sublist_cons_self (.outer host) _).trans ?_
    rw [sites, List.flatMap]
    refine List.sublist_flatten_of_mem (List.mem_map.2 ⟨host, hhost, ?_⟩)
    rw [hgroup]
  have hkeys : ((group.graph.nodes.map (Site.inner host group)).map (·.id.key)).Nodup :=
    (hsub.map _).nodup h
  rw [List.map_map] at hkeys
  refine List.Nodup.of_map (fun id => (host.id.within id).key) ?_
  rwa [List.map_map]

variable (hplanned : Planned g) (hkeyed : Keyed g)

include hplanned hkeyed

/-- A planned workflow has an order. -/
theorem Planned.ordered : Graph.Ordered g := ⟨hkeyed.ids_nodup, hplanned.outer⟩

/-- The graph inside a group of a planned workflow has an order. -/
theorem Planned.inner_ordered {host : Node Group} (hhost : host ∈ g.nodes) {group : Group}
    (hgroup : host.group? = some group) : Graph.Ordered group.graph :=
  ⟨hkeyed.inner_ids_nodup hhost hgroup, hplanned.inner host hhost group hgroup⟩

end Workflow

namespace Site

open Workflow

/-! ## Hops -/

/-- The position of the node in the workflow, then its position in the graph of its group. -/
def rank (g : Workflow) : Site → ℕ ×ₗ ℕ
  | outer n => toLex (g.position n.id, 0)
  | inner host group n => toLex (g.position host.id, group.graph.position n.id)

/-- The node of the workflow that a site is or stands in. -/
def host : Site → Node Group
  | outer n => n
  | inner host _ _ => host

/-- Sites of different hosts are ranked as their hosts are. -/
theorem rank_lt_of_host {g : Workflow} {s t : Site}
    (h : g.position s.host.id < g.position t.host.id) : s.rank g < t.rank g := by
  cases s <;> cases t <;> exact Prod.Lex.toLex_lt_toLex.2 (.inl h)

variable {g : Workflow} {s t : Site} {l : Link} {slot : Int}

/-- An active group gives way to the inner node that one of its outputs names; other producers, and
groups without such a node, stand for themselves. -/
theorem unwrap_cases {n : Node Group} {l' : Link} (h : unwrap n l = .ok (t, l')) :
    (t = outer n ∧ l' = l) ∨ ∃ x port m, n.group? = some x ∧ n.mode = normalMode ∧
      port ∈ x.outputs ∧ x.graph.find? port.node = .ok (some m) ∧ t = inner n x m ∧
        l'.originSlot = .number port.slot := by
  have hself : Except.ok (outer n, l) = (.ok (t, l') : Except Fault _) → t = outer n ∧ l' = l := by
    intro hsame
    cases hsame
    exact ⟨rfl, rfl⟩
  unfold unwrap at h
  split at h
  · exact .inl (hself h)
  · rename_i x hgroup
    split at h
    · rename_i hmode
      rcases Fault.bind_eq_ok_iff.1 h with ⟨found, hfound, hpure⟩
      cases found with
      | none => exact .inl (hself hpure)
      | some found =>
        cases hpure
        unfold innerProducer? at hfound
        split at hfound
        · cases hfound
        · split at hfound
          · cases hfound
          · rename_i port hport
            rcases Option.bind_eq_some_iff.1 hport with ⟨i, -, hport⟩
            rcases Fault.bind_eq_ok_iff.1 hfound with ⟨m, hm, hsome⟩
            cases m with
            | none => cases hsome
            | some m =>
              cases hsome
              exact .inr ⟨x, port, m, hgroup, hmode, List.mem_of_getElem? hport, hm, rfl, rfl⟩
    · exact .inl (hself h)

/-- What stands behind a producer is the producer itself or a node inside it. -/
theorem unwrap_mem {n : Node Group} (hn : n ∈ g.nodes) {l l' : Link}
    (h : unwrap n l = .ok (t, l')) : t ∈ sites g ∧ t.host = n := by
  rcases unwrap_cases h with ⟨rfl, -⟩ | ⟨x, port, m, hgroup, -, -, hm, rfl, -⟩
  · exact ⟨mem_sites_outer.2 hn, rfl⟩
  · exact ⟨mem_sites_inner.2 ⟨hn, hgroup, Graph.mem_of_lookup? hm⟩, rfl⟩

/-- The producer of a node of the workflow stands behind the origin of the link that its input holds. -/
theorem exists_origin_of_source {n : Node Group}
    (h : Workflow.source g n slot = .ok (some (t, l))) :
    ∃ l₀ o, g.inLink? n slot = some l₀ ∧ g.lookup? l₀.origin = .ok (some o) ∧
      unwrap o l₀ = .ok (t, l) := by
  unfold Workflow.source at h
  split at h
  · cases h
  · rename_i l₀ hlink
    rcases Fault.bind_eq_ok_iff.1 h with ⟨origin, horigin, h⟩
    cases origin with
    | none => cases h
    | some o =>
      rcases Fault.bind_eq_ok_iff.1 h with ⟨found, hfound, h⟩
      cases h
      exact ⟨l₀, o, hlink, horigin, hfound⟩

/-- The producer of a node inside a group is the origin of the link that its input holds, or the
producer of the group at an input that stands for it. -/
theorem source_inner_cases {host : Node Group} {x : Group} {n : Node Empty}
    (h : (inner host x n).source g slot = .ok (some (t, l))) :
    (∃ l₀ o, x.graph.inLink? n slot = some l₀ ∧ x.graph.lookup? l₀.origin = .ok (some o) ∧
        t = inner host x o ∧ l.originSlot = l₀.originSlot) ∨
      ∃ (i : ℕ) (l₀ : Link), Workflow.source g host i = .ok (some (t, l₀)) ∧
        l.originSlot = l₀.originSlot := by
  simp only [Site.source] at h
  split at h
  · rename_i l₀ hlink
    rcases Fault.bind_eq_ok_iff.1 h with ⟨origin, horigin, h⟩
    cases origin with
    | none => cases h
    | some o =>
      cases h
      exact .inl ⟨l₀, o, hlink, horigin, rfl, rfl⟩
  · split at h
    · cases h
    · rename_i i hi
      rcases Fault.bind_eq_ok_iff.1 h with ⟨found, hfound, h⟩
      rcases found with _ | ⟨t', l₀⟩
      · cases h
      · cases h
        exact .inr ⟨i, l₀, hfound, rfl⟩

/-- The producer behind an input of a node of the workflow feeds that node, or stands inside the one
that does. -/
theorem exists_feeds_of_source {n : Node Group} (h : Workflow.source g n slot = .ok (some (t, l))) :
    t ∈ sites g ∧ g.Feeds t.host n := by
  rcases exists_origin_of_source h with ⟨l₀, o, hlink, horigin, hunwrap⟩
  rcases unwrap_mem (Graph.mem_of_lookup? horigin) hunwrap with ⟨hmem, hhost⟩
  exact ⟨hmem, hhost ▸ Graph.feeds_of_inLink? hlink horigin⟩

/-- What stands behind an input of a site is a site. -/
theorem source_mem_sites (hs : s ∈ sites g)
    (h : s.source g slot = .ok (some (t, l))) : t ∈ sites g := by
  cases s with
  | outer n => exact (exists_feeds_of_source h).1
  | inner host x n =>
    rcases mem_sites_inner.1 hs with ⟨hhost, hx, -⟩
    rcases source_inner_cases h with ⟨l₀, o, -, horigin, rfl, -⟩ | ⟨i, l₀, hsource, -⟩
    · exact mem_sites_inner.2 ⟨hhost, hx, Graph.mem_of_lookup? horigin⟩
    · exact (exists_feeds_of_source hsource).1

/-- A producer has a smaller rank than the site that asks for it. -/
theorem rank_source_lt (hplanned : Planned g) (hkeyed : Keyed g) (hs : s ∈ sites g)
    (h : s.source g slot = .ok (some (t, l))) : t ∈ sites g ∧ t.rank g < s.rank g := by
  have hordered := hplanned.ordered hkeyed
  refine ⟨source_mem_sites hs h, ?_⟩
  cases s with
  | outer n =>
    have hfeeds := (exists_feeds_of_source h).2
    exact rank_lt_of_host (hordered.position_lt (mem_sites_outer.1 hs) hfeeds)
  | inner host x n =>
    rcases mem_sites_inner.1 hs with ⟨hhost, hx, hn⟩
    rcases source_inner_cases h with ⟨l₀, o, hlink, horigin, rfl, -⟩ | ⟨i, l₀, hsource, -⟩
    · -- a link inside the group
      have hfeeds := Graph.feeds_of_inLink? hlink horigin
      exact Prod.Lex.toLex_lt_toLex.2
        (.inr ⟨rfl, (hplanned.inner_ordered hkeyed hhost hx).position_lt hn hfeeds⟩)
    · -- an input of the group
      have hfeeds := (exists_feeds_of_source hsource).2
      exact rank_lt_of_host (hordered.position_lt hhost hfeeds)

/-! ## What stops a walk -/

/-- A computation that does not end with the fault of an endless chain. -/
def NeverEndless {α : Type} (x : Except Fault α) : Prop :=
  ∀ asker slot hops, x ≠ .error (.endlessChain asker slot hops)

/-- A result is no endless chain. -/
theorem neverEndless_ok {α : Type} (a : α) : NeverEndless (.ok a) := fun _ _ _ h => nomatch h

private theorem neverEndless_bind {α β : Type} {x : Except Fault α} {f : α → Except Fault β}
    (hx : NeverEndless x) (hf : ∀ a, NeverEndless (f a)) : NeverEndless (x >>= f) := by
  intro asker slot hops h
  rcases Fault.bind_eq_error_iff.1 h with hfirst | ⟨a, -, hrest⟩
  · exact hx asker slot hops hfirst
  · exact hf a asker slot hops hrest

private theorem neverEndless_readWhole (text : String) : NeverEndless (Fault.readWhole text) := by
  intro asker slot hops h
  unfold Fault.readWhole at h
  split at h <;> cases h

private theorem neverEndless_otherSpelling? (v : Json) : NeverEndless (Graph.otherSpelling? v) := by
  unfold Graph.otherSpelling?
  split
  · split
    · exact neverEndless_bind (neverEndless_readWhole _) fun _ => neverEndless_ok _
    · exact neverEndless_ok _
  · exact neverEndless_ok _
  · exact neverEndless_ok _
  · exact neverEndless_ok _

private theorem neverEndless_lookup? {γ : Type} (g : Graph γ) (v : Json) :
    NeverEndless (g.lookup? v) := by
  have hunhashable : ∀ u : Json,
      NeverEndless (.error (Fault.unhashable u) : Except Fault (Option (Node γ))) :=
    fun _ _ _ _ h => nomatch h
  unfold Graph.lookup?
  split
  · exact hunhashable _
  · exact hunhashable _
  · split
    · exact neverEndless_ok _
    · refine neverEndless_bind (neverEndless_otherSpelling? _) fun other => ?_
      cases other <;> exact neverEndless_ok _

private theorem neverEndless_unwrap (n : Node Group) (l : Link) : NeverEndless (unwrap n l) := by
  unfold unwrap
  split
  · exact neverEndless_ok _
  · split
    · refine neverEndless_bind ?_ fun _ => neverEndless_ok _
      unfold innerProducer?
      split
      · exact neverEndless_ok _
      · split
        · exact fun _ _ _ h => nomatch h
        · refine neverEndless_bind (neverEndless_lookup? _ _) fun found => ?_
          cases found <;> exact neverEndless_ok _
    · exact neverEndless_ok _

private theorem neverEndless_workflowSource (g : Workflow) (n : Node Group) (slot : Int) :
    NeverEndless (Workflow.source g n slot) := by
  unfold Workflow.source
  split
  · exact neverEndless_ok _
  · refine neverEndless_bind (neverEndless_lookup? _ _) fun origin => ?_
    cases origin with
    | none => exact neverEndless_ok _
    | some origin => exact neverEndless_bind (neverEndless_unwrap _ _) fun _ => neverEndless_ok _

/-- Looking for a producer fails for other reasons. -/
theorem neverEndless_source (g : Workflow) (s : Site) (slot : Int) :
    NeverEndless (s.source g slot) := by
  cases s with
  | outer n => exact neverEndless_workflowSource g n slot
  | inner host group n =>
    simp only [Site.source]
    split
    · refine neverEndless_bind (neverEndless_lookup? _ _) fun origin => ?_
      cases origin <;> exact neverEndless_ok _
    · split
      · exact neverEndless_ok _
      · refine neverEndless_bind (neverEndless_workflowSource _ _ _) fun found => ?_
        cases found <;> exact neverEndless_ok _

/-! ## The steps of a walk -/

/-- A producer on a walk and the next one, with the links from them. -/
def Hop (g : Workflow) (wanted : String) (x y : Site × Link) : Prop :=
  ∃ next, x.1.nextInput? x.2 wanted = some next ∧ x.1.source g next = .ok (some y)

section Walk

variable {asker : NodeId} {wanted : String} {left hops : Nat} {seen : List (NodeId × Int)}
  {p : Site} {out : Except Fault (Option Resolved)}

/-- A walk that may go no further ends at a producer that does not pass on what it gets, or is
refused. -/
theorem walk_zero_cases (h : walk g asker slot wanted 0 hops seen p l = out) :
    out = .ok (some ⟨p, l.originSlot, l⟩) ∨
      p.isPassing = true ∧ out = .error (.endlessChain asker slot (hops + 1)) := by
  unfold walk at h
  split at h
  · exact .inl h.symm
  · rename_i hpassing
    exact .inr ⟨by simpa using hpassing, h.symm⟩

/-- One step of a walk: it ends here, or the producer passes on what it gets.  Then there is nothing
in front of it, or what is there has been met already, or the walk goes on from there. -/
theorem walk_succ_cases (h : walk g asker slot wanted (left + 1) hops seen p l = out) :
    out = .ok (some ⟨p, l.originSlot, l⟩) ∨
      p.isPassing = true ∧
        ((∃ next f, p.source g next = .error f ∧ out = .error f) ∨ out = .ok none ∨
          ∃ q l', Hop g wanted (p, l) (q, l') ∧
            ((q.id, l'.originSlot.val) ∈ seen ∧
                out = .error (.endlessChain asker slot (hops + 1)) ∨
              walk g asker slot wanted left (hops + 1) ((q.id, l'.originSlot.val) :: seen) q l' =
                out)) := by
  unfold walk at h
  split at h
  · exact .inl h.symm
  · rename_i hpassing
    simp only at h
    split at h
    · exact .inl h.symm
    · rename_i next hnext
      refine .inr ⟨by simpa using hpassing, ?_⟩
      cases hsource : p.source g next with
      | error f =>
        rw [hsource] at h
        exact .inl ⟨next, f, hsource, h.symm⟩
      | ok found =>
        rw [hsource] at h
        cases found with
        | none => exact .inr (.inl h.symm)
        | some found =>
          rcases found with ⟨q, l'⟩
          refine .inr (.inr ⟨q, l', ⟨next, hnext, hsource⟩, ?_⟩)
          have h : (if seen.contains (q.id, l'.originSlot.val) then
              (.error (.endlessChain asker slot (hops + 1)) : Except Fault (Option Resolved))
            else
              walk g asker slot wanted left (hops + 1) ((q.id, l'.originSlot.val) :: seen) q l') =
                out := h
          split at h
          · rename_i hcontains
            exact .inl ⟨by simpa using hcontains, h.symm⟩
          · exact .inr h

end Walk

/-- A hop goes down in rank. -/
theorem rank_lt_of_hop (hplanned : Planned g) (hkeyed : Keyed g) {wanted : String}
    {x y : Site × Link} (hx : x.1 ∈ sites g) (h : Hop g wanted x y) :
    y.1 ∈ sites g ∧ y.1.rank g < x.1.rank g := by
  rcases h with ⟨next, -, hsource⟩
  exact rank_source_lt hplanned hkeyed hx hsource

/-! ## Walks that end -/

/-- A walk that goes down in rank is refused only after so many passing producers. -/
theorem exists_chain_of_walk (hplanned : Planned g) (hkeyed : Keyed g) {asker : NodeId}
    {slot : Int} {wanted : String} {left hops : Nat} {seen : List (NodeId × Int)} {p : Site}
    (hp : p ∈ sites g) (hseen : ∀ key ∈ seen, ∃ q ∈ sites g, q.id = key.1 ∧ p.rank g ≤ q.rank g)
    {a : NodeId} {b : Int} {c : Nat}
    (h : walk g asker slot wanted left hops seen p l = .error (.endlessChain a b c)) :
    ∃ chain, List.IsChain (Hop g wanted) ((p, l) :: chain) ∧ chain.length = left ∧
      ∀ x ∈ (p, l) :: chain, x.1.isPassing = true := by
  induction left generalizing hops seen p l with
  | zero =>
    rcases walk_zero_cases h with hend | ⟨hpassing, -⟩
    · cases hend
    · exact ⟨[], .singleton _, rfl, by simpa using hpassing⟩
  | succ left ih =>
    rcases walk_succ_cases h with hend | ⟨hpassing, ⟨next, f, hsource, hf⟩ | hend | hgo⟩
    · cases hend
    · cases hf
      exact absurd hsource (neverEndless_source g p next a b c)
    · cases hend
    · rcases hgo with ⟨q, l', hhop, hmet⟩
      rcases rank_lt_of_hop hplanned hkeyed hp hhop with ⟨hq, hlt⟩
      rcases hmet with ⟨hmem, -⟩ | h
      · rcases hseen _ hmem with ⟨r, hr, hid, hle⟩
        rw [hkeyed.eq_of_id_eq hr hq hid] at hle
        exact absurd hlt (not_lt_of_ge hle)
      · have hseen' : ∀ key ∈ (q.id, l'.originSlot.val) :: seen,
            ∃ r ∈ sites g, r.id = key.1 ∧ q.rank g ≤ r.rank g := by
          intro key hkey
          rcases List.mem_cons.1 hkey with rfl | hkey
          · exact ⟨q, hq, rfl, le_rfl⟩
          · rcases hseen key hkey with ⟨r, hr, hid, hle⟩
            exact ⟨r, hr, hid, hlt.le.trans hle⟩
        rcases ih hq hseen' h with ⟨chain, hchain, hlen, hall⟩
        refine ⟨(q, l') :: chain, .cons_cons hhop hchain, by simp [hlen], ?_⟩
        intro x hx
        rcases List.mem_cons.1 hx with rfl | hx
        · exact hpassing
        · exact hall x hx

/-- The walk from an input meets these passing producers, one after the other. -/
def Meets (g : Workflow) (s : Site) (slot : Int) (chain : List (Site × Link)) : Prop :=
  ∃ first input, s.source g slot = .ok (some first) ∧
    (position? s.inputs.length slot).bind (s.inputs[·]?) = some input ∧
    (∀ x ∈ chain.head?, x = first) ∧ List.IsChain (Hop g input.type) chain ∧
    ∀ x ∈ chain, x.1.isPassing = true

/-- A walk that meets no more passing producers than allowed is not refused. -/
theorem resolve_neverEndless (hplanned : Planned g) (hkeyed : Keyed g) (hs : s ∈ sites g)
    {maxHops : Int} (hshort : ∀ chain, s.Meets g slot chain → chain.length ≤ maxHops.toNat) :
    NeverEndless (s.resolve g maxHops slot) := by
  intro a b c h
  unfold resolve at h
  rcases Fault.bind_eq_error_iff.1 h with hsource | ⟨found, hsource, h⟩
  · exact neverEndless_source g s slot a b c hsource
  · cases found with
    | none => cases h
    | some found =>
      rcases found with ⟨p, l⟩
      rcases rank_source_lt hplanned hkeyed hs hsource with ⟨hp, -⟩
      simp only at h
      split at h
      · cases h
      · rename_i input hinput
        obtain ⟨chain, hchain, hlen, hall⟩ := exists_chain_of_walk hplanned hkeyed hp
          (by simpa using ⟨p, hp, rfl, le_rfl⟩) h
        have hle := hshort ((p, l) :: chain) ⟨(p, l), input, hsource, hinput, by simp, hchain, hall⟩
        rw [List.length_cons, hlen] at hle
        omega

/-! ## Resolved producers -/

/-- What a walk starts with and every hop keeps holds where the walk ends. -/
theorem walk_induction {P : Site → Link → Prop} {asker : NodeId} {wanted : String}
    (hhop : ∀ p l q l', P p l → Hop g wanted (p, l) (q, l') → P q l')
    {left hops : Nat} {seen : List (NodeId × Int)} {p : Site} (hp : P p l) {r : Resolved}
    (h : walk g asker slot wanted left hops seen p l = .ok (some r)) :
    P r.site r.link ∧ r.slot = r.link.originSlot := by
  induction left generalizing hops seen p l with
  | zero =>
    rcases walk_zero_cases h with hend | ⟨-, hrefused⟩
    · cases hend
      exact ⟨hp, rfl⟩
    · cases hrefused
  | succ left ih =>
    rcases walk_succ_cases h with hend | ⟨-, ⟨next, f, -, hf⟩ | hend | ⟨q, l', hstep, hmet⟩⟩
    · cases hend
      exact ⟨hp, rfl⟩
    · cases hf
    · cases hend
    · rcases hmet with ⟨-, hrefused⟩ | h
      · cases hrefused
      · exact ih (hhop p l q l' hp hstep) h

/-- What holds of every producer and the link from it holds of the effective one. -/
theorem resolve_induction {P : Site → Link → Prop}
    (hsource : ∀ t ∈ sites g, ∀ slot p l, t.source g slot = .ok (some (p, l)) → P p l)
    (hs : s ∈ sites g) {maxHops : Int} {r : Resolved}
    (h : s.resolve g maxHops slot = .ok (some r)) :
    r.site ∈ sites g ∧ P r.site r.link ∧ r.slot = r.link.originSlot := by
  unfold resolve at h
  rcases Fault.bind_eq_ok_iff.1 h with ⟨found, hfound, h⟩
  cases found with
  | none => cases h
  | some found =>
    rcases found with ⟨p, l⟩
    simp only at h
    split at h
    · cases h
    · have hstart : p ∈ sites g ∧ P p l :=
        ⟨source_mem_sites hs hfound, hsource s hs slot p l hfound⟩
      have hend := walk_induction (P := fun q l' => q ∈ sites g ∧ P q l') ?_ hstart h
      · exact ⟨hend.1.1, hend.1.2, hend.2⟩
      · rintro q l' q' l'' ⟨hq, -⟩ ⟨next, -, hnext⟩
        exact ⟨source_mem_sites hq hnext, hsource q hq next q' l'' hnext⟩

private theorem rank_walk_le (hplanned : Planned g) (hkeyed : Keyed g) {asker : NodeId}
    {wanted : String}
    {left hops : Nat} {seen : List (NodeId × Int)} {p : Site} (hp : p ∈ sites g) {r : Resolved}
    (h : walk g asker slot wanted left hops seen p l = .ok (some r)) :
    r.site ∈ sites g ∧ r.site.rank g ≤ p.rank g := by
  refine (walk_induction (P := fun q _ => q ∈ sites g ∧ q.rank g ≤ p.rank g) ?_
    ⟨hp, le_rfl⟩ h).1
  intro q _ q' _ hq hhop
  rcases rank_lt_of_hop hplanned hkeyed hq.1 hhop with ⟨hq', hlt⟩
  exact ⟨hq', hlt.le.trans hq.2⟩

/-- An effective producer has a smaller rank than the site that asks. -/
theorem rank_resolve_lt (hplanned : Planned g) (hkeyed : Keyed g) (hs : s ∈ sites g)
    {maxHops : Int} {r : Resolved} (h : s.resolve g maxHops slot = .ok (some r)) :
    r.site ∈ sites g ∧ r.site.rank g < s.rank g := by
  unfold resolve at h
  rcases Fault.bind_eq_ok_iff.1 h with ⟨found, hsource, h⟩
  cases found with
  | none => cases h
  | some found =>
    rcases found with ⟨p, l⟩
    rcases rank_source_lt hplanned hkeyed hs hsource with ⟨hp, hlt⟩
    simp only at h
    split at h
    · cases h
    · rcases rank_walk_le hplanned hkeyed hp h with ⟨hr, hle⟩
      exact ⟨hr, hle.trans_lt hlt⟩

end Site

end NodeFlow
