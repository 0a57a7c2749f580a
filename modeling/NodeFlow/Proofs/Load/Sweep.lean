import Mathlib.Data.List.Forall2
import Mathlib.Data.List.Nodup
import NodeFlow.Graph.Basic
import NodeFlow.Proofs.Outcome

/-!
# Nodes one after the other

A sweep replaces the nodes of a graph one after the other, each by what a computation makes of it in
the graph as it stands then.  What comes before a node in the list has been replaced by that time,
and what comes after it has not.

Main results:

- Definitions `Graph.sweepNode` and `Graph.sweep`.
- Definition `Graph.Swept`: what becomes of a list of nodes.
- Theorem `Graph.sweep_eq_ok_iff`: a sweep in terms of its nodes.
-/

namespace NodeFlow

namespace Graph

variable {γ : Type}

/-! ## One node -/

section Split

variable {g : Graph γ} {front back : List (Node γ)} {n : Node γ}
  (hsplit : g.nodes = front ++ n :: back) (hids : (g.nodes.map (·.id)).Nodup)

include hsplit hids

/-- Where ids are distinct, only the node of an id is changed. -/
theorem modifyNode_of_split (f : Node γ → Node γ) :
    g.modifyNode n.id f = { g with nodes := front ++ f n :: back } := by
  have hnodup : (front.map (·.id) ++ n.id :: back.map (·.id)).Nodup := by simpa [hsplit] using hids
  have hother : ∀ ns : List (Node γ), n.id ∉ ns.map (·.id) →
      ns.map (fun m => if m.id = n.id then f m else m) = ns := by
    intro ns hns
    refine (List.map_congr_left fun m hm => if_neg ?_).trans (List.map_id' ns)
    exact fun hid => hns (hid ▸ List.mem_map_of_mem hm)
  have hfront : n.id ∉ front.map (·.id) := fun hmem =>
    (List.nodup_append.1 hnodup).2.2 _ hmem _ List.mem_cons_self rfl
  have hback : n.id ∉ back.map (·.id) :=
    (List.nodup_cons.1 (List.nodup_append.1 hnodup).2.1).1
  simp [modifyNode, hsplit, hother front hfront, hother back hback]

/-- A node that stands between others of different ids is found. -/
theorem at?_of_split : g.at? n.id = some n := at?_of_mem hids (by simp [hsplit])

end Split

/-- A node that takes the place of one with its id is found there. -/
theorem at?_modifyNode_const {g : Graph γ} {id : NodeId} {n n' : Node γ} (h : g.at? id = some n)
    (hid : n'.id = id) : (g.modifyNode id fun _ => n').at? id = some n' := by
  have hsame : ((·.id == id) ∘ fun m : Node γ => if m.id = id then n' else m) = (·.id == id) := by
    funext m
    by_cases hm : m.id = id <;> simp [hm, hid]
  rw [at?, modifyNode, List.find?_map, hsame]
  rw [at?] at h
  simp [h, id_of_at? (g := g) h]

/-- Replace the node of an id by what a computation makes of it. -/
def sweepNode (f : Graph γ → Node γ → Except Fault (Node γ)) (g : Graph γ) (id : NodeId) :
    Except Fault (Graph γ) :=
  match g.at? id with
  | none => .ok g
  | some n => do
    let n ← f g n
    pure (g.modifyNode id fun _ => n)

/-- Replace the nodes of ids, one after the other. -/
def sweep (f : Graph γ → Node γ → Except Fault (Node γ)) (g : Graph γ) :
    List NodeId → Except Fault (Graph γ)
  | [] => .ok g
  | id :: ids => do
    let g ← sweepNode f g id
    sweep f g ids

variable {f : Graph γ → Node γ → Except Fault (Node γ)} {g : Graph γ}

private theorem sweepNode_of_split {front back : List (Node γ)} {n : Node γ}
    (hsplit : g.nodes = front ++ n :: back) (hids : (g.nodes.map (·.id)).Nodup) :
    sweepNode f g n.id = (f g n).map fun n' => { g with nodes := front ++ n' :: back } := by
  simp only [sweepNode, at?_of_split hsplit hids]
  cases f g n with
  | error e => rfl
  | ok n' => exact congrArg Except.ok (modifyNode_of_split hsplit hids fun _ => n')

/-! ## All nodes -/

/-- The computation turns the nodes behind the front into others, one after the other. -/
inductive Swept (f : Graph γ → Node γ → Except Fault (Node γ)) (g : Graph γ) :
    List (Node γ) → List (Node γ) → List (Node γ) → Prop
  | nil (front : List (Node γ)) : Swept f g front [] []
  | cons {front ns ns' : List (Node γ)} {n n' : Node γ}
      (hnode : f { g with nodes := front ++ n :: ns } n = .ok n')
      (hrest : Swept f g (front ++ [n']) ns ns') : Swept f g front (n :: ns) (n' :: ns')

private theorem Swept.withNodes {front ns ns' : List (Node γ)} (h : Swept f g front ns ns')
    (nodes : List (Node γ)) : Swept f { g with nodes := nodes } front ns ns' := by
  induction h with
  | nil front => exact .nil front
  | cons hnode _ ih => exact .cons hnode ih

/-- Each node of a sweep is turned into another one from some graph. -/
theorem Swept.forall₂ {front ns ns' : List (Node γ)} (h : Swept f g front ns ns') :
    List.Forall₂ (fun n n' => ∃ g', f g' n = .ok n') ns ns' := by
  induction h with
  | nil => exact .nil
  | cons hnode _ ih => exact .cons ⟨_, hnode⟩ ih

/-- A sweep over the nodes behind a front. -/
theorem sweep_eq_ok_iff (hid : ∀ g n n', f g n = .ok n' → n'.id = n.id) {front ns : List (Node γ)}
    (hnodes : g.nodes = front ++ ns) (hids : (g.nodes.map (·.id)).Nodup) {g' : Graph γ} :
    sweep f g (ns.map (·.id)) = .ok g' ↔
      ∃ ns', Swept f g front ns ns' ∧ g' = { g with nodes := front ++ ns' } := by
  induction ns generalizing g front with
  | nil =>
    constructor
    · intro h
      cases h
      exact ⟨[], .nil front, by rw [← hnodes]⟩
    · rintro ⟨ns', hswept, rfl⟩
      cases hswept
      rw [← hnodes]
      rfl
  | cons n ns ih =>
    have hself : { g with nodes := front ++ n :: ns } = g := by rw [← hnodes]
    have hnext : ∀ n', f g n = .ok n' →
        (sweep f { g with nodes := front ++ n' :: ns } (ns.map (·.id)) = .ok g' ↔
          ∃ ns', Swept f g (front ++ [n']) ns ns' ∧ g' = { g with nodes := front ++ n' :: ns' }) := by
      intro n' hn'
      have hsame : (front ++ n' :: ns).map (·.id) = g.nodes.map (·.id) := by
        simp [hnodes, hid g n n' hn']
      have hsplit : ({ g with nodes := front ++ n' :: ns } : Graph γ).nodes = front ++ [n'] ++ ns :=
        List.append_cons front n' ns
      have hrest := ih hsplit (hsame ▸ hids)
      have happend : ∀ ns' : List (Node γ), front ++ [n'] ++ ns' = front ++ n' :: ns' := by simp
      simp only [happend] at hrest
      exact hrest.trans (exists_congr fun ns' =>
        and_congr_left' ⟨fun h => h.withNodes g.nodes, fun h => h.withNodes _⟩)
    rw [List.map_cons, sweep, sweepNode_of_split hnodes hids]
    constructor
    · intro h
      rcases Fault.bind_eq_ok_iff.1 h with ⟨g₁, hfirst, h⟩
      rcases Fault.map_eq_ok_iff.1 hfirst with ⟨n', hn', rfl⟩
      rcases (hnext n' hn').1 h with ⟨ns', hswept, rfl⟩
      exact ⟨n' :: ns', .cons (by rw [hself, hn']) hswept, rfl⟩
    · rintro ⟨_, hswept, rfl⟩
      cases hswept with
      | cons hnode hrest =>
        rw [hself] at hnode
        rw [hnode]
        exact (hnext _ hnode).2 ⟨_, hrest, rfl⟩

end Graph

end NodeFlow
