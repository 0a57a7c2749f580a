import NodeFlow.Act
import NodeFlow.Graph.Node
import NodeFlow.Text.Digit

/-!
# Graphs

A graph holds nodes in the order of their coming and links by number.  A lookup accepts an id in
either spelling, as a number or as its numeral.

Main results:

- Type `Graph`; definitions `Graph.at?`, `Graph.lookup?`, `Graph.named?` and `Graph.link?`.
- Definition `Graph.candidates`: the nodes by their order attribute.
- Theorems `Graph.at?_of_mem` and `Graph.lookup?_of_at?`: an id that a node carries finds that node.
- Theorem `Graph.link?_of_mem`: the number of a link finds that link.
- Theorem `Graph.mem_of_lookup?`: a lookup finds nodes of the graph only.
- Theorem `Graph.candidates_perm`: the candidates are the nodes of the graph.
- Theorems `Graph.outLinks?_of_isCutOff` and `Graph.inLink?_of_isCutOff`: a node that is cut off
  sees no links.
-/

namespace NodeFlow

/-- Nodes and links.  No two nodes have the same id and no two links the same number. -/
structure Graph (γ : Type) where
  nodes : List (Node γ) := []
  links : List Link := []
  lastNodeId : Int := 0
  lastLinkId : Whole := .number 0
  groups : List Members := []
  config : Members := []
  extra : Members := []
  version : Float := 0.4
  deriving Inhabited

/-- The graph inside a group; its nodes are no groups. -/
abbrev Subgraph := Graph Empty

/-- What a group node stands for: a graph, the inner slots behind its inputs, and the inner slots
behind its outputs. -/
structure Group where
  graph : Subgraph
  inputs : List PortRef
  outputs : List PortRef
  deriving Inhabited

/-- The graph that the editor shows; its nodes may be groups. -/
abbrev Workflow := Graph Group

/-- A graph without groups as a workflow. -/
def Subgraph.widen (g : Subgraph) : Workflow := { g with nodes := g.nodes.map Node.widen }

namespace Graph

variable {γ : Type}

/-! ## Lookup -/

/-- The node that carries exactly this id. -/
def at? (g : Graph γ) (id : NodeId) : Option (Node γ) := g.nodes.find? (·.id == id)

/-- The id that equals a value, if it can be one at all. -/
def idOf? : Json → Option NodeId
  | .str s => some (.name s)
  | .int n => some (.number n)
  | .bool b => some (.number (if b then 1 else 0))
  | .float x =>
    match Decimal.Binary.ofFloat? x with
    | some b => if b.isWhole then some (.number b.truncate) else none
    | none => none
  | _ => none

/-- The other spelling of a value as an id.  A text that looks like a number but is no numeral is
refused. -/
def otherSpelling? : Json → Except Fault (Option NodeId)
  | .str s =>
    if Text.looksNumeric s then (Fault.readWhole s).map fun n => some (.number n)
    else .ok none
  | .int n => .ok (some (.name (toString n)))
  | .bool b => .ok (some (.name (Json.bool b).display))
  | _ => .ok none

/-- The node that a value names.  Arrays and objects cannot name anything. -/
def lookup? (g : Graph γ) (v : Json) : Except Fault (Option (Node γ)) :=
  match v with
  | .arr _ => .error (Fault.unhashable v)
  | .obj _ => .error (Fault.unhashable v)
  | v =>
    match (idOf? v).bind g.at? with
    | some n => .ok (some n)
    | none => do
      match ← otherSpelling? v with
      | some id => pure (g.at? id)
      | none => pure none

/-- The node that an id names, in either spelling. -/
def find? (g : Graph γ) (id : NodeId) : Except Fault (Option (Node γ)) := g.lookup? id.toJson

/-- The link of a number. -/
def link? (g : Graph γ) (id : Int) : Option Link := g.links.find? (·.id.val == id)

/-- A node that is found under an id carries it. -/
theorem id_of_at? {g : Graph γ} {id : NodeId} {n : Node γ} (h : g.at? id = some n) :
    n.id = id := by
  have := List.find?_some h
  simpa using this

/-- A node that is found is one of the graph. -/
theorem mem_of_at? {g : Graph γ} {id : NodeId} {n : Node γ} (h : g.at? id = some n) :
    n ∈ g.nodes := List.mem_of_find?_eq_some h

/-- The node that carries an id is found by it, whatever its other spelling is. -/
theorem lookup?_of_at? {g : Graph γ} {id : NodeId} {n : Node γ} (h : g.at? id = some n) :
    g.find? id = .ok (some n) := by
  cases id <;> simp [find?, lookup?, NodeId.toJson, idOf?, h]

/-- Where ids are distinct, a node is found under its own id. -/
theorem at?_of_mem {g : Graph γ} (hids : (g.nodes.map (·.id)).Nodup) {n : Node γ}
    (h : n ∈ g.nodes) : g.at? n.id = some n := by
  obtain ⟨front, back, hsplit⟩ := List.append_of_mem h
  rw [hsplit, List.map_append, List.nodup_append] at hids
  rw [at?, hsplit, List.find?_append, List.find?_eq_none.2]
  · simp
  · intro m hm hid
    exact hids.2.2 m.id (List.mem_map_of_mem hm) n.id (by simp) (by simpa using hid)

/-- Where numbers are distinct, a link is found under its own number. -/
theorem link?_of_mem {g : Graph γ} (hnumbers : (g.links.map (·.id.val)).Nodup) {l : Link}
    (h : l ∈ g.links) : g.link? l.id.val = some l := by
  obtain ⟨front, back, hsplit⟩ := List.append_of_mem h
  rw [hsplit, List.map_append, List.nodup_append] at hnumbers
  rw [link?, hsplit, List.find?_append, List.find?_eq_none.2]
  · simp
  · intro m hm hid
    exact hnumbers.2.2 m.id.val (List.mem_map_of_mem hm) l.id.val (by simp) (by simpa using hid)

/-- A lookup finds nodes of the graph only. -/
theorem mem_of_lookup? {g : Graph γ} {v : Json} {n : Node γ} (h : g.lookup? v = .ok (some n)) :
    n ∈ g.nodes := by
  unfold lookup? at h
  split at h
  · cases h
  · cases h
  · split at h
    · rename_i m hfound
      obtain ⟨id, -, hat⟩ := Option.bind_eq_some_iff.1 hfound
      cases h
      exact mem_of_at? hat
    · cases hother : otherSpelling? v with
      | error f => simp [hother, bind, Except.bind] at h
      | ok other =>
        cases other with
        | none => simp [hother, bind, Except.bind, pure, Except.pure] at h
        | some id =>
          simp only [hother, bind, Except.bind, pure, Except.pure, Except.ok.injEq] at h
          exact mem_of_at? h

/-- The node that a value names, if it names one. -/
def named? (g : Graph γ) (v : Json) : Option (Node γ) := (g.lookup? v).toOption.join

/-- A lookup that does not fail says which node is named. -/
theorem named?_of_lookup? {g : Graph γ} {v : Json} {found : Option (Node γ)}
    (h : g.lookup? v = .ok found) : g.named? v = found := by
  rw [named?, h]
  rfl

/-- A value that names a node finds it. -/
theorem lookup?_of_named? {g : Graph γ} {v : Json} {n : Node γ} (h : g.named? v = some n) :
    g.lookup? v = .ok (some n) := by
  unfold named? at h
  cases hfound : g.lookup? v with
  | error f => simp [hfound, Except.toOption] at h
  | ok found =>
    rw [hfound] at h
    exact congrArg Except.ok h

/-! ## Order of candidates -/

/-- Insert a node in front of the first one that does not come earlier. -/
def insertByOrder (n : Node γ) : List (Node γ) → List (Node γ)
  | [] => [n]
  | m :: ms => if n.order ≤ m.order then n :: m :: ms else m :: insertByOrder n ms

/-- Nodes by ascending order attribute; equal ones keep their order. -/
def sortByOrder : List (Node γ) → List (Node γ)
  | [] => []
  | n :: ns => insertByOrder n (sortByOrder ns)

/-- The nodes by ascending order attribute. -/
def candidates (g : Graph γ) : List (Node γ) := sortByOrder g.nodes

/-- Inserting a node loses none and adds no other. -/
theorem insertByOrder_perm (n : Node γ) (ns : List (Node γ)) :
    (insertByOrder n ns).Perm (n :: ns) := by
  induction ns with
  | nil => exact List.Perm.refl _
  | cons m ms ih =>
    unfold insertByOrder
    split
    · exact List.Perm.refl _
    · exact (ih.cons m).trans (List.Perm.swap n m ms)

/-- Sorting loses no node and adds none. -/
theorem sortByOrder_perm (ns : List (Node γ)) : (sortByOrder ns).Perm ns := by
  induction ns with
  | nil => exact List.Perm.refl _
  | cons n ns ih => exact (insertByOrder_perm n _).trans (ih.cons n)

/-- The candidates are the nodes in another order. -/
theorem candidates_perm (g : Graph γ) : g.candidates.Perm g.nodes := sortByOrder_perm _

/-! ## Changes that keep the structure -/

/-- Change the node that carries exactly this id. -/
def modifyNode (id : NodeId) (f : Node γ → Node γ) (g : Graph γ) : Graph γ :=
  { g with nodes := g.nodes.map fun n => if n.id = id then f n else n }

/-- Add a link, in place of one of the same number. -/
def putLink (l : Link) (g : Graph γ) : Graph γ :=
  { g with
    links := if g.links.any (·.id.val == l.id.val)
      then g.links.map fun m => if m.id.val = l.id.val then l else m
      else g.links ++ [l] }

/-- A link of the table after one is put in is that one, or was there before. -/
theorem mem_links_putLink {l m : Link} {g : Graph γ} (h : m ∈ (g.putLink l).links) :
    m = l ∨ m ∈ g.links := by
  unfold putLink at h
  split at h
  · obtain ⟨m', hm', rfl⟩ := List.mem_map.1 h
    split
    · exact .inl rfl
    · exact .inr hm'
  · exact (List.mem_append.1 h).symm.imp_left List.mem_singleton.1

/-- Remove the link of a number. -/
def dropLink (id : Int) (g : Graph γ) : Graph γ :=
  { g with links := g.links.filter (·.id.val != id) }

/-- The links of an output that exist; none if the node has no such output or is cut off. -/
def outLinks? (g : Graph γ) (n : Node γ) (slot : Int) : Except Fault (List Link) :=
  if n.isCutOff || (n.outputs.length : Int) ≤ slot then .ok []
  else
    match (position? n.outputs.length slot).bind (n.outputs[·]?) with
    | some o => .ok (o.links.filterMap g.link?)
    | none => .error Fault.outside

/-- The link that arrives at an input; none if the node is cut off. -/
def inLink? (g : Graph γ) (n : Node γ) (slot : Int) : Option Link :=
  if n.isCutOff then none else (n.inputLink? slot).bind g.link?

/-- No link leaves a node that is cut off. -/
theorem outLinks?_of_isCutOff {n : Node γ} (h : n.isCutOff = true) (g : Graph γ) (slot : Int) :
    g.outLinks? n slot = .ok [] := by
  simp [outLinks?, h]

/-- No link arrives at a node that is cut off. -/
theorem inLink?_of_isCutOff {n : Node γ} (h : n.isCutOff = true) (g : Graph γ) (slot : Int) :
    g.inLink? n slot = none := by
  simp [inLink?, h]

end Graph

end NodeFlow
