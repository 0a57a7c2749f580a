import NodeFlow.Graph.Save
import NodeFlow.Load.Normal
import NodeFlow.Proofs.Table

/-!
# Documents as values

The value of a document holds its fields and its free members, without those that are null.  What is
inside a free member stays as it is.  The document of a graph is read back from its value, but for
free members of nodes that are null.

Main results:

- Definition `Document.dump`: the value of a document.
- Definition `Workflow.trim`: a workflow without what its document does not hold.
- Theorem `Workflow.read_dump_save`: what is read from the value of a saved workflow.
- Theorem `Workflow.dump_save_trim`: what is lost was not in the value either.
-/

namespace NodeFlow

/-! ## Values of documents -/

/-- The members that are not null. -/
def Table.present (ms : Members) : Members := ms.filter fun m => !m.2.isNull

/-- An object of the fields and the free members that are not null. -/
def dumpObject (fields free : Members) : Json := .obj (Table.present (fields ++ free))

/-- The fields of a saved input with their values. -/
def SavedInput.dumpFields (s : SavedInput) : Members :=
  [("name", .str s.name), ("type", .str s.type), ("link", Json.ofOption (s.link.map .int)),
    ("widget", Json.ofOption (s.widget.map .obj))]

/-- The value of a saved input. -/
def SavedInput.dump (s : SavedInput) : Json := dumpObject s.dumpFields s.extra

/-- The fields of a saved output with their values. -/
def SavedOutput.dumpFields (s : SavedOutput) : Members :=
  [("name", .str s.name), ("type", .str s.type), ("links", Json.ofOption (s.links.map intsToJson)),
    ("slot_index", Json.ofOption (s.position.map .int))]

/-- The value of a saved output. -/
def SavedOutput.dump (s : SavedOutput) : Json := dumpObject s.dumpFields s.extra

/-- The fields of a saved node with their values, given that of its graph. -/
def NodeRecord.dumpFields (n : NodeRecord) (subgraph : Json) : Members :=
  [("id", n.id.toJson), ("type", .str n.type), ("title", Json.ofOption (n.title.map .str)),
    ("pos", .arr (n.position.map .float)), ("size", .arr (n.size.map .float)),
    ("flags", .obj n.flags), ("order", .int n.order), ("mode", .int n.mode),
    ("inputs", .arr (n.inputs.map SavedInput.dump)),
    ("outputs", .arr (n.outputs.map SavedOutput.dump)), ("properties", .obj n.properties),
    ("widgets_values", Json.ofOption (n.values.map .arr)), ("subgraph", subgraph),
    ("group_inputs", Json.ofOption (n.groupInputs.map fun rs => .arr (rs.map PortRef.toJson))),
    ("group_outputs", Json.ofOption (n.groupOutputs.map fun rs => .arr (rs.map PortRef.toJson)))]

/-- The value of a saved node, given that of its graph. -/
def NodeRecord.dump (n : NodeRecord) (subgraph : Json) : Json :=
  dumpObject (n.dumpFields subgraph) n.extra

/-- The fields of a document with their values, given those of its nodes. -/
def Document.dumpFields (d : Document) (nodes : List Json) : Members :=
  [("last_node_id", .int d.lastNodeId), ("last_link_id", .int d.lastLinkId), ("nodes", .arr nodes),
    ("links", .arr (d.links.map .arr)), ("groups", .arr (d.groups.map .obj)),
    ("config", .obj d.config), ("extra", .obj d.extraData), ("version", .float d.version)]

mutual
/-- The value of a document. -/
def Document.dump : Document → Json
  | ⟨lastNodeId, lastLinkId, nodes, links, groups, config, extraData, version, extra⟩ =>
    dumpObject (Document.dumpFields
      ⟨lastNodeId, lastLinkId, nodes, links, groups, config, extraData, version, extra⟩
      (Document.dumpNodes nodes)) extra

/-- The values of saved nodes. -/
def Document.dumpNodes : List (SavedNode Document) → List Json
  | [] => []
  | ⟨n, some subgraph⟩ :: nodes => n.dump subgraph.dump :: Document.dumpNodes nodes
  | ⟨n, none⟩ :: nodes => n.dump .null :: Document.dumpNodes nodes
end

/-- The value of a saved node with its graph. -/
def SavedNode.dump (n : SavedNode Document) : Json :=
  n.toNodeRecord.dump (Json.ofOption (n.subgraph.map Document.dump))

private theorem Document.dumpNodes_eq (ns : List (SavedNode Document)) :
    Document.dumpNodes ns = ns.map SavedNode.dump := by
  induction ns with
  | nil => rw [Document.dumpNodes, List.map_nil]
  | cons n ns ih =>
    rcases n with ⟨n, _ | d⟩ <;>
    · rw [Document.dumpNodes, ih]
      rfl

private theorem Document.dump_eq (d : Document) :
    d.dump = dumpObject (d.dumpFields (d.nodes.map SavedNode.dump)) d.extra := by
  rcases d with ⟨lastNodeId, lastLinkId, nodes, links, groups, config, extraData, version, extra⟩
  rw [Document.dump, Document.dumpNodes_eq]

/-! ## What a document does not hold -/

/-- The input without a widget name that counts as false. -/
def InputSlot.trim (s : InputSlot) : InputSlot :=
  { s with widget := if s.widget.truthy then s.widget else .null }

/-- The node without widget names that count as false and without free members that are null. -/
def Node.trim {γ : Type} (n : Node γ) : Node γ :=
  { n with inputs := n.inputs.map InputSlot.trim, extra := Table.present n.extra }

/-- The graph with trimmed nodes. -/
def Graph.trim {γ : Type} (g : Graph γ) : Graph γ :=
  { g with nodes := g.nodes.map Node.trim, lastLinkId := .number g.lastLinkId.val }

/-- The node with another graph inside. -/
def Node.onGroup (f : Subgraph → Subgraph) (n : Node Group) : Node Group :=
  match n.kind with
  | .group x => { n with kind := .group { x with graph := f x.graph } }
  | _ => n

section OnGroup

variable {n : Node Group} {x : Group} (f f' : Subgraph → Subgraph)

/-- A node with a graph inside is a group of it. -/
theorem Node.kind_eq_of_group? (h : n.group? = some x) : n.kind = .group x := by
  unfold group? at h
  split at h
  · rename_i y hkind
    rw [hkind, Option.some.inj h]
  · cases h

/-- A change inside a group keeps the id of the node. -/
theorem Node.id_onGroup (n : Node Group) : (n.onGroup f).id = n.id := by
  unfold onGroup
  split <;> rfl

/-- A change inside a group is one of its graph. -/
theorem Node.onGroup_of_group? (h : n.group? = some x) :
    n.onGroup f = { n with kind := .group { x with graph := f x.graph } } := by
  unfold onGroup
  rw [kind_eq_of_group? h]

/-- A change inside groups leaves other nodes alone. -/
theorem Node.onGroup_of_none (h : n.group? = none) : n.onGroup f = n := by
  unfold onGroup
  cases hkind : n.kind with
  | group x =>
    rw [group?, hkind] at h
    cases h
  | _ => rfl

/-- What is inside after a change is the changed graph. -/
theorem Node.group?_onGroup (n : Node Group) :
    (n.onGroup f).group? = n.group?.map fun x => { x with graph := f x.graph } := by
  cases h : n.group? with
  | none => rw [onGroup_of_none f h, h]; rfl
  | some x => rw [onGroup_of_group? f h]; rfl

/-- Two changes inside a group are one. -/
theorem Node.onGroup_onGroup (n : Node Group) :
    (n.onGroup f).onGroup f' = n.onGroup fun g => f' (f g) := by
  cases h : n.group? with
  | none => rw [onGroup_of_none f h, onGroup_of_none f' h, onGroup_of_none _ h]
  | some x =>
    rw [onGroup_of_group? f h, onGroup_of_group? _ h]
    rfl

end OnGroup

/-- The trimmed node, and the nodes inside it trimmed. -/
def Node.trimDeep (n : Node Group) : Node Group := n.trim.onGroup Graph.trim

/-- The workflow with trimmed nodes, also inside groups. -/
def Workflow.trim (g : Workflow) : Workflow :=
  { Graph.trim g with nodes := g.nodes.map Node.trimDeep }

/-! ## Checking what is there -/

namespace Check

variable {α β : Type}

private theorem pure_bind (a : α) (f : α → Checked β) : (pure a : Checked α) >>= f = f a := rfl

private theorem under_pure (part : PathPart) (a : α) :
    (pure a : Checked α).under part = pure a := rfl

/-- A list of values of things that are read back. -/
theorem items_map {item : Json → Checked α} {f : β → Json} {h : β → α} {xs : List β}
    (hxs : ∀ x ∈ xs, item (f x) = pure (h x)) (i : Nat) :
    items item i (xs.map f) = pure (xs.map h) := by
  induction xs generalizing i with
  | nil => rfl
  | cons x xs ih =>
    rw [List.map_cons, items, hxs x List.mem_cons_self, under_pure, pure_bind,
      ih fun y hy => hxs y (List.mem_cons_of_mem x hy)]
    rfl

private theorem nodeId_toJson (id : NodeId) : nodeId id.toJson = pure id := by cases id <;> rfl

private theorem items_any (vs : List Json) (i : Nat) : items any i vs = pure vs := by
  have hmap : items any i (vs.map id) = pure (vs.map id) := items_map (fun _ _ => rfl) i
  simpa using hmap

/-- The members are the fields and the free members that are not null.  Names differ, so that each
field can be found. -/
structure Holds (fields free ms : Members) : Prop where
  nodup : (Table.names fields).Nodup
  disjoint : ∀ name ∈ Table.names free, name ∉ Table.names fields
  eq : ms = Table.present (fields ++ free)

namespace Holds

variable {fields free ms : Members} {name : String} {v : Json} {check : Json → Checked α} {a : α}
  (h : Holds fields free ms)

include h

/-- A field that is not null is found, and one that is null is not. -/
theorem get?_eq (hv : Table.get? fields name = some v) :
    Table.get? ms name = if v.isNull then none else some v := by
  have hfree : Table.get? (Table.present free) name = none := by
    cases hget : Table.get? (Table.present free) name with
    | none => rfl
    | some w =>
      have hmem := (List.mem_filter.1 (Table.mem_of_get? hget)).1
      exact absurd (Table.mem_names_of_mem (Table.mem_of_get? hv))
        (h.disjoint name (Table.mem_names_of_mem hmem))
  have hfields : Table.get? (Table.present fields) name = if v.isNull then none else some v := by
    rw [Table.present, Table.get?_filter (fun w => !w.isNull) h.nodup, hv]
    cases hnull : v.isNull <;> simp [Option.filter, hnull]
  have happend : ∀ front : Members, Table.get? (front ++ Table.present free) name =
      Table.get? front name := by
    intro front
    induction front with
    | nil => exact hfree
    | cons e front ih =>
      rcases e with ⟨k, w⟩
      simp only [List.cons_append, Table.get?, ih]
  rw [h.eq, Table.present, List.filter_append]
  exact (happend _).trans hfields

private theorem optional_eq {absent : α} (hv : Table.get? fields name = some v)
    (hcheck : check v = pure a)
    (hnull : v.isNull = false) : optional ms name absent check = pure a := by
  rw [optional, h.get?_eq hv, hnull]
  simp only [Bool.false_eq_true, if_false, hcheck]
  rfl

private theorem required_eq [Inhabited α] (hv : Table.get? fields name = some v)
    (hcheck : check v = pure a) (hnull : v.isNull = false) : required ms name check = pure a := by
  rw [required, h.get?_eq hv, hnull]
  simp only [Bool.false_eq_true, if_false, hcheck]
  rfl

/-- A field that may be null is left out where it is. -/
theorem maybe_eq {a : Option α} (hv : Table.get? fields name = some v)
    (hcheck : nullable check v = pure a) : maybe ms name check = pure a := by
  cases hnull : v.isNull with
  | false => exact h.optional_eq hv hcheck hnull
  | true =>
    cases v <;> cases hnull
    cases hcheck
    rw [maybe, optional, h.get?_eq hv]
    rfl

/-- What is left besides the fields. -/
theorem others_eq : others (Table.names fields) ms = Table.present free := by
  have hfields : others (Table.names fields) (Table.present fields) = [] := by
    refine List.filter_eq_nil_iff.2 fun m hm => ?_
    have hname : m.1 ∈ Table.names fields := List.mem_map_of_mem (List.mem_filter.1 hm).1
    simpa using hname
  have hfree : others (Table.names fields) (Table.present free) = Table.present free := by
    refine List.filter_eq_self.2 fun m hm => ?_
    have hname := h.disjoint m.1 (List.mem_map_of_mem (List.mem_filter.1 hm).1)
    simpa using hname
  have hsplit : Table.present (fields ++ free) = Table.present fields ++ Table.present free :=
    List.filter_append ..
  rw [h.eq, hsplit, others, List.filter_append]
  exact (congrArg₂ (· ++ ·) hfields hfree).trans (List.nil_append _)

end Holds

private theorem nullable_some {check : Json → Checked α} {v : Json} {a : α}
    (hnull : v.isNull = false) (h : check v = pure a) : nullable check v = pure (some a) := by
  cases v with
  | null => cases hnull
  | _ =>
    simp only [nullable, h]
    rfl

/-- A field of a value that may be absent. -/
theorem nullable_ofOption {check : Json → Checked α} {f : α → Json} {o : Option α}
    (hnull : ∀ x, (f x).isNull = false) (ho : ∀ x, o = some x → check (f x) = pure x) :
    nullable check (Json.ofOption (o.map f)) = pure o := by
  cases o with
  | none => rfl
  | some x => exact nullable_some (hnull x) (ho x rfl)

/-- A list of values of things that are read back. -/
theorem list_map {item : Json → Checked α} {f : α → Json} {xs : List α}
    (hxs : ∀ x ∈ xs, item (f x) = pure x) : list item (.arr (xs.map f)) = pure xs := by
  have hitems := items_map (h := id) hxs 0
  rwa [List.map_id] at hitems

end Check

/-! ## Reading back -/

private theorem PortRef.check_toJson (r : PortRef) : PortRef.check r.toJson = pure r := by
  have hnode : Check.required [("node_id", r.node.toJson), ("slot", .int r.slot)] "node_id"
      Check.nodeId = pure r.node := by
    simp only [Check.required, Table.get?, if_true, Check.nodeId_toJson]
    rfl
  rw [PortRef.check, PortRef.toJson, Check.record, hnode]
  rfl

/-- An input without free members is read back from its value. -/
theorem SavedInput.check_dump {s : SavedInput} (h : s.extra = []) :
    SavedInput.check s.dump = pure s := by
  have hread : ∀ ms, Check.Holds s.dumpFields [] ms → SavedInput.check (.obj ms) = pure s := by
    intro ms hms
    have hname : Check.required ms "name" Check.text = pure s.name := hms.required_eq rfl rfl rfl
    have htype : Check.optional ms "type" "*" Check.text = pure s.type :=
      hms.optional_eq rfl rfl rfl
    have hlink : Check.maybe ms "link" Check.int = pure s.link :=
      hms.maybe_eq rfl (Check.nullable_ofOption (fun _ => rfl) fun _ _ => rfl)
    have hwidget : Check.maybe ms "widget" Check.object = pure s.widget :=
      hms.maybe_eq rfl (Check.nullable_ofOption (fun _ => rfl) fun _ _ => rfl)
    have hothers : Check.others ["name", "type", "link", "widget"] ms = s.extra :=
      hms.others_eq.trans h.symm
    rw [SavedInput.check, Check.record, hname, Check.pure_bind, htype, Check.pure_bind, hlink,
      Check.pure_bind, hwidget, Check.pure_bind, hothers]
  have hnames : Table.names s.dumpFields = ["name", "type", "link", "widget"] := rfl
  rw [dump, dumpObject, h]
  exact hread _ ⟨by rw [hnames]; decide, nofun, rfl⟩

/-- An output without free members is read back from its value. -/
theorem SavedOutput.check_dump {s : SavedOutput} (h : s.extra = []) :
    SavedOutput.check s.dump = pure s := by
  have hread : ∀ ms, Check.Holds s.dumpFields [] ms → SavedOutput.check (.obj ms) = pure s := by
    intro ms hms
    have hname : Check.required ms "name" Check.text = pure s.name := hms.required_eq rfl rfl rfl
    have htype : Check.optional ms "type" "*" Check.text = pure s.type :=
      hms.optional_eq rfl rfl rfl
    have hlinks : Check.maybe ms "links" (Check.list Check.int) = pure s.links :=
      hms.maybe_eq rfl (Check.nullable_ofOption (fun _ => rfl) fun _ _ =>
        Check.list_map fun _ _ => rfl)
    have hposition : Check.maybe ms "slot_index" Check.int = pure s.position :=
      hms.maybe_eq rfl (Check.nullable_ofOption (fun _ => rfl) fun _ _ => rfl)
    have hothers : Check.others ["name", "type", "links", "slot_index"] ms = s.extra :=
      hms.others_eq.trans h.symm
    rw [SavedOutput.check, Check.record, hname, Check.pure_bind, htype, Check.pure_bind, hlinks,
      Check.pure_bind, hposition, Check.pure_bind, hothers]
  have hnames : Table.names s.dumpFields = ["name", "type", "links", "slot_index"] := rfl
  rw [dump, dumpObject, h]
  exact hread _ ⟨by rw [hnames]; decide, nofun, rfl⟩

/-- The record without free members that are null. -/
def NodeRecord.compact (n : NodeRecord) : NodeRecord := { n with extra := Table.present n.extra }

/-- A saved node is read back from its value, but for free members that are null. -/
theorem SavedNode.check_dump {δ : Type} {check : Json → Checked δ} {n : NodeRecord} {subgraph : Json}
    {d : Option δ} (hinputs : ∀ s ∈ n.inputs, s.extra = []) (houtputs : ∀ s ∈ n.outputs, s.extra = [])
    (hextra : ∀ name ∈ Table.names n.extra, name ∉ SavedNode.fields)
    (hsubgraph : Check.nullable check subgraph = pure d) :
    SavedNode.check check (n.dump subgraph) = pure ⟨n.compact, d⟩ := by
  have hread : ∀ ms, Check.Holds (n.dumpFields subgraph) n.extra ms →
      SavedNode.check check (.obj ms) = pure ⟨n.compact, d⟩ := by
    intro ms hms
    have hid : Check.required ms "id" Check.nodeId = pure n.id :=
      hms.required_eq rfl (Check.nodeId_toJson n.id) (by cases n.id <;> rfl)
    have htype : Check.required ms "type" Check.text = pure n.type := hms.required_eq rfl rfl rfl
    have htitle : Check.maybe ms "title" Check.text = pure n.title :=
      hms.maybe_eq rfl (Check.nullable_ofOption (fun _ => rfl) fun _ _ => rfl)
    have hposition : Check.optional ms "pos" [0.0, 0.0] (Check.list Check.float) =
        pure n.position := hms.optional_eq rfl (Check.list_map fun _ _ => rfl) rfl
    have hsize : Check.optional ms "size" [0.0, 0.0] (Check.list Check.float) = pure n.size :=
      hms.optional_eq rfl (Check.list_map fun _ _ => rfl) rfl
    have hflags : Check.optional ms "flags" [] Check.object = pure n.flags :=
      hms.optional_eq rfl rfl rfl
    have horder : Check.optional ms "order" 0 Check.int = pure n.order :=
      hms.optional_eq rfl rfl rfl
    have hmode : Check.optional ms "mode" 0 Check.int = pure n.mode := hms.optional_eq rfl rfl rfl
    have hinputs : Check.optional ms "inputs" [] (Check.list SavedInput.check) = pure n.inputs :=
      hms.optional_eq rfl (Check.list_map fun s hs => SavedInput.check_dump (hinputs s hs)) rfl
    have houtputs : Check.optional ms "outputs" [] (Check.list SavedOutput.check) =
        pure n.outputs :=
      hms.optional_eq rfl (Check.list_map fun s hs => SavedOutput.check_dump (houtputs s hs)) rfl
    have hproperties : Check.optional ms "properties" [] Check.object = pure n.properties :=
      hms.optional_eq rfl rfl rfl
    have hvalues : Check.maybe ms "widgets_values" (Check.list Check.any) = pure n.values :=
      hms.maybe_eq rfl (Check.nullable_ofOption (fun _ => rfl) fun vs _ => Check.items_any vs 0)
    have hsubgraph : Check.maybe ms "subgraph" check = pure d := hms.maybe_eq rfl hsubgraph
    have hports : ∀ rs : List PortRef, Check.list PortRef.check (.arr (rs.map PortRef.toJson)) =
        pure rs := fun rs => Check.list_map fun r _ => PortRef.check_toJson r
    have hgroupInputs : Check.maybe ms "group_inputs" (Check.list PortRef.check) =
        pure n.groupInputs :=
      hms.maybe_eq rfl (Check.nullable_ofOption (fun _ => rfl) fun rs _ => hports rs)
    have hgroupOutputs : Check.maybe ms "group_outputs" (Check.list PortRef.check) =
        pure n.groupOutputs :=
      hms.maybe_eq rfl (Check.nullable_ofOption (fun _ => rfl) fun rs _ => hports rs)
    have hothers : Check.others SavedNode.fields ms = Table.present n.extra := hms.others_eq
    rw [SavedNode.check, Check.record]
    simp only [hid, htype, htitle, hposition, hsize, hflags, horder, hmode, hinputs, houtputs,
      hproperties, hvalues, hsubgraph, hgroupInputs, hgroupOutputs, hothers, Check.pure_bind]
    rfl
  have hnames : Table.names (n.dumpFields subgraph) = SavedNode.fields := rfl
  exact hread _ ⟨by rw [hnames]; decide, by rwa [hnames], rfl⟩

/-- A document is read back from its value if its nodes are. -/
theorem Document.checkWithin_dump {bound : Nat} {d : Document} {nodes : List (SavedNode Document)}
    (hnodes : Check.list (SavedNode.check (Document.checkWithin bound))
      (.arr (d.nodes.map SavedNode.dump)) = pure nodes) (h : d.extra = []) :
    Document.checkWithin (bound + 1) d.dump = pure { d with nodes := nodes } := by
  have hread : ∀ ms, Check.Holds (d.dumpFields (d.nodes.map SavedNode.dump)) [] ms →
      Document.checkWithin (bound + 1) (.obj ms) = pure { d with nodes := nodes } := by
    intro ms hms
    have hlastNodeId : Check.optional ms "last_node_id" 0 Check.int = pure d.lastNodeId :=
      hms.optional_eq rfl rfl rfl
    have hlastLinkId : Check.optional ms "last_link_id" 0 Check.int = pure d.lastLinkId :=
      hms.optional_eq rfl rfl rfl
    have hnodes : Check.optional ms "nodes" []
        (Check.list (SavedNode.check (Document.checkWithin bound))) = pure nodes :=
      hms.optional_eq rfl hnodes rfl
    have hlinks : Check.optional ms "links" [] (Check.list (Check.list Check.any)) = pure d.links :=
      hms.optional_eq rfl (Check.list_map fun vs _ => Check.items_any vs 0) rfl
    have hgroups : Check.optional ms "groups" [] (Check.list Check.object) = pure d.groups :=
      hms.optional_eq rfl (Check.list_map fun _ _ => rfl) rfl
    have hconfig : Check.optional ms "config" [] Check.object = pure d.config :=
      hms.optional_eq rfl rfl rfl
    have hextra : Check.optional ms "extra" [] Check.object = pure d.extraData :=
      hms.optional_eq rfl rfl rfl
    have hversion : Check.optional ms "version" 0.4 Check.float = pure d.version :=
      hms.optional_eq rfl rfl rfl
    have hothers : Check.others Document.fields ms = d.extra := hms.others_eq.trans h.symm
    rw [Document.checkWithin, Check.record]
    simp only [hlastNodeId, hlastLinkId, hnodes, hlinks, hgroups, hconfig, hextra, hversion,
      hothers, Check.pure_bind]
  have hnames : Table.names (d.dumpFields (d.nodes.map SavedNode.dump)) = Document.fields := rfl
  have hdump : d.dump = .obj (Table.present (d.dumpFields (d.nodes.map SavedNode.dump) ++ [])) := by
    rw [Document.dump_eq, h, dumpObject]
  rw [hdump]
  exact hread _ ⟨by rw [hnames]; decide, nofun, rfl⟩

/-! ## Saved graphs -/

/-- No free member of a node has the name of a field. -/
def Graph.FreeNames {γ : Type} (g : Graph γ) : Prop :=
  ∀ n ∈ g.nodes, ∀ name ∈ Table.names n.extra, name ∉ SavedNode.fields

section Saved

variable {γ : Type}

private theorem InputSlot.save_trim (s : InputSlot) : s.trim.save = s.save := by
  unfold InputSlot.trim InputSlot.save
  cases h : s.widget.truthy
  · simp [Json.truthy]
  · simp [h]

/-- What is saved of a trimmed node. -/
theorem Node.record_trim (n : Node γ) : n.trim.record = n.record.compact := by
  have hinputs : (n.inputs.map InputSlot.trim).map InputSlot.save = n.inputs.map InputSlot.save := by
    rw [List.map_map]
    exact List.map_congr_left fun s _ => InputSlot.save_trim s
  rw [Node.record, Node.record]
  simp only [Node.trim, hinputs]
  rfl

private theorem Node.extra_of_mem_inputs_record {n : Node γ} {s : SavedInput}
    (hs : s ∈ n.record.inputs) : s.extra = [] := by
  rcases List.mem_map.1 hs with ⟨_, _, rfl⟩
  rfl

private theorem Node.extra_of_mem_outputs_record {n : Node γ} {s : SavedOutput}
    (hs : s ∈ n.record.outputs) : s.extra = [] := by
  rcases List.mem_mapIdx.1 hs with ⟨i, hi, rfl⟩
  rfl

end Saved

/-- A saved graph is read back if its nodes are. -/
theorem Graph.check_dump_saveWith {γ : Type} {g g' : Graph γ} {save : Node γ → SavedNode Document}
    {trim : Node γ → Node γ} {bound : Nat} (hg : g' = { g with
      nodes := g.nodes.map trim, lastLinkId := .number g.lastLinkId.val })
    (hnodes : ∀ n ∈ g.nodes,
      SavedNode.check (Document.checkWithin bound) (save n).dump = pure (save (trim n))) :
    Document.checkWithin (bound + 1) (g.saveWith save).dump = pure (g'.saveWith save) := by
  have hitems : Check.list (SavedNode.check (Document.checkWithin bound))
      (.arr ((g.nodes.map save).map SavedNode.dump)) = pure ((g.nodes.map trim).map save) := by
    rw [List.map_map, List.map_map]
    exact Check.items_map hnodes 0
  rw [Document.checkWithin_dump hitems rfl, hg]
  rfl

/-- The document of the graph inside a group is read back. -/
theorem Subgraph.check_dump_save {g : Subgraph} (h : g.FreeNames) (bound : Nat) :
    Document.checkWithin (bound + 1) (Subgraph.save g).dump = pure (Subgraph.save g.trim) := by
  refine Graph.check_dump_saveWith rfl fun n hn => ?_
  rw [Node.record_trim]
  exact SavedNode.check_dump (fun _ => Node.extra_of_mem_inputs_record)
    (fun _ => Node.extra_of_mem_outputs_record) (h n hn) rfl

section TrimDeep

variable {n : Node Group} {x : Group}

private theorem Node.record_trimDeep (n : Node Group) : n.trimDeep.record = n.record.compact := by
  have hgroup : ∀ m : Node Group, (m.onGroup Graph.trim).record = m.record := by
    intro m
    cases hkind : m.kind <;> simp [onGroup, record, savedValues, hkind]
  rw [trimDeep, hgroup, record_trim]

/-- A group is saved with the graph inside it. -/
theorem Node.save_of_group? (h : n.group? = some x) : n.save = { n.record with
    subgraph := some (Subgraph.save x.graph)
    groupInputs := some x.inputs
    groupOutputs := some x.outputs } := by simp only [save, h]

/-- A node that is no group is saved without a graph inside. -/
theorem Node.save_of_none (h : n.group? = none) : n.save = { n.record with } := by
  simp only [save, h]

/-- What is inside a group is trimmed with it. -/
theorem Node.group?_trimDeep (n : Node Group) :
    n.trimDeep.group? = n.group?.map fun x => { x with graph := x.graph.trim } :=
  group?_onGroup Graph.trim n.trim

end TrimDeep

/-- A saved workflow is read back from its value, but for what its document does not hold. -/
theorem Workflow.read_dump_save {g : Workflow} (houter : Graph.FreeNames g)
    (hinner : ∀ n ∈ g.nodes, ∀ group, n.group? = some group → group.graph.FreeNames) :
    Document.read (Workflow.save g).dump = .ok (Workflow.save (trim g)) := by
  have hcheck : Document.check (Workflow.save g).dump = pure (Workflow.save (trim g)) := by
    show Document.checkWithin (253 + 1) _ = _
    refine Graph.check_dump_saveWith rfl fun n hn => ?_
    have hinputs : ∀ s ∈ n.record.inputs, s.extra = [] := fun _ => Node.extra_of_mem_inputs_record
    have houtputs : ∀ s ∈ n.record.outputs, s.extra = [] := fun _ =>
      Node.extra_of_mem_outputs_record
    cases hgroup : n.group? with
    | some x =>
      have htrimmed : n.trimDeep.group? = some { x with graph := x.graph.trim } := by
        rw [Node.group?_trimDeep, hgroup]
        rfl
      have hgraph : Check.nullable (Document.checkWithin 253)
          (Json.ofOption (some (Subgraph.save x.graph).dump)) =
            pure (some (Subgraph.save x.graph.trim)) := by
        refine Check.nullable_some ?_ (Subgraph.check_dump_save (hinner n hn x hgroup) 252)
        rw [Document.dump_eq]
        rfl
      rw [Node.save_of_group? hgroup, Node.save_of_group? htrimmed, Node.record_trimDeep]
      exact SavedNode.check_dump hinputs houtputs (houter n hn) hgraph
    | none =>
      have htrimmed : n.trimDeep.group? = none := by
        rw [Node.group?_trimDeep, hgroup]
        rfl
      rw [Node.save_of_none hgroup, Node.save_of_none htrimmed, Node.record_trimDeep]
      exact SavedNode.check_dump hinputs houtputs (houter n hn) rfl
  rw [Document.read, hcheck]
  rfl

/-! ## Saving what was trimmed -/

private theorem NodeRecord.dump_compact (n : NodeRecord) (subgraph : Json) :
    n.compact.dump subgraph = n.dump subgraph := by
  have hpresent : ∀ fields : Members, Table.present (fields ++ Table.present n.extra) =
      Table.present (fields ++ n.extra) := by
    intro fields
    simp [Table.present, List.filter_append, List.filter_filter]
  exact congrArg Json.obj (hpresent (n.dumpFields subgraph))

private theorem Subgraph.dump_save_trim (g : Subgraph) :
    (Subgraph.save g.trim).dump = (Subgraph.save g).dump := by
  have hnode : ∀ n : Node Empty, SavedNode.dump { n.trim.record with } =
      SavedNode.dump { n.record with } := by
    intro n
    rw [Node.record_trim]
    exact NodeRecord.dump_compact n.record .null
  have hnodes : (Subgraph.save g.trim).nodes.map SavedNode.dump =
      (Subgraph.save g).nodes.map SavedNode.dump := by
    simp only [Subgraph.save, Graph.saveWith, Graph.trim, List.map_map]
    exact List.map_congr_left fun n _ => hnode n
  rw [Document.dump_eq, Document.dump_eq, hnodes]
  rfl

private theorem Node.dump_save_trimDeep (n : Node Group) : n.trimDeep.save.dump = n.save.dump := by
  have hgroup? := n.group?_trimDeep
  cases hgroup : n.group? with
  | none =>
    rw [hgroup] at hgroup?
    rw [save_of_none hgroup, save_of_none hgroup?, record_trimDeep]
    exact NodeRecord.dump_compact n.record .null
  | some x =>
    rw [hgroup] at hgroup?
    rw [save_of_group? hgroup, save_of_group? hgroup?, record_trimDeep]
    have hgraph := Subgraph.dump_save_trim x.graph
    simp only [SavedNode.dump, Option.map_some, hgraph]
    exact NodeRecord.dump_compact { n.record with
      groupInputs := some x.inputs, groupOutputs := some x.outputs } _

/-- What is saved of a trimmed workflow is what is saved of the workflow. -/
theorem Workflow.dump_save_trim (g : Workflow) :
    (Workflow.save (trim g)).dump = (Workflow.save g).dump := by
  have hnodes : (Workflow.save (trim g)).nodes.map SavedNode.dump =
      (Workflow.save g).nodes.map SavedNode.dump := by
    simp only [save, Graph.saveWith, trim, List.map_map]
    exact List.map_congr_left fun n _ => n.dump_save_trimDeep
  rw [Document.dump_eq, Document.dump_eq, hnodes]
  rfl

end NodeFlow
