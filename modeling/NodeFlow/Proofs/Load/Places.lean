import NodeFlow.Proofs.Load.Refusal

/-!
# Places of refused entries

A document is applied entry by entry, the links first.  The first entry that cannot be applied stops
the load, and the fault names a place in the document.

The place is the right one for entries of the document itself.  Inside a group it is either the place
of the group or the path within the graph of the group, and a group in a group is refused without a
place.

Main results:

- Type `Stop`; definitions `Stop.path` and `Stop.location`: where an entry stands, and the place that
  the fault names.
- Definition `Registry.Stops`: the first entry of a document that cannot be applied.
- Theorems `Graph.exists_stop_of_configure` and `Graph.fits_of_stopsBy`: a document is configured unless
  an entry of it stops that.
- Theorem `Registry.assemble_location`: the place of the entry that stops the assembly of a graph.
- Theorem `Editor.load_location`: the places that loads report, and when they are right.
-/

namespace NodeFlow

/-! ## Faults without a place -/

/-- The fault is no complaint about a document, so it names no place in one. -/
def Fault.IsPlaceless : Fault → Prop
  | .configuration .. => False
  | _ => True

private theorem FailsWith.map {α β : Type} {P : Fault → Prop} {x : Except Fault α}
    (hx : FailsWith P x) (f : α → β) : FailsWith P (x.map f) := by
  cases x with
  | error e => exact .error (hx e rfl)
  | ok a => exact .ok _

private theorem Fault.readWhole_failsWith (s : String) : FailsWith IsPlaceless (readWhole s) := by
  unfold readWhole
  split
  · exact .ok _
  · exact .error trivial
  · exact .error trivial

namespace Graph

variable {γ : Type} (g : Graph γ)

private theorem lookup?_failsWith (v : Json) : FailsWith Fault.IsPlaceless (g.lookup? v) := by
  have hother : FailsWith Fault.IsPlaceless (otherSpelling? v) := by
    unfold otherSpelling?
    split
    · split
      · exact (Fault.readWhole_failsWith _).map _
      · exact .ok _
    all_goals exact .ok _
  unfold lookup?
  split
  · exact .error trivial
  · exact .error trivial
  · split
    · exact .ok _
    · refine hother.bind fun other _ => ?_
      cases other <;> exact .ok _

private theorem outLinks?_failsWith (n : Node γ) :
    FailsWith Fault.IsPlaceless (g.outLinks? n 0) := by
  rcases exists_outLinks? g n with ⟨ls, hls⟩
  rw [hls]
  exact .ok _

private theorem targetOf_failsWith (l : Link) : FailsWith Fault.IsPlaceless (g.targetOf l) := by
  refine (g.lookup?_failsWith _).bind fun found _ => ?_
  cases found with
  | none => exact .ok _
  | some n =>
    dsimp only
    split
    · exact .ok _
    · split
      · exact .error trivial
      · split
        · split <;> exact .ok _
        · exact .ok _

private theorem targets_failsWith (n : Node γ) : FailsWith Fault.IsPlaceless (g.targets n) := by
  have hlinks : ∀ ls : List Link, FailsWith Fault.IsPlaceless (g.targetsOf ls) := by
    intro ls
    induction ls with
    | nil => exact .ok _
    | cons l ls ih =>
      exact (g.targetOf_failsWith l).bind fun _ _ => ih.bind fun _ _ => .ok _
  exact (g.outLinks?_failsWith n).bind fun ls _ => hlinks ls

private theorem finished_failsWith (n : Node γ) : FailsWith Fault.IsPlaceless (g.finished n) := by
  unfold finished
  split
  · split
    · exact .ok _
    · refine (g.targets_failsWith n).bind fun places _ => ?_
      split <;> exact .ok _
  · exact .ok _

private theorem sweep_failsWith {P : Fault → Prop} {f : Graph γ → Node γ → Except Fault (Node γ)}
    (hf : ∀ g n, FailsWith P (f g n)) (ids : List NodeId) : FailsWith P (sweep f g ids) := by
  induction ids generalizing g with
  | nil => exact .ok _
  | cons id ids ih =>
    refine FailsWith.bind ?_ fun g' _ => ih g'
    unfold sweepNode
    cases g.at? id with
    | none => exact .ok _
    | some n => exact (hf g n).bind fun _ _ => .ok _

end Graph

private theorem Workflow.finish_failsWith (g : Workflow) :
    FailsWith Fault.IsPlaceless (finish g) := by
  rw [finish_eq_sweep]
  refine Graph.sweep_failsWith g (fun g n => ?_) _
  unfold finishedDeep
  split
  · exact Graph.finished_failsWith g n
  · rename_i x _
    rw [Graph.finishAll_eq_sweep]
    exact (Graph.sweep_failsWith x.graph Graph.finished_failsWith _).map _

private theorem Widget.forInput_failsWith (source : RandomSource) (name : String) (type : Json)
    (options : Members) : FailsWith Fault.IsPlaceless (forInput source name type options) := by
  have hwhole : ∀ v : Json, FailsWith Fault.IsPlaceless v.toWhole := by
    intro v
    have hfinite : ∀ x : Float, FailsWith Fault.IsPlaceless (Json.finite x) := by
      intro x
      unfold Json.finite
      split
      · exact .ok _
      · split <;> exact .error trivial
    unfold Json.toWhole
    split
    · exact .ok _
    · exact .ok _
    · exact (hfinite _).map _
    · exact Fault.readWhole_failsWith _
    · exact .error trivial
  have hdouble : ∀ v : Json, FailsWith Fault.IsPlaceless v.toDouble := by
    intro v
    unfold Json.toDouble
    split
    · unfold Json.intToDouble
      split
      · exact .ok _
      · exact .error trivial
    · exact .ok _
    · exact .ok _
    · split
      · exact .ok _
      · exact .error trivial
    · exact .error trivial
  unfold forInput
  dsimp only
  split
  · exact .ok _
  · exact (hwhole _).bind fun _ _ => .ok _
  · exact (hdouble _).bind fun _ _ => .ok _
  · exact .ok _
  · exact .ok _
  · exact .error trivial

private theorem Registry.buildSimple_failsWith {γ : Type} (r : Registry) (type : String) :
    FailsWith Fault.IsPlaceless (r.buildSimple type : Except Fault (Node γ)) := by
  have hfront : ∀ specs : List InputSpec,
      FailsWith Fault.IsPlaceless (Definition.frontOf r.source specs) := by
    intro specs
    induction specs with
    | nil => exact .ok _
    | cons spec specs ih =>
      unfold Definition.frontOf
      split
      · exact (Widget.forInput_failsWith _ _ _ _).bind fun _ _ => ih.bind fun _ _ => .ok _
      · exact ih.bind fun _ _ => .ok _
  unfold buildSimple
  split
  · split
    · exact .error trivial
    · unfold create
      split
      · exact .ok _
      · split
        · exact (hfront _).bind fun _ _ => .ok _
        · exact .error trivial
  · exact .ok _

/-! ## The first entry that cannot be applied -/

section Passes

/- A pass over numbered items, one step for each. -/
variable {σ α : Type} (step : σ → Nat → α → Except Fault σ)
  (run : σ → Nat → List α → Except Fault σ) (hnil : ∀ s k, run s k [] = .ok s)
  (hcons : ∀ s k x xs, run s k (x :: xs) = step s k x >>= fun t => run t (k + 1) xs)

include hnil hcons

/-- A pass fails at the first item whose step fails. -/
theorem first_failure {s : σ} {k : Nat} {xs : List α} {f : Fault} : run s k xs = .error f ↔
    ∃ i x t, xs[i]? = some x ∧ run s k (xs.take i) = .ok t ∧ step t (k + i) x = .error f := by
  induction xs generalizing s k with
  | nil => simp [hnil]
  | cons x xs ih =>
    have hshift : ∀ i, k + (i + 1) = k + 1 + i := fun i => by omega
    rw [hcons, Fault.bind_eq_error_iff]
    constructor
    · rintro (hhere | ⟨t, ht, hrest⟩)
      · exact ⟨0, x, s, rfl, by simp [hnil], hhere⟩
      · rcases ih.1 hrest with ⟨i, y, u, hy, hu, hfails⟩
        refine ⟨i + 1, y, u, hy, ?_, ?_⟩
        · rw [List.take_succ_cons, hcons]
          exact Fault.bind_eq_ok_iff.2 ⟨t, ht, hu⟩
        · rwa [hshift]
    · rintro ⟨i, y, u, hy, hu, hfails⟩
      cases i with
      | zero =>
        rw [List.take_zero, hnil] at hu
        cases hu
        cases hy
        exact .inl hfails
      | succ i =>
        rw [List.take_succ_cons, hcons] at hu
        rcases Fault.bind_eq_ok_iff.1 hu with ⟨t, ht, hu⟩
        refine .inr ⟨t, ht, ih.2 ⟨i, y, u, hy, hu, ?_⟩⟩
        rwa [hshift] at hfails

/-- A pass fails at one item only. -/
theorem first_failure_unique {s t u : σ} {k i j : Nat} {x y : α} {xs : List α} {f f' : Fault}
    (hx : xs[i]? = some x) (ht : run s k (xs.take i) = .ok t) (hfails : step t (k + i) x = .error f)
    (hy : xs[j]? = some y) (hu : run s k (xs.take j) = .ok u)
    (hfails' : step u (k + j) y = .error f') : j = i := by
  induction xs generalizing s k i j with
  | nil => cases hx
  | cons z xs ih =>
    have hshift : ∀ i, k + (i + 1) = k + 1 + i := fun i => by omega
    have hfirst : ∀ {m v}, run s k ((z :: xs).take (m + 1)) = .ok v →
        ∃ w, step s k z = .ok w ∧ run w (k + 1) (xs.take m) = .ok v := by
      intro m v hv
      rw [List.take_succ_cons, hcons] at hv
      exact Fault.bind_eq_ok_iff.1 hv
    rcases i with _ | i <;> rcases j with _ | j
    · rfl
    · rcases hfirst hu with ⟨w, hw, -⟩
      rw [List.take_zero, hnil] at ht
      cases ht
      cases hx
      cases hw.symm.trans hfails
    · rcases hfirst ht with ⟨w, hw, -⟩
      rw [List.take_zero, hnil] at hu
      cases hu
      cases hy
      cases hw.symm.trans hfails'
    · rcases hfirst ht with ⟨w, hw, ht⟩
      rcases hfirst hu with ⟨w', hw', hu⟩
      cases hw.symm.trans hw'
      rw [hshift] at hfails hfails'
      exact congrArg (· + 1) (ih hx ht hfails hy hu hfails')

end Passes

/-- The entry holds the numbers of a link and of its slots, and both of its ends. -/
def Link.IsEntry : List Json → Prop
  | id :: origin :: originSlot :: target :: targetSlot :: _ =>
    (Whole.ofJson? id).isSome ∧ (Whole.ofJson? originSlot).isSome ∧
      (Whole.ofJson? targetSlot).isSome ∧ origin.isNull = false ∧ target.isNull = false
  | _ => False

/-- An entry is a link, or it is refused with its place. -/
theorem Link.ofJson_cases (entry : List Json) (location : String) :
    (IsEntry entry ∧ ∃ l, Link.ofJson (.arr entry) location = .ok l) ∨
      ¬ IsEntry entry ∧ ∃ detail, Link.ofJson (.arr entry) location =
        .error (.configuration detail (some location) none) := by
  by_cases hlong : ∃ id origin originSlot target targetSlot rest,
      entry = id :: origin :: originSlot :: target :: targetSlot :: rest
  · rcases hlong with ⟨id, origin, originSlot, target, targetSlot, rest, rfl⟩
    have hparts : parts? (.arr (id :: origin :: originSlot :: target :: targetSlot :: rest)) =
        some (id :: origin :: originSlot :: target :: targetSlot :: rest) := by
      simp [parts?]
    rw [ofJson, hparts]
    simp only [IsEntry]
    cases Whole.ofJson? id <;> cases Whole.ofJson? originSlot <;>
      cases Whole.ofJson? targetSlot <;> cases origin.isNull <;> cases target.isNull <;> simp
  · have hshort : entry.length < 5 := by
      by_contra hlength
      apply hlong
      rcases entry with _ | ⟨id, _ | ⟨origin, _ | ⟨originSlot, _ | ⟨target, _ | ⟨targetSlot, rest⟩⟩⟩⟩⟩
      all_goals first
        | exact ⟨_, _, _, _, _, _, rfl⟩
        | simp at hlength
    have hparts : parts? (.arr entry) = none := by
      simp [parts?, hshort]
    rw [ofJson, hparts]
    refine .inr ⟨?_, _, rfl⟩
    intro hentry
    unfold IsEntry at hentry
    split at hentry
    · exact hlong ⟨_, _, _, _, _, _, rfl⟩
    · exact hentry

namespace Graph

variable {γ : Type} {build : SavedNode Document → Except Fault (Node γ)} {g g' : Graph γ}

/-- Take the link of one entry into the graph. -/
def addLinkEntry (g : Graph γ) (i : Nat) (entry : List Json) : Except Fault (Graph γ) :=
  (Link.ofJson (.arr entry) ("links." ++ toString i)).map fun l => g.addLink l

private theorem addLinks_cons_eq (i : Nat) (entry : List Json) (rest : List (List Json)) :
    g.addLinks i (entry :: rest) =
      g.addLinkEntry i entry >>= fun g' => g'.addLinks (i + 1) rest := by
  rw [addLinks, addLinkEntry]
  cases Link.ofJson (.arr entry) ("links." ++ toString i) <;> rfl

/-- The link of an entry is taken in, or the entry is refused with its place. -/
theorem addLinkEntry_cases (g : Graph γ) (i : Nat) (entry : List Json) :
    (Link.IsEntry entry ∧ ∃ g', g.addLinkEntry i entry = .ok g') ∨
      ¬ Link.IsEntry entry ∧ ∃ detail, g.addLinkEntry i entry =
        .error (.configuration detail (some ("links." ++ toString i)) none) := by
  unfold addLinkEntry
  rcases Link.ofJson_cases entry ("links." ++ toString i) with ⟨h, l, hl⟩ | ⟨h, detail, hl⟩
  · exact .inl ⟨h, _, congrArg _ hl⟩
  · exact .inr ⟨h, detail, congrArg _ hl⟩

/-- Take the node of one entry into the graph. -/
def addEntry (build : SavedNode Document → Except Fault (Node γ)) (g : Graph γ) (i : Nat)
    (saved : SavedNode Document) : Except Fault (Graph γ) := do
  if (← g.find? saved.id).isSome then
    .error (.configuration ("Duplicate node id " ++ saved.id.quoted)
      (some ("nodes." ++ toString i)) none)
  else
    match build saved with
    | .error f => .error (f.atNode saved.toNodeRecord ("nodes." ++ toString i))
    | .ok n => .ok (g.addNode (n.configure saved.toNodeRecord))

private theorem addNodes_cons_eq (i : Nat) (saved : SavedNode Document)
    (rest : List (SavedNode Document)) : g.addNodes build i (saved :: rest) =
      g.addEntry build i saved >>= fun g' => g'.addNodes build (i + 1) rest := by
  rw [addNodes, addEntry]
  cases g.find? saved.id with
  | error f => rfl
  | ok found =>
    cases found with
    | some n => rfl
    | none =>
      cases build saved <;> simp [bind, Except.bind, throw, throwThe, MonadExceptOf.throw]

/-- Why the node of an entry is not taken in: its id cannot be looked up, it finds a node, or the node
of the entry cannot be built. -/
theorem addEntry_error_iff {i : Nat} {saved : SavedNode Document} {f : Fault} :
    g.addEntry build i saved = .error f ↔ g.find? saved.id = .error f ∨
      (∃ n, g.find? saved.id = .ok (some n)) ∧
        f = .configuration ("Duplicate node id " ++ saved.id.quoted)
          (some ("nodes." ++ toString i)) none ∨
      g.find? saved.id = .ok none ∧ ∃ f', build saved = .error f' ∧
        f = f'.atNode saved.toNodeRecord ("nodes." ++ toString i) := by
  rw [addEntry]
  cases g.find? saved.id with
  | error f => simp [bind, Except.bind]
  | ok found =>
    cases found with
    | some n => simp [bind, Except.bind, eq_comm]
    | none => cases build saved <;> simp [bind, Except.bind, eq_comm]

end Graph

/-! ## Stops -/

/-- The first entry of a document that cannot be applied, by its position, and what is wrong with it. -/
inductive Stop where
  /-- An entry of a link that is no link. -/
  | link (i : Nat)
  /-- An entry whose id finds a node in front of it. -/
  | taken (i : Nat)
  /-- An entry whose id cannot be looked up. -/
  | unread (i : Nat)
  /-- An entry whose node cannot be built. -/
  | unmade (i : Nat)
  /-- A group with a group inside. -/
  | nested (i : Nat)
  /-- An entry inside a group. -/
  | inside (i : Nat) (s : Stop)

namespace Stop

/-- Where the entry stands, from the root of the document. -/
def path : Stop → String
  | link i => "links." ++ toString i
  | taken i => "nodes." ++ toString i
  | unread i => "nodes." ++ toString i
  | unmade i => "nodes." ++ toString i
  | nested i => "nodes." ++ toString i
  | inside i s => "nodes." ++ toString i ++ ".subgraph." ++ s.path

/-- Whether the entry is refused as part of a document: an id that cannot be looked up fails in its own
way. -/
def isReported : Stop → Bool
  | unread _ => false
  | _ => true

/-- The place that the fault names: of an entry inside a group the path within the graph of the group,
or the place of the group where the entry fails in its own way; of a group with a group inside none. -/
def location : Stop → Option String
  | link i => some ("links." ++ toString i)
  | taken i => some ("nodes." ++ toString i)
  | unread _ => none
  | unmade i => some ("nodes." ++ toString i)
  | nested _ => none
  | inside i s => if s.isReported then s.location else some ("nodes." ++ toString i)

/-- Whether the entry is one of the document itself and is refused with a place. -/
def isDirect : Stop → Bool
  | link _ => true
  | taken _ => true
  | unmade _ => true
  | _ => false

private theorem length_location_le (s : Stop) {p : String} (h : s.location = some p) :
    p.length ≤ s.path.length := by
  induction s with
  | link | taken | unmade =>
    cases h
    exact le_refl _
  | unread | nested => cases h
  | inside i s ih =>
    simp only [location] at h
    split at h
    · have hle := ih h
      simp only [path, String.length_append]
      omega
    · cases h
      simp only [path, String.length_append]
      omega

/-- The place is the path of the entry for the entries of the document itself and for no others. -/
theorem location_eq_path_iff (s : Stop) : s.location = some s.path ↔ s.isDirect = true := by
  cases s with
  | link | taken | unmade => simp [location, path, isDirect]
  | unread | nested => simp [location, isDirect]
  | inside i s =>
    have hsubgraph : ".subgraph.".length = 10 := by decide
    simp only [isDirect, Bool.false_eq_true, iff_false]
    intro h
    simp only [location] at h
    split at h
    · have hle := s.length_location_le h
      simp only [path, String.length_append] at hle
      omega
    · have hlength := congrArg String.length (Option.some.inj h)
      simp only [path, String.length_append] at hlength
      omega

/-- The fault is what the entry causes. -/
def Fits (s : Stop) (f : Fault) : Prop :=
  if s.isReported then ∃ detail source, f = .configuration detail s.location source
  else f.IsPlaceless

end Stop

section Stops

variable {γ : Type}

/-- Why the entry of a node is not taken into a graph: its id finds a node or cannot be looked up, or
it is refused for reasons of its own. -/
inductive Graph.Halts (refuses : SavedNode Document → (Nat → Stop) → Prop) (g : Graph γ)
    (saved : SavedNode Document) : (Nat → Stop) → Prop
  | taken {n : Node γ} (h : g.find? saved.id = .ok (some n)) : Halts refuses g saved .taken
  | unread {f : Fault} (h : g.find? saved.id = .error f) : Halts refuses g saved .unread
  | refused {why : Nat → Stop} (free : g.find? saved.id = .ok none) (h : refuses saved why) :
      Halts refuses g saved why

/-- The first entry of a document that cannot be applied: those in front of it can be, and it
cannot. -/
inductive Document.StopsBy (build : SavedNode Document → Except Fault (Node γ))
    (refuses : SavedNode Document → (Nat → Stop) → Prop) (d : Document) : Stop → Prop
  | link {i : Nat} {entry : List Json} {g : Graph γ}
      (before : Graph.configure build { d with links := d.links.take i, nodes := [] } = .ok g)
      (here : d.links[i]? = some entry) (h : ¬ Link.IsEntry entry) : StopsBy build refuses d (.link i)
  | node {i : Nat} {saved : SavedNode Document} {g : Graph γ} {why : Nat → Stop}
      (before : Graph.configure build { d with nodes := d.nodes.take i } = .ok g)
      (here : d.nodes[i]? = some saved) (h : g.Halts refuses saved why) :
      StopsBy build refuses d (why i)

/-- The reasons are those for which nodes cannot be built, and each causes its fault. -/
structure Explains (build : SavedNode Document → Except Fault (Node γ))
    (refuses : SavedNode Document → (Nat → Stop) → Prop) : Prop where
  found : ∀ saved f, build saved = .error f → ∃ why, refuses saved why
  caused : ∀ saved why, refuses saved why → ∃ f, build saved = .error f ∧
    ∀ i, (why i).Fits (f.atNode saved.toNodeRecord ("nodes." ++ toString i))

namespace Graph

variable {build : SavedNode Document → Except Fault (Node γ)}
  {refuses : SavedNode Document → (Nat → Stop) → Prop} {d : Document}

/-- What a document says of a graph beside its nodes and links. -/
def frameOf (d : Document) : Graph γ :=
  { lastNodeId := d.lastNodeId, lastLinkId := .number d.lastLinkId, groups := d.groups
    config := d.config, extra := d.extraData, version := d.version }

private theorem configure_eq (build : SavedNode Document → Except Fault (Node γ)) (d : Document) :
    configure build d = (frameOf d).addLinks 0 d.links >>= fun g => g.addNodes build 0 d.nodes := rfl

private theorem addLinks_error_iff {g : Graph γ} {k : Nat} {entries : List (List Json)}
    {f : Fault} : g.addLinks k entries = .error f ↔ ∃ i entry g', entries[i]? = some entry ∧
      g.addLinks k (entries.take i) = .ok g' ∧ g'.addLinkEntry (k + i) entry = .error f :=
  first_failure addLinkEntry addLinks (fun _ _ => rfl) fun _ _ _ _ => addLinks_cons_eq _ _ _

private theorem addNodes_error_iff {g : Graph γ} {k : Nat} {entries : List (SavedNode Document)}
    {f : Fault} : g.addNodes build k entries = .error f ↔ ∃ i saved g', entries[i]? = some saved ∧
      g.addNodes build k (entries.take i) = .ok g' ∧ g'.addEntry build (k + i) saved = .error f :=
  first_failure (addEntry build) (addNodes build) (fun _ _ => rfl) fun _ _ _ _ => addNodes_cons_eq _ _ _

/-- The graph of the links alone. -/
theorem configure_links (ls : List (List Json)) :
    configure build { d with links := ls, nodes := [] } = (frameOf d).addLinks 0 ls := by
  rw [configure_eq]
  exact bind_pure _

private theorem configure_nodes_eq_ok_iff {ns : List (SavedNode Document)} {g : Graph γ} :
    configure build { d with nodes := ns } = .ok g ↔
      ∃ g₀, (frameOf d).addLinks 0 d.links = .ok g₀ ∧ g₀.addNodes build 0 ns = .ok g :=
  Fault.bind_eq_ok_iff

private theorem Halts.exists_of_addEntry (hexplains : Explains build refuses) {g : Graph γ}
    {i : Nat} {saved : SavedNode Document} {f : Fault} (h : g.addEntry build i saved = .error f) :
    ∃ why, g.Halts refuses saved why ∧ (why i).Fits f := by
  rcases addEntry_error_iff.1 h with hfind | ⟨⟨n, hfind⟩, rfl⟩ | ⟨hfree, f', hbuild, rfl⟩
  · exact ⟨.unread, .unread hfind, g.lookup?_failsWith _ f hfind⟩
  · exact ⟨.taken, .taken hfind, _, none, rfl⟩
  · rcases hexplains.found saved f' hbuild with ⟨why, hwhy⟩
    rcases hexplains.caused saved why hwhy with ⟨f'', hbuild', hfits⟩
    cases hbuild.symm.trans hbuild'
    exact ⟨why, .refused hfree hwhy, hfits i⟩

private theorem Halts.addEntry_error (hexplains : Explains build refuses) {g : Graph γ}
    {saved : SavedNode Document} {why : Nat → Stop} (h : g.Halts refuses saved why) (i : Nat) :
    ∃ f, g.addEntry build i saved = .error f ∧ (why i).Fits f := by
  cases h with
  | taken h => exact ⟨_, addEntry_error_iff.2 (.inr (.inl ⟨⟨_, h⟩, rfl⟩)), _, none, rfl⟩
  | unread h => exact ⟨_, addEntry_error_iff.2 (.inl h), g.lookup?_failsWith _ _ h⟩
  | refused free h =>
    rcases hexplains.caused saved why h with ⟨f, hbuild, hfits⟩
    exact ⟨_, addEntry_error_iff.2 (.inr (.inr ⟨free, f, hbuild, rfl⟩)), hfits i⟩

/-- A document that is not configured is stopped by an entry that causes the fault. -/
theorem exists_stop_of_configure (hexplains : Explains build refuses) {f : Fault}
    (h : configure build d = .error f) : ∃ s, d.StopsBy build refuses s ∧ s.Fits f := by
  rw [configure_eq, Fault.bind_eq_error_iff] at h
  rcases h with hlinks | ⟨g₀, hlinks, hnodes⟩
  · rcases addLinks_error_iff.1 hlinks with ⟨i, entry, g, here, before, hfails⟩
    rw [Nat.zero_add] at hfails
    rcases g.addLinkEntry_cases i entry with ⟨-, g', hok⟩ | ⟨hentry, detail, hdetail⟩
    · cases hok.symm.trans hfails
    · cases hdetail.symm.trans hfails
      exact ⟨.link i, .link ((configure_links _).trans before) here hentry, detail, none, rfl⟩
  · rcases addNodes_error_iff.1 hnodes with ⟨i, saved, g, here, hfront, hfails⟩
    rw [Nat.zero_add] at hfails
    rcases Halts.exists_of_addEntry hexplains hfails with ⟨why, hwhy, hfits⟩
    exact ⟨why i, .node (configure_nodes_eq_ok_iff.2 ⟨g₀, hlinks, hfront⟩) here hwhy, hfits⟩

/-- An entry that stops a document causes its fault. -/
theorem fits_of_stopsBy (hexplains : Explains build refuses) {s : Stop}
    (h : d.StopsBy build refuses s) : ∃ f, configure build d = .error f ∧ s.Fits f := by
  cases h with
  | @link i entry g before here h =>
    rcases g.addLinkEntry_cases i entry with ⟨hentry, -⟩ | ⟨-, detail, hfails⟩
    · exact absurd hentry h
    · refine ⟨_, ?_, detail, none, rfl⟩
      rw [configure_eq, Fault.bind_eq_error_iff]
      refine .inl (addLinks_error_iff.2 ⟨i, entry, g, here, (configure_links _).symm.trans before, ?_⟩)
      rwa [Nat.zero_add]
  | @node i saved g why before here h =>
    rcases configure_nodes_eq_ok_iff.1 before with ⟨g₀, hlinks, hfront⟩
    rcases h.addEntry_error hexplains i with ⟨f, hfails, hfits⟩
    refine ⟨f, ?_, hfits⟩
    rw [configure_eq, Fault.bind_eq_error_iff]
    refine .inr ⟨g₀, hlinks, addNodes_error_iff.2 ⟨i, saved, g, here, hfront, ?_⟩⟩
    rwa [Nat.zero_add]

private theorem Halts.unique {g : Graph γ} {saved : SavedNode Document} {why why' : Nat → Stop}
    (hrefuses : ∀ why why', refuses saved why → refuses saved why' → why' = why)
    (h : g.Halts refuses saved why) (h' : g.Halts refuses saved why') : why' = why := by
  cases h <;> cases h' <;> simp_all
  exact hrefuses _ _ ‹_› ‹_›

/-- One entry stops a document, for one reason. -/
theorem stopsBy_unique (hexplains : Explains build refuses)
    (hrefuses : ∀ saved why why', refuses saved why → refuses saved why' → why' = why) {s s' : Stop}
    (h : d.StopsBy build refuses s) (h' : d.StopsBy build refuses s') : s' = s := by
  have hlink : ∀ {i entry} {g : Graph γ}, ¬ Link.IsEntry entry →
      ∃ f, g.addLinkEntry (0 + i) entry = .error f := by
    intro i entry g hentry
    rcases g.addLinkEntry_cases (0 + i) entry with ⟨hyes, -⟩ | ⟨-, detail, hfails⟩
    · exact absurd hyes hentry
    · exact ⟨_, hfails⟩
  -- where a link stops the document, no node is reached
  have hfirst : ∀ {i j entry} {g g' : Graph γ},
      configure build { d with links := d.links.take i, nodes := [] } = .ok g →
      d.links[i]? = some entry → ¬ Link.IsEntry entry →
      configure build { d with nodes := d.nodes.take j } = .ok g' → False := by
    intro i j entry g g' hbefore hhere hentry hbefore'
    rcases configure_nodes_eq_ok_iff.1 hbefore' with ⟨g₀, hlinks, -⟩
    rcases hlink (i := i) (g := g) hentry with ⟨f, hfails⟩
    have hfailed := addLinks_error_iff.2 ⟨i, entry, g, hhere, (configure_links _).symm.trans hbefore,
      hfails⟩
    cases hlinks.symm.trans hfailed
  cases h with
  | @link i entry g before here h =>
    cases h' with
    | @link j entry' g' before' here' h' =>
      rcases hlink (i := i) (g := g) h with ⟨f, hfails⟩
      rcases hlink (i := j) (g := g') h' with ⟨f', hfails'⟩
      rw [first_failure_unique addLinkEntry addLinks (fun _ _ => rfl)
        (fun _ _ _ _ => addLinks_cons_eq _ _ _) here ((configure_links _).symm.trans before) hfails
        here' ((configure_links _).symm.trans before') hfails']
    | node before' here' h' => cases hfirst before here h before'
  | @node i saved g why before here h =>
    cases h' with
    | link before' here' h' => cases hfirst before' here' h' before
    | @node j saved' g' why' before' here' h' =>
      rcases configure_nodes_eq_ok_iff.1 before with ⟨g₀, hlinks, hfront⟩
      rcases configure_nodes_eq_ok_iff.1 before' with ⟨g₁, hlinks', hfront'⟩
      cases hlinks.symm.trans hlinks'
      rcases h.addEntry_error hexplains (0 + i) with ⟨f, hfails, -⟩
      rcases h'.addEntry_error hexplains (0 + j) with ⟨f', hfails', -⟩
      cases first_failure_unique (addEntry build) (addNodes build) (fun _ _ => rfl)
        (fun _ _ _ _ => addNodes_cons_eq _ _ _) here hfront hfails here' hfront' hfails'
      cases here.symm.trans here'
      cases hfront.symm.trans hfront'
      rw [h.unique (hrefuses saved) h']

end Graph

end Stops

/-! ## Nodes of documents -/

namespace Registry

variable {r : Registry}

/-- The node of an entry inside a group. -/
def buildInner (r : Registry) (saved : SavedNode Document) : Except Fault (Node Empty) :=
  r.buildSimple saved.type

/-- Inside a group a node is refused if it cannot be built. -/
def RefusesInner (r : Registry) (saved : SavedNode Document) (why : Nat → Stop) : Prop :=
  why = .unmade ∧ ∃ f, r.buildInner saved = .error f

/-- A node of a document is refused if it cannot be built, if it is a group with a group inside, or if
an entry inside it cannot be applied. -/
inductive Refuses (r : Registry) (saved : SavedNode Document) : (Nat → Stop) → Prop
  | unmade {f : Fault} (hsimple : saved.subgraph = none)
      (h : (r.buildSimple saved.type : Except Fault (Node Group)) = .error f) :
      Refuses r saved .unmade
  | nested {d : Document} (hgroup : saved.subgraph = some d)
      (h : ∃ n ∈ d.nodes, n.subgraph.isSome) : Refuses r saved .nested
  | inside {d : Document} {s : Stop} (hgroup : saved.subgraph = some d)
      (hflat : ∀ n ∈ d.nodes, n.subgraph = none)
      (h : d.StopsBy r.buildInner r.RefusesInner s) :
      Refuses r saved (.inside · s)

/-- The first entry of a document that cannot be applied. -/
def Stops (r : Registry) (d : Document) (s : Stop) : Prop := d.StopsBy r.build r.Refuses s

/-- A fault that names no place is reported at the place of its node. -/
theorem fits_atNode {f : Fault} (h : f.IsPlaceless) (saved : NodeRecord) (location : String) :
    ∃ detail source, f.atNode saved location = .configuration detail (some location) source := by
  cases f with
  | configuration detail location source => cases h
  | _ => exact ⟨_, _, rfl⟩

private theorem explains_inner : Explains r.buildInner r.RefusesInner where
  found _ f h := ⟨.unmade, rfl, f, h⟩
  caused := by
    rintro saved why ⟨rfl, f, h⟩
    exact ⟨f, h, fun i => fits_atNode (r.buildSimple_failsWith _ f h) _ _⟩

/-- What stops the graph of a group is reported as such, or at the place of the group. -/
theorem fits_inside {s : Stop} {f : Fault} (h : s.Fits f) (saved : NodeRecord) (i : Nat) :
    (Stop.inside i s).Fits (f.atNode saved ("nodes." ++ toString i)) := by
  have hreported : (Stop.inside i s).isReported = true := rfl
  unfold Stop.Fits at h ⊢
  rw [if_pos hreported, Stop.location]
  split at h
  · rename_i hinner
    rcases h with ⟨detail, source, rfl⟩
    rw [if_pos hinner]
    exact ⟨detail, source, rfl⟩
  · rename_i hinner
    rw [if_neg hinner]
    exact fits_atNode h _ _

/-- A group with a group inside is refused before anything in it is read. -/
theorem build_nested {saved : SavedNode Document} {d : Document} (hgroup : saved.subgraph = some d)
    (h : ∃ n ∈ d.nodes, n.subgraph.isSome) :
    r.build saved = .error (.configuration
      ("Group node " ++ saved.id.quoted ++ " contains a nested group") none none) := by
  rw [build, hgroup]
  exact if_pos (List.any_eq_true.2 h)

/-- Any other group is refused where its graph is. -/
theorem build_eq_error_iff {saved : SavedNode Document} {d : Document}
    (hgroup : saved.subgraph = some d) (hflat : ∀ n ∈ d.nodes, n.subgraph = none) {f : Fault} :
    r.build saved = .error f ↔ Graph.configure r.buildInner d = .error f := by
  have hplain : ¬ d.nodes.any (·.subgraph.isSome) = true := by
    simp only [List.any_eq_true, not_exists, not_and]
    intro n hn
    simp [hflat n hn]
  rw [build, hgroup]
  dsimp only
  rw [if_neg hplain, Fault.bind_eq_error_iff]
  constructor
  · rintro (h | ⟨_, -, h⟩)
    · exact h
    · cases h
  · exact .inl

/-- A node that cannot be built is refused for one of the reasons. -/
theorem exists_refuses {saved : SavedNode Document} {f : Fault} (h : r.build saved = .error f) :
    ∃ why, r.Refuses saved why := by
  cases hsubgraph : saved.subgraph with
  | none =>
    rw [build, hsubgraph] at h
    exact ⟨.unmade, .unmade hsubgraph h⟩
  | some d =>
    by_cases hnested : ∃ n ∈ d.nodes, n.subgraph.isSome
    · exact ⟨.nested, .nested hsubgraph hnested⟩
    · have hflat : ∀ n ∈ d.nodes, n.subgraph = none := fun n hn =>
        Option.not_isSome_iff_eq_none.1 fun hsome => hnested ⟨n, hn, hsome⟩
      have hinner := (build_eq_error_iff hsubgraph hflat).1 h
      rcases Graph.exists_stop_of_configure explains_inner hinner with ⟨s, hs, -⟩
      exact ⟨(.inside · s), .inside hsubgraph hflat hs⟩

private theorem explains_build : Explains r.build r.Refuses where
  found _ _ := exists_refuses
  caused := by
    intro saved why h
    cases h with
    | @unmade f hsimple h =>
      refine ⟨f, ?_, fun i => fits_atNode (r.buildSimple_failsWith _ f h) _ _⟩
      rw [build, hsimple]
      exact h
    | nested hgroup h => exact ⟨_, build_nested hgroup h, fun i => ⟨_, none, rfl⟩⟩
    | inside hgroup hflat h =>
      rcases Graph.fits_of_stopsBy explains_inner h with ⟨f, hf, hfits⟩
      exact ⟨f, (build_eq_error_iff hgroup hflat).2 hf, fits_inside hfits _⟩

private theorem refusesInner_unique {saved : SavedNode Document} {why why' : Nat → Stop}
    (h : r.RefusesInner saved why) (h' : r.RefusesInner saved why') : why' = why :=
  h'.1.trans h.1.symm

private theorem refuses_unique {saved : SavedNode Document} {why why' : Nat → Stop}
    (h : r.Refuses saved why) (h' : r.Refuses saved why') : why' = why := by
  have hnested : ∀ {d d' : Document}, saved.subgraph = some d → (∃ n ∈ d.nodes, n.subgraph.isSome) →
      saved.subgraph = some d' → (∀ n ∈ d'.nodes, n.subgraph = none) → False := by
    rintro d d' hd ⟨n, hn, hsome⟩ hd' hflat
    cases hd.symm.trans hd'
    simp [hflat n hn] at hsome
  cases h with
  | unmade hsimple h =>
    cases h' with
    | unmade => rfl
    | nested hgroup => cases hsimple.symm.trans hgroup
    | inside hgroup => cases hsimple.symm.trans hgroup
  | nested hgroup h =>
    cases h' with
    | unmade hsimple => cases hsimple.symm.trans hgroup
    | nested => rfl
    | inside hgroup' hflat => cases hnested hgroup h hgroup' hflat
  | inside hgroup hflat h =>
    cases h' with
    | unmade hsimple => cases hsimple.symm.trans hgroup
    | nested hgroup' h' => cases hnested hgroup' h' hgroup hflat
    | inside hgroup' _ h' =>
      cases hgroup.symm.trans hgroup'
      rw [Graph.stopsBy_unique explains_inner (fun _ _ _ => refusesInner_unique) h h']

/-- One entry stops a document, for one reason. -/
theorem Stops.unique {d : Document} {s s' : Stop} (h : r.Stops d s) (h' : r.Stops d s') : s' = s :=
  Graph.stopsBy_unique explains_build (fun _ _ _ => refuses_unique) h h'

/-- A graph is not assembled, with a complaint about the document, exactly if an entry stops that which
is refused as part of the document; the place is that of the stop. -/
theorem assemble_location {d : Document} {location : Option String} :
    (∃ detail source, r.assemble d = .error (.configuration detail location source)) ↔
      ∃ s, r.Stops d s ∧ s.isReported = true ∧ location = s.location := by
  constructor
  · rintro ⟨detail, source, h⟩
    rcases Fault.bind_eq_error_iff.1 h with hconfigure | ⟨g, -, hfinish⟩
    · rcases Graph.exists_stop_of_configure explains_build hconfigure with ⟨s, hs, hfits⟩
      unfold Stop.Fits at hfits
      split at hfits
      · rename_i hreported
        rcases hfits with ⟨_, _, hfault⟩
        cases hfault
        exact ⟨s, hs, hreported, rfl⟩
      · cases hfits
    · cases Workflow.finish_failsWith g _ hfinish
  · rintro ⟨s, hs, hreported, rfl⟩
    rcases Graph.fits_of_stopsBy explains_build hs with ⟨f, hconfigure, hfits⟩
    unfold Stop.Fits at hfits
    rw [if_pos hreported] at hfits
    rcases hfits with ⟨detail, source, rfl⟩
    exact ⟨detail, source, Fault.bind_eq_error_iff.2 (.inl hconfigure)⟩

end Registry

/-! ## Loads -/

private theorem Registry.load_error_iff {r : Registry} {source : LoadSource} {d : Document}
    (hread : source.read = .ok d) {f : Fault} :
    r.load source = .error f ↔ r.assemble (d.normalize r.knows).1 = .error f := by
  have hload : r.load source = r.assemble (d.normalize r.knows).1 >>= fun g =>
      pure (Workflow.patch source.resets g,
        (d.normalize r.knows).2.map MissingType.ofEntry) := by
    rw [load, hread]
    rfl
  rw [hload, Fault.bind_eq_error_iff]
  constructor
  · rintro (h | ⟨g, -, h⟩)
    · exact h
    · cases h
  · exact .inl

namespace Editor

private theorem exec_broadcast_ok (hook : String) (subjects : List Subject) (e : Editor) :
    ∃ answer o, (broadcast hook subjects).exec e = (.ok answer, { e with outside := o }) := by
  rw [broadcast, Act.exec_bind, Act.exec_get]
  dsimp only
  split
  · exact ⟨_, e.outside, rfl⟩
  · exact ⟨_, _, rfl⟩

private theorem exec_offerDocument_ok (d : Document) (e : Editor) :
    ∃ offered o, (offerDocument d).exec e = (.ok offered, { e with outside := o }) := by
  rcases exec_broadcast_ok "before_configure_graph" [.document d, .missing []] e with
    ⟨answer, o, hexec⟩
  rw [offerDocument, Act.exec_bind, hexec]
  dsimp only
  split <;> exact ⟨_, o, rfl⟩

private theorem exec_settleNodes_ok (reset : Bool) (g : Workflow) (places : List Place)
    (e : Editor) : ∃ g' e', (settleNodes reset g places).exec e = (.ok g', e') := by
  induction places generalizing g e with
  | nil => exact ⟨g, e, rfl⟩
  | cons place places ih =>
    obtain ⟨g₁, e₁, hoffer⟩ : ∃ g₁ e₁, (offerNode (Workflow.patchAt reset g place) place).exec e =
        (.ok g₁, e₁) := by
      unfold offerNode
      split
      · rename_i site _
        obtain ⟨answer, o, hcall⟩ : ∃ answer o, (announce "loaded_graph_node"
            [.node place.node site.title site.widgets]).exec e =
              (.ok answer, { e with outside := o }) := ⟨_, _, rfl⟩
        rw [Act.exec_bind, hcall]
        dsimp only
        split <;> exact ⟨_, _, rfl⟩
      · exact ⟨_, e, rfl⟩
    rcases ih g₁ e₁ with ⟨g', e', hrest⟩
    exact ⟨g', e', Act.exec_bind_eq_ok_iff.2 ⟨g₁, e₁, hoffer, hrest⟩⟩

/-- Only the assembly of the graph fails: extensions and what follows the assembly do not. -/
theorem exec_assemble_error_iff {e : Editor} {source : LoadSource} {d d' : Document}
    {given : List MissingEntry} {o : Outside} (hread : source.read = .ok d)
    (hoffer : (offerDocument d).exec e = (.ok (d', given), { e with outside := o })) {f : Fault} :
    (∃ e', (assemble source).exec e = (.error f, e')) ↔
      e.registry.assemble (d'.normalize e.registry.knows).1 = .error f := by
  simp only [assemble, Act.exec_bind, Act.exec_lift, hread, hoffer, Act.exec_get]
  cases hassemble : e.registry.assemble (d'.normalize e.registry.knows).1 with
  | error f' => simp
  | ok g =>
    dsimp only
    rcases exec_settleNodes_ok source.resets g ((Workflow.sites g).map (·.place))
      { e with outside := o } with ⟨g', e₁, hsettle⟩
    rw [hsettle]
    dsimp only
    rcases exec_broadcast_ok "after_configure_graph" [.missing
      (((given ++ (d'.normalize e.registry.knows).2).map MissingType.ofEntry).map .known)] e₁ with
      ⟨answer, o', hbroadcast⟩
    rw [hbroadcast]
    simp

/-- A document that is read, and changed by extensions, is refused exactly if one of its entries cannot
be applied, and the first such entry, in the document with the type names in use, decides on the place.
It is the path of the entry if it is an entry of the document itself, and only then. -/
theorem load_location (e : Editor) {source : LoadSource} {d : Document}
    (hread : source.read = .ok d) :
    (∃ d' given o, (offerDocument d).exec e = (.ok (d', given), { e with outside := o }) ∧
      ∀ location, (∃ detail place e', (assemble source).exec e =
          (.error (.configuration detail location place), e')) ↔
        ∃ s, e.registry.Stops (d'.normalize e.registry.knows).1 s ∧ s.isReported = true ∧
          location = s.location) ∧
      (∀ location, (∃ detail place, e.registry.load source =
          .error (.configuration detail location place)) ↔
        ∃ s, e.registry.Stops (d.normalize e.registry.knows).1 s ∧ s.isReported = true ∧
          location = s.location) ∧
      (∀ d s s', e.registry.Stops d s → e.registry.Stops d s' → s' = s) ∧
      ∀ s : Stop, s.location = some s.path ↔ s.isDirect = true := by
  refine ⟨?_, ?_, fun _ _ _ h h' => h.unique h', Stop.location_eq_path_iff⟩
  · rcases exec_offerDocument_ok d e with ⟨⟨d', given⟩, o, hoffer⟩
    refine ⟨d', given, o, hoffer, fun location => ?_⟩
    rw [← Registry.assemble_location]
    simp only [exec_assemble_error_iff hread hoffer]
  · intro location
    rw [← Registry.assemble_location]
    simp only [Registry.load_error_iff hread]

/-- Two notes of the same id, in its two spellings. -/
def doubled : Document :=
  { nodes := [{ id := .number 1, type := "Note" }, { id := .name "1", type := "Note" }] }

/-- The second note is refused with its path. -/
theorem doubled_location : ∃ detail place, Registry.load {} (.document doubled) =
    .error (.configuration detail (some (Stop.taken 1).path) place) := by
  have hread : (LoadSource.document doubled).read = .ok doubled := rfl
  have hstop : Registry.Stops {} (doubled.normalize ({} : Registry).knows).1 (.taken 1) :=
    @Document.StopsBy.node _ _ _ _ 1 _ _ Stop.taken rfl rfl (.taken rfl)
  have hlocation := load_location {} hread
  have hplace : (Stop.taken 1).location = some (Stop.taken 1).path := (hlocation.2.2.2 _).2 rfl
  exact (hlocation.2.1 _).2 ⟨.taken 1, hstop, rfl, hplace.symm⟩

/-- A group with this graph inside. -/
def boxed (d : Document) : Document :=
  { nodes := [{ id := .number 1, type := "Group", groupInputs := some [], groupOutputs := some [],
                subgraph := some d }] }

/-- The place of a link inside a group is its path within the graph of the group, which in the document
is that of another entry.  A group with a group inside has no place. -/
theorem boxed_misplaced :
    (∃ detail place, Registry.load {} (.document (boxed { links := [[.str "x"]] })) =
        .error (.configuration detail (some "links.0") place)) ∧
      (Stop.inside 0 (.link 0)).path = "nodes.0.subgraph.links.0" ∧
      Registry.Stops {} ((boxed { links := [[.str "x"]] }).normalize ({} : Registry).knows).1
        (.inside 0 (.link 0)) ∧
      ∃ detail place, Registry.load {} (.document (boxed (boxed {}))) =
        .error (.configuration detail none place) := by
  have hlink : ¬ Link.IsEntry [.str "x"] := fun h => h
  refine ⟨⟨_, _, rfl⟩, by decide, ?_, ⟨_, _, rfl⟩⟩
  refine @Document.StopsBy.node _ _ _ _ 0 _ _ (Stop.inside · (.link 0)) rfl rfl (.refused rfl ?_)
  refine .inside rfl (fun n hn => by cases hn) ?_
  exact .link (i := 0) rfl rfl hlink

end Editor

end NodeFlow
