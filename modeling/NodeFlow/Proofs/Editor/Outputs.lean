import NodeFlow.Proofs.Service.EventReply
import NodeFlow.Proofs.Table

/-!
# Outputs that come in chunks

The backend reports the outputs of a node in one event or in several, and the events of several
nodes may alternate.  An event either replaces the outputs that its node has or is added to them.
So what is known of a node at the end depends on the events about this node alone, from the last one
that replaces on, and lists are put together in the order in which they came.

Main results:

- Definitions `Chunk` and `Chunk.current`: what an event says of its node, and what of it counts.
- Theorem `Editor.get?_outputs_afterEvents`: the outputs of a node, from what is said of this node.
- Theorem `Chunk.run_current`: the outputs after the chunks of a node, as lists put together.
- Theorem `Chunk.collected_current_split`: several chunks that are worth one.
- Theorem `Editor.afterEvents_accumulate`: the outputs of a node after any run of events.
-/

namespace NodeFlow

/-- What a report says of its node: some outputs, and whether they are added to those it has. -/
structure Chunk where
  output : Members
  merge : Bool

/-- What a report says of its node. -/
def Executed.chunk (report : Executed) : Chunk := ⟨report.output.getD [], report.merge⟩

namespace Chunk

variable {c p : Chunk} {cs front back : List Chunk} {known : Members} {name : String}

/-- The outputs of a node after a chunk. -/
def onto (c : Chunk) : Option Members → Members
  | some known => if c.merge then Editor.mergeOutput known c.output else c.output
  | none => c.output

/-- What is known of the outputs of a node after chunks. -/
def run (known : Option Members) (cs : List Chunk) : Option Members :=
  cs.foldl (fun known c => some (c.onto known)) known

/-- Whether the chunk has an output of this name. -/
def mentions (c : Chunk) (name : String) : Bool := Table.has c.output name

/-- What the chunk lists under a name. -/
def listed (c : Chunk) (name : String) : List Json :=
  ((Table.get? c.output name).map Editor.addition).getD []

/-- All outputs are lists, each under a name of its own. -/
structure IsLists (c : Chunk) : Prop where
  nodup : (Table.names c.output).Nodup
  lists : ∀ entry ∈ c.output, ∃ xs, entry.2 = .arr xs

/-- The lists of chunks under a name, put together; none if no chunk mentions it. -/
def collected (cs : List Chunk) (name : String) : Option Json :=
  if cs.any (·.mentions name) then some (.arr (cs.flatMap (·.listed name))) else none

/-- The chunks from the last one that is not added to what was before; all of them if there is no
such chunk. -/
def current : List Chunk → List Chunk
  | [] => []
  | c :: cs => if cs.all (·.merge) then c :: cs else current cs

/-! ## One chunk -/

/-- What stands under a name after a value has been added to it. -/
def added (known : Option Json) (v : Json) : Json :=
  match known with
  | some (.arr xs) => .arr (xs ++ Editor.addition v)
  | _ => v

private theorem mergeEntry_eq (known : Members) (entry : String × Json) :
    Editor.mergeEntry known entry =
      Table.set known entry.1 (added (Table.get? known entry.1) entry.2) := by
  unfold Editor.mergeEntry added
  split <;> simp_all

private theorem get?_mergeOutput {incoming : Members} (hnames : (Table.names incoming).Nodup)
    (known : Members) (name : String) : Table.get? (Editor.mergeOutput known incoming) name =
      ((Table.get? incoming name).map (added (Table.get? known name))).or
        (Table.get? known name) := by
  induction incoming generalizing known with
  | nil => rfl
  | cons entry incoming ih =>
    obtain ⟨k, v⟩ := entry
    obtain ⟨hk, hrest⟩ := List.nodup_cons.1 hnames
    have hstep : Editor.mergeOutput known ((k, v) :: incoming) =
        Editor.mergeOutput (Table.set known k (added (Table.get? known k) v)) incoming := by
      rw [← mergeEntry_eq known (k, v)]
      rfl
    rw [hstep, ih hrest]
    by_cases hname : k = name
    · subst hname
      simp [Table.get?_eq_none hk, Table.get?]
    · simp [Table.get?, hname, Table.get?_set_of_ne (Ne.symm hname)]

private theorem get?_output_of_not_mentions (h : c.mentions name = false) :
    Table.get? c.output name = none := by
  simpa [mentions, Table.has] using h

private theorem listed_of_not_mentions (h : c.mentions name = false) : c.listed name = [] := by
  simp [listed, get?_output_of_not_mentions h]

/-- A name that a chunk does not mention keeps what stands under it. -/
theorem get?_onto_of_not_mentions (hnames : (Table.names c.output).Nodup) (hmerge : c.merge = true)
    (hname : c.mentions name = false) (known : Option Members) :
    Table.get? (c.onto known) name = known.bind fun t => Table.get? t name := by
  have hnone := get?_output_of_not_mentions hname
  cases known with
  | none => exact hnone
  | some known => simp [onto, hmerge, get?_mergeOutput hnames, hnone]

private theorem IsLists.get?_eq_collected (hc : c.IsLists) (name : String) :
    Table.get? c.output name = collected [c] name := by
  cases hget : Table.get? c.output name with
  | none => simp [collected, mentions, Table.has, hget]
  | some v =>
    obtain ⟨xs, rfl⟩ := hc.lists _ (Table.mem_of_get? hget)
    simp [collected, mentions, Table.has, listed, hget, Editor.addition]

/-- The step lemma: a chunk that is added continues the lists. -/
theorem IsLists.get?_onto (hc : c.IsLists) (hmerge : c.merge = true)
    (hknown : ∀ name, Table.get? known name = collected cs name) (name : String) :
    Table.get? (c.onto (some known)) name = collected (cs ++ [c]) name := by
  have honto : c.onto (some known) = Editor.mergeOutput known c.output := if_pos hmerge
  rw [honto, get?_mergeOutput hc.nodup, hknown]
  cases hget : Table.get? c.output name with
  | none => simp [collected, mentions, Table.has, listed, hget]
  | some v =>
    obtain ⟨xs, rfl⟩ := hc.lists _ (Table.mem_of_get? hget)
    have hmentions : c.mentions name = true := by simp [mentions, Table.has, hget]
    have hlisted : c.listed name = xs := by simp [listed, hget, Editor.addition]
    cases hany : cs.any (·.mentions name) with
    | true => simp [collected, hany, added, hlisted, Editor.addition]
    | false =>
      have hempty : cs.flatMap (·.listed name) = [] := by
        refine List.flatMap_eq_nil_iff.2 fun d hd => listed_of_not_mentions ?_
        simpa using List.any_eq_false.1 hany d hd
      simp [collected, hany, hempty, added, hmentions, hlisted]

/-! ## Runs of chunks -/

/-- The run lemma for chunks that are added. -/
theorem run_append (hback : ∀ c ∈ back, c.merge = true) (hlists : ∀ c ∈ back, c.IsLists)
    (hknown : ∀ name, Table.get? known name = collected cs name) :
    ∃ t, run (some known) back = some t ∧
      ∀ name, Table.get? t name = collected (cs ++ back) name := by
  induction back generalizing known cs with
  | nil => exact ⟨known, rfl, by simpa using hknown⟩
  | cons c back ih =>
    rw [List.forall_mem_cons] at hback hlists
    have hstep := hlists.1.get?_onto hback.1 hknown
    obtain ⟨t, hrun, ht⟩ := ih hback.2 hlists.2 hstep
    exact ⟨t, hrun, by simpa using ht⟩

/-- What was known before the current chunks does not count. -/
theorem run_cons_current {known : Option Members}
    (hfirst : known = none ∨ c.merge = false ∨ cs.all (·.merge) = false)
    (hlists : ∀ d ∈ c :: cs, d.IsLists) :
    ∃ t, run known (c :: cs) = some t ∧
      ∀ name, Table.get? t name = collected (current (c :: cs)) name := by
  induction cs generalizing c known with
  | nil =>
    have honto : c.onto known = c.output := by
      rcases hfirst with rfl | hc | hnil
      · rfl
      · cases known <;> simp [onto, hc]
      · cases hnil
    exact ⟨c.output, by simp [run, honto], (hlists c List.mem_cons_self).get?_eq_collected⟩
  | cons d cs ih =>
    rw [List.forall_mem_cons] at hlists
    cases hall : (d :: cs).all (·.merge) with
    | true =>
      have honto : c.onto known = c.output := by
        rcases hfirst with rfl | hc | hsome
        · rfl
        · cases known <;> simp [onto, hc]
        · rw [hall] at hsome
          cases hsome
      have hcurrent : current (c :: d :: cs) = [c] ++ d :: cs := if_pos hall
      obtain ⟨t, hrun, ht⟩ := run_append (by simpa using hall) hlists.2 hlists.1.get?_eq_collected
      rw [hcurrent]
      exact ⟨t, by rw [← hrun, ← honto]; rfl, ht⟩
    | false =>
      have hcurrent : current (c :: d :: cs) = current (d :: cs) := by
        rw [current, if_neg (by simp [hall])]
      have hrest : d.merge = false ∨ cs.all (·.merge) = false := by
        rw [List.all_cons] at hall
        exact Bool.and_eq_false_iff.1 hall
      obtain ⟨t, hrun, ht⟩ : ∃ t, run (some (c.onto known)) (d :: cs) = some t ∧
          ∀ name, Table.get? t name = collected (current (d :: cs)) name :=
        ih (.inr hrest) hlists.2
      rw [hcurrent]
      exact ⟨t, hrun, ht⟩

/-- The outputs after all chunks of a node are the lists of the current ones, put together. -/
theorem run_current (hne : cs ≠ []) (hlists : ∀ c ∈ cs, c.IsLists) :
    ∃ t, run none cs = some t ∧ ∀ name, Table.get? t name = collected (current cs) name := by
  obtain ⟨c, rest, rfl⟩ := List.exists_cons_of_ne_nil hne
  exact run_cons_current (.inl rfl) hlists

/-! ## Several chunks for one -/

private theorem current_append (hne : front ≠ []) (hback : back.all (·.merge) = true) :
    current (front ++ back) = current front ++ back := by
  induction front with
  | nil => exact absurd rfl hne
  | cons c front ih =>
    cases hall : front.all (·.merge) with
    | true => simp [current, hall, hback]
    | false =>
      have hne' : front ≠ [] := by
        rintro rfl
        cases hall
      simp [current, hall, ih hne']

private theorem current_append_of_not_all (front : List Chunk)
    (hback : back.all (·.merge) = false) : current (front ++ back) = current back := by
  induction front with
  | nil => rfl
  | cons c front ih => simpa [current, hback] using ih

/-- The first of several chunks that are worth one does to what was before what this one does, the
others are added, and under each name their lists together are its list. -/
structure Splits (c : Chunk) (fresh : Prop) (p : Chunk) (ps : List Chunk) : Prop where
  first : p.merge = c.merge ∨ fresh
  rest : ps.all (·.merge) = true
  mentions : ∀ name, (p :: ps).any (·.mentions name) = c.mentions name
  listed : ∀ name, (p :: ps).flatMap (·.listed name) = c.listed name

variable {fresh : Prop} {ps : List Chunk}

private theorem Splits.collected_eq (h : c.Splits fresh p ps) (front back : List Chunk)
    (name : String) :
    collected (front ++ (p :: ps) ++ back) name = collected (front ++ c :: back) name := by
  simp only [collected, List.any_append, List.flatMap_append, h.mentions, h.listed, List.any_cons,
    List.flatMap_cons, List.append_assoc]

/-- Splitting a chunk changes nothing about what is collected under a name. -/
theorem collected_current_split (h : c.Splits (front = []) p ps) (back : List Chunk)
    (name : String) :
    collected (current (front ++ (p :: ps) ++ back)) name =
      collected (current (front ++ c :: back)) name := by
  cases hback : back.all (·.merge) with
  | false =>
    have hc : (c :: back).all (·.merge) = false := by simp [hback]
    rw [current_append_of_not_all _ hback, current_append_of_not_all _ hc,
      ← current_append_of_not_all [c] hback]
    rfl
  | true =>
    have hrest : (ps ++ back).all (·.merge) = true := by simp [h.rest, hback]
    have hpieces : current ((p :: ps) ++ back) = [] ++ (p :: ps) ++ back := if_pos hrest
    have hone : current (c :: back) = [] ++ c :: back := if_pos hback
    rcases h.first with hsame | rfl
    · cases hmerge : c.merge with
      | false =>
        have hc : (c :: back).all (·.merge) = false := by simp [hmerge]
        have hp : ((p :: ps) ++ back).all (·.merge) = false := by simp [hsame, hmerge]
        rw [List.append_assoc, current_append_of_not_all _ hp, current_append_of_not_all _ hc,
          hpieces, hone, h.collected_eq]
      | true =>
        have hc : (c :: back).all (·.merge) = true := by simp [hmerge, hback]
        have hp : ((p :: ps) ++ back).all (·.merge) = true := by
          simpa [hsame, hmerge] using hrest
        by_cases hfront : front = []
        · subst hfront
          rw [List.nil_append, List.nil_append, hpieces, hone, h.collected_eq]
        · rw [List.append_assoc, current_append hfront hp, current_append hfront hc,
            ← List.append_assoc, h.collected_eq]
    · rw [List.nil_append, List.nil_append, hpieces, hone, h.collected_eq]

end Chunk

namespace Editor

variable {e : Editor} {events : List (String × Json)} {event : String × Json} {key : String}

/-! ## The chunks of a node -/

/-- The report of an event about outputs that can be read. -/
def reportOf? (event : String × Json) : Option Executed :=
  if event.1 = "executed" then (Executed.read event.2).toOption else none

/-- What an event says of a node. -/
def chunkOn? (key : String) (event : String × Json) : Option Chunk :=
  (reportOf? event).bind fun report => if report.node.key = key then some report.chunk else none

/-- What events say of a node, in their order. -/
def chunksOn (key : String) (events : List (String × Json)) : List Chunk :=
  events.filterMap (chunkOn? key)

/-- The outputs that the editor has for a node as a first chunk, and what events say of it. -/
def history (e : Editor) (key : String) (events : List (String × Json)) : List Chunk :=
  ((e.outputs.get? key).map fun known => ⟨known, false⟩).toList ++ chunksOn key events

/-- What the editor has for a node under each name; none if it has nothing for the node. -/
def outputsOf (e : Editor) (key : String) : Option (String → Option Json) :=
  (e.outputs.get? key).map Table.get?

/-- What an event leaves of all outputs, whatever becomes of it. -/
theorem outputs_onEvent (e : Editor) (event : String × Json) :
    ((onEvent event.1 event.2).exec e).2.outputs =
      ((reportOf? event).map fun report => (e.reported report).outputs).getD e.outputs := by
  obtain ⟨name, detail⟩ := event
  obtain ⟨o, hexec⟩ := exec_onEvent_informed e name detail
  rw [hexec]
  dsimp only
  rcases handler?_cases name with rfl | rfl | rfl | rfl | hnone
  · rfl
  · rfl
  · cases hread : Executed.read detail <;> simp [informed, reportOf?, hread, Except.toOption]
  · cases hread : failureReport detail <;> simp [informed, reportOf?, hread, Except.toOption]
  · have hother : name ≠ "executed" := by
      rintro rfl
      cases hnone
    rw [informed_of_ignored hnone]
    simp [reportOf?, hother]

/-- What an event leaves of the outputs of a node: it counts if it is about this node. -/
theorem get?_outputs_onEvent (e : Editor) (event : String × Json) (key : String) :
    ((onEvent event.1 event.2).exec e).2.outputs.get? key =
      Chunk.run (e.outputs.get? key) (chunkOn? key event).toList := by
  rw [outputs_onEvent]
  cases hreport : reportOf? event with
  | none => simp [chunkOn?, hreport, Chunk.run]
  | some report =>
    by_cases hkey : report.node.key = key
    · subst hkey
      simp only [chunkOn?, hreport, Option.bind_some, if_true, Option.map_some, Option.getD_some,
        reported, Table.get?_set_self]
      rfl
    · simp [chunkOn?, hreport, Chunk.run, reported, hkey, Table.get?_set_of_ne (Ne.symm hkey)]

/-- The outputs of a node after a run of events: those of other nodes have no part in them. -/
theorem get?_outputs_afterEvents (e : Editor) (events : List (String × Json)) (key : String) :
    (afterEvents events e).outputs.get? key = Chunk.run none (e.history key events) := by
  have hstart : ∀ cs, Chunk.run none (((e.outputs.get? key).map fun t => ⟨t, false⟩).toList ++ cs) =
      Chunk.run (e.outputs.get? key) cs := by
    intro cs
    cases e.outputs.get? key <;> rfl
  rw [history, hstart]
  clear hstart
  induction events generalizing e with
  | nil => rfl
  | cons event events ih =>
    have hrest := ih ((onEvent event.1 event.2).exec e).2
    rw [get?_outputs_onEvent] at hrest
    refine hrest.trans ?_
    cases hchunk : chunkOn? key event <;> simp [chunksOn, hchunk, Chunk.run]

/-! ## Runs of events -/

private theorem history_append (e : Editor) (key : String) (front back : List (String × Json)) :
    e.history key (front ++ back) = e.history key front ++ chunksOn key back := by
  simp [history, chunksOn]

private theorem outputsOf_eq_none (h : e.history key events = []) :
    (afterEvents events e).outputsOf key = none := by
  rw [outputsOf, get?_outputs_afterEvents, h]
  rfl

private theorem outputsOf_eq_collected (h : e.history key events ≠ [])
    (hlists : ∀ c ∈ e.history key events, c.IsLists) : (afterEvents events e).outputsOf key =
      some (Chunk.collected (Chunk.current (e.history key events))) := by
  obtain ⟨t, hrun, ht⟩ := Chunk.run_current h hlists
  rw [outputsOf, get?_outputs_afterEvents, hrun, Option.map_some, Option.some.injEq]
  exact funext ht

/-- What becomes of the outputs of a node depends on what the events say of this node alone. -/
theorem get?_outputs_congr {events' : List (String × Json)}
    (h : chunksOn key events' = chunksOn key events) :
    (afterEvents events' e).outputs.get? key = (afterEvents events e).outputs.get? key := by
  rw [get?_outputs_afterEvents, get?_outputs_afterEvents, history, history, h]

private theorem get?_outputs_concat (e : Editor) (events : List (String × Json))
    (event : String × Json) : (afterEvents (events ++ [event]) e).outputs.get? key =
      Chunk.run ((afterEvents events e).outputs.get? key) (chunkOn? key event).toList := by
  rw [← get?_outputs_onEvent, afterEvents, List.foldl_append]
  rfl

/-- Several events that are worth one, after other events: all of them are about one node, and what
they say of it splits what this one says. -/
structure Splits (e : Editor) (front : List (String × Json)) (key : String)
    (event : String × Json) (pieces : List (String × Json)) : Prop where
  others : ∀ k, k ≠ key → chunkOn? k event = none ∧ chunksOn k pieces = []
  chunks : ∃ c p ps, chunkOn? key event = some c ∧ chunksOn key pieces = p :: ps ∧
    c.Splits (e.history key front = []) p ps ∧ ∀ d ∈ p :: ps, d.IsLists

/-- The pieces leave what the whole event leaves. -/
theorem Splits.outputsOf_eq {front pieces back : List (String × Json)} {node : String}
    (h : e.Splits front node event pieces)
    (hlists : ∀ c ∈ e.history key (front ++ event :: back), c.IsLists) :
    (afterEvents (front ++ pieces ++ back) e).outputsOf key =
      (afterEvents (front ++ event :: back) e).outputsOf key := by
  by_cases hkey : key = node
  · subst hkey
    obtain ⟨c, p, ps, hevent, hpieces, hsplits, hnew⟩ := h.chunks
    have hwhole : e.history key (front ++ event :: back) =
        e.history key front ++ c :: chunksOn key back := by
      rw [history_append]
      simp [chunksOn, hevent]
    have hparts : e.history key (front ++ pieces ++ back) =
        e.history key front ++ (p :: ps) ++ chunksOn key back := by
      rw [history_append, history_append, hpieces]
    rw [hwhole] at hlists
    have hlists' : ∀ d ∈ e.history key (front ++ pieces ++ back), d.IsLists := by
      intro d hd
      rw [hparts, List.mem_append, List.mem_append] at hd
      rcases hd with (hd | hd) | hd
      · exact hlists d (List.mem_append_left _ hd)
      · exact hnew d hd
      · exact hlists d (List.mem_append_right _ (List.mem_cons_of_mem _ hd))
    have hparts_ne : e.history key (front ++ pieces ++ back) ≠ [] := by
      rw [hparts]
      simp
    have hwhole_ne : e.history key (front ++ event :: back) ≠ [] := by
      rw [hwhole]
      simp
    rw [outputsOf_eq_collected hparts_ne hlists',
      outputsOf_eq_collected hwhole_ne (hwhole ▸ hlists), hparts, hwhole]
    exact congrArg some (funext (Chunk.collected_current_split hsplits _))
  · obtain ⟨hevent, hpieces⟩ := h.others key hkey
    have hsame : chunksOn key (front ++ pieces ++ back) =
        chunksOn key (front ++ event :: back) := by
      unfold chunksOn at hpieces
      simp [chunksOn, hpieces, hevent]
    rw [outputsOf, outputsOf, get?_outputs_congr hsame]

/-- Any events, if all that is said of a node are lists.  The node has outputs exactly if something
was said of it, and then it has under each name the lists of the chunks from the last one that
replaces on (or from the first one), in the order of their arrival; what the editor had for the node
before counts as a chunk.  One more event changes nothing if it is about another node, and nothing
under a name that it does not mention if it is added.  Other events that say the same of the node,
between whatever other ones and however they write its id, leave the same outputs.  So do several
events in place of one, if the first of them replaces like this one, unless it is the first of its
node anyway, and the others are added. -/
theorem afterEvents_accumulate (hlists : ∀ c ∈ e.history key events, c.IsLists) :
    (e.history key events = [] → (afterEvents events e).outputsOf key = none) ∧
    (e.history key events ≠ [] → (afterEvents events e).outputsOf key =
      some (Chunk.collected (Chunk.current (e.history key events)))) ∧
    (∀ event, chunkOn? key event = none →
      (afterEvents (events ++ [event]) e).outputs.get? key =
        (afterEvents events e).outputs.get? key) ∧
    (∀ event c name, chunkOn? key event = some c → c.IsLists → c.merge = true →
      c.mentions name = false →
      ((afterEvents (events ++ [event]) e).outputsOf key).bind (· name) =
        ((afterEvents events e).outputsOf key).bind (· name)) ∧
    (∀ events', chunksOn key events' = chunksOn key events →
      (afterEvents events' e).outputs.get? key = (afterEvents events e).outputs.get? key) ∧
    (∀ front event back node pieces, events = front ++ event :: back →
      e.Splits front node event pieces →
      (afterEvents (front ++ pieces ++ back) e).outputsOf key =
        (afterEvents events e).outputsOf key) := by
  refine ⟨outputsOf_eq_none, fun h => outputsOf_eq_collected h hlists, ?_, ?_,
    fun events' => get?_outputs_congr, ?_⟩
  · intro event hevent
    rw [get?_outputs_concat, hevent]
    rfl
  · intro event c name hevent hc hmerge hname
    have hstep : (afterEvents (events ++ [event]) e).outputs.get? key =
        some (c.onto ((afterEvents events e).outputs.get? key)) := by
      rw [get?_outputs_concat, hevent]
      rfl
    rw [outputsOf, outputsOf, hstep, Option.map_some, Option.bind_some,
      Chunk.get?_onto_of_not_mentions hc.nodup hmerge hname, Option.bind_map]
    rfl
  · rintro front event back node pieces rfl hsplits
    exact hsplits.outputsOf_eq hlists

/-- An editor that has outputs of an earlier run. -/
def stale : Editor where
  outputs := [("9", [("images", .arr [.str "old"])])]

/-- The reports on two nodes alternate.  The lists of one of them come in two pieces, and its id is
written as a number and as a text. -/
def alternating : List (String × Json) :=
  [("executed", .obj [("node", .int 9), ("output", .obj [("images", .arr [.str "a"])])]),
    ("executed", .obj [("node", .int 7), ("output", .obj [("images", .arr [.str "x"])])]),
    ("executing", .str "9"),
    ("executed", .obj [("node", .str "9"), ("merge", .bool true),
      ("output", .obj [("images", .arr [.str "b"]), ("text", .arr [.str "t"])])])]

/-- The images of both pieces are there, those of the earlier run and of the other node are not. -/
theorem alternating_accumulate :
    (∀ c ∈ history stale "9" alternating, c.IsLists) ∧
    ∃ outputs, outputsOf (afterEvents alternating stale) "9" = some outputs ∧
      outputs "images" = some (.arr [.str "a", .str "b"]) ∧
      outputs "text" = some (.arr [.str "t"]) ∧ outputs "other" = none := by
  have hhistory : history stale "9" alternating =
      [⟨[("images", .arr [.str "old"])], false⟩, ⟨[("images", .arr [.str "a"])], false⟩,
        ⟨[("images", .arr [.str "b"]), ("text", .arr [.str "t"])], true⟩] := rfl
  have hlists : ∀ c ∈ history stale "9" alternating, c.IsLists := by
    simp only [hhistory, List.mem_cons, List.not_mem_nil, or_false]
    rintro c (rfl | rfl | rfl) <;> exact ⟨by decide, by simp⟩
  obtain ⟨-, houtputs, -⟩ := afterEvents_accumulate hlists
  refine ⟨hlists, _, houtputs (by simp [hhistory]), ?_, ?_, ?_⟩ <;> rw [hhistory] <;> rfl

end Editor

end NodeFlow
