import NodeFlow.Proofs.Compile.Obstructed
import NodeFlow.Service

/-!
# Answers to compilations

A loaded graph whose references can all be looked up is answered by its prompt, or by the circle or
the endless chain that it holds.  The prompt can be sent unless it is nested too deep or has values
that are not portable.

Main results:

- Definition `Service.handle` and theorem `Service.answer_of_mem`: the answer of a route.
- Theorem `Fault.IsKnot.isPortable_body`: knots can be shown.
- Theorem `Service.compile_answers`: the answer to the compilation of a loaded graph.
-/

namespace NodeFlow

/-! ## Answers of routes -/

/-- The body of the answer to a compilation. -/
def Prompt.shown (p : Prompt) : Json :=
  (Json.obj [("output", p.output.toJson), ("workflow", p.workflow.toJson)]).visible

namespace Service

/-- The answer of a route, as it leaves the service. -/
def handle (method : String) (content : Json) (r : Route) : EditorAct ServiceReply := do
  let reply ← serve content r
  Act.lift (reply.send method)

private theorem answer_of_seek {method address sent : String} {content : Json} {r : Route}
    (h : seek method address content = .ok (sent, .found r)) :
    answer method address content = handle sent content r := by
  unfold answer
  rw [h]
  rfl

/-- What is sent to the address of a route, and can be written as JSON, is answered by the route. -/
theorem answer_of_mem {m : String × String × Route} (hm : m ∈ Route.table) {content : Json}
    (hcontent : content.isPortable = true) : answer m.1 m.2.1 content = handle m.1 content m.2.2 := by
  have hall : ∀ m ∈ Route.table,
      (Route.target m.2.1).toOption = some m.2.1 ∧ Text.upper m.1 = m.1 := by decide +kernel
  obtain ⟨htarget, hupper⟩ := hall m hm
  refine answer_of_seek ?_
  rw [seek, Fault.toOption_eq_some_iff.1 htarget, Fault.portableOnly, if_pos hcontent]
  simp only [bind, Except.bind, hupper, Route.find_of_mem hm]
  rfl

/-- The address of compilations. -/
theorem answer_compile {content : Json} (h : content.isPortable = true) :
    answer "POST" "/api/v1/prompt/compile" content = handle "POST" content .compile :=
  answer_of_mem (m := ("POST", "/api/v1/prompt/compile", .compile)) (by decide) h

/-- A portable reply leaves the service as it is, but for a request for the head alone. -/
theorem exec_handle {method : String} {content : Json} {r : Route} {reply : ServiceReply}
    {e e' : Editor} (hserve : (serve content r).exec e = (.ok reply, e'))
    (hportable : reply.body.isPortable = true) (hmethod : method ≠ "HEAD") :
    (handle method content r).exec e = (.ok reply, e') := by
  rw [handle, Act.exec_bind, hserve]
  simp only [Act.exec_lift, ServiceReply.send, Fault.portableOnly, hportable, if_true,
    if_neg hmethod, bind, Except.bind, pure, Except.pure]

end Service

/-! ## Knots -/

private theorem NodeId.isPortable_toJson (id : NodeId) : id.toJson.isPortable = true := by
  cases id <;> rfl

private theorem Fault.IsKnot.isStructural {f : Fault} (h : f.IsKnot) : f.isStructural = true :=
  (Fault.isStructural_iff f).2 (.inr h)

/-- A knot can be shown. -/
theorem Fault.IsKnot.isPortable_body {f : Fault} (h : f.IsKnot) :
    (ServiceReply.ofFault f).body.isPortable = true := by
  rcases h with ⟨ids, rfl⟩ | ⟨node, slot, hops, rfl⟩
  · have hids : Json.itemsPortable (ids.map NodeId.toJson) = true := by
      induction ids with
      | nil => rfl
      | cons id ids ih =>
        rw [List.map_cons, Json.itemsPortable, NodeId.isPortable_toJson, ih, Bool.true_and]
    simp [ServiceReply.ofFault, ServiceReply.faulty, Fault.diagnostics, Json.isPortable,
      Json.membersPortable, hids]
  · simp [ServiceReply.ofFault, ServiceReply.faulty, Fault.diagnostics, Json.isPortable,
      Json.membersPortable, NodeId.isPortable_toJson]

/-! ## Compilations -/

namespace Service

variable {r : Registry} {source : LoadSource} {g : Workflow} {missing : List MissingType}

/-- The compilation of a loaded graph without references that cannot be looked up gives a prompt,
which is the answer if it can be written, or it stops at a circle or an endless chain, which is the
answer. -/
theorem compile_answers (hload : r.load source = .ok (g, missing)) (hclear : ¬ g.Obstructed)
    {e : Editor} (he : e.graph = g) (content : Json) :
    (∃ p e', Editor.compile.exec e = (.ok p, e') ∧
      (p.workflow.depth ≤ Json.maxNesting → p.shown.isPortable = true →
        (handle "POST" content .compile).exec e = (.ok ⟨200, p.shown⟩, e'))) ∨
    ∃ f e', f.IsKnot ∧ Editor.compile.exec e = (.error f, e') ∧
      (handle "POST" content .compile).exec e =
        (.ok ⟨422, .obj [("message", .str f.detail), ("diagnostics", .obj f.diagnostics)]⟩, e') := by
  subst he
  have honly := Editor.compile_onlyKnots (Registry.load_isReady hload) hclear
  have hserve : (serve content .compile).exec e = compile.exec e := rfl
  rw [compile, Act.exec_bind, Act.exec_attempt] at hserve
  rcases hcompile : Editor.compile.exec e with ⟨f | p, e'⟩
  · rw [hcompile] at honly hserve
    have hknot : f.IsKnot := honly f rfl
    simp only [hknot.isStructural, if_true, Act.exec_pure] at hserve
    exact .inr ⟨f, e', hknot, rfl, exec_handle hserve hknot.isPortable_body (by decide)⟩
  · rw [hcompile] at hserve
    refine .inl ⟨p, e', rfl, fun hdepth hportable => ?_⟩
    simp only [Document.write, Fault.shallowOnly, hdepth, if_true, Act.exec_bind, Act.exec_lift,
      Act.exec_pure] at hserve
    exact exec_handle hserve hportable (by decide)

end Service

/-- A group and a node whose links start at no node, at no output and at no inner node. -/
def frayed : Document where
  nodes := [
    { id := .number 1, type := "Sampler"
      inputs := [{ name := "a", link := some 1 }, { name := "b", link := some 2 },
        { name := "c", link := some 3 }, { name := "d", link := some 9 }] },
    { id := .number 2, type := "Group", groupInputs := some [⟨.number 8, -3⟩]
      groupOutputs := some [⟨.number 7, 0⟩]
      inputs := [{ name := "e", link := some 4 }]
      subgraph := some
        { nodes := [{ id := .number 1, type := "Decoder", inputs := [{ name := "f", link := some 1 }] }]
          links := [[.int 1, .bool false, .int (-4), .int 1, .int 0, .str "*"]] } }]
  links := [[.int 1, .int 6, .int 0, .int 1, .int 0, .str "*"],
    [.int 2, .int 2, .int 0, .int 1, .int 1, .str "*"],
    [.int 3, .int 2, .int 5, .int 1, .int 2, .str "*"],
    [.int 4, .str "none", .int (-2), .int 2, .int 0, .str "*"]]

/-- The references of a frayed document are passed over: its compilation ends, and the request for it
is granted. -/
theorem frayed_answered : ∃ g missing,
    ({} : Registry).load (.document frayed) = .ok (g, missing) ∧ ¬ g.Obstructed ∧
      ∃ p e', Editor.compile.exec { graph := g } = (.ok p, e') ∧
        p.output.map (fun s => (s.1, s.2.inputs.length)) = [("2:1", 0), ("1", 0)] ∧
        p.workflow.depth ≤ Json.maxNesting ∧ p.shown.isPortable = true ∧
        (Service.answer "POST" "/api/v1/prompt/compile" .null).exec { graph := g } =
          (.ok ⟨200, p.shown⟩, e') := by
  have hall : (({} : Registry).load (.document frayed)).toOption.any (fun loaded =>
      decide (¬ loaded.1.Obstructed) && (Editor.compile.exec { graph := loaded.1 }).1.toOption.any
        fun p => p.output.map (fun s => (s.1, s.2.inputs.length)) == [("2:1", 0), ("1", 0)] &&
          (p.workflow.depth ≤ Json.maxNesting && p.shown.isPortable)) = true := by
    decide +kernel
  cases hload : ({} : Registry).load (.document frayed) with
  | error f =>
    rw [hload] at hall
    cases hall
  | ok loaded =>
    obtain ⟨g, missing⟩ := loaded
    rw [hload] at hall
    simp only [Except.toOption, Option.any_some, Bool.and_eq_true, decide_eq_true_eq] at hall
    obtain ⟨hclear, hall⟩ := hall
    refine ⟨g, missing, rfl, hclear, ?_⟩
    rcases Service.compile_answers hload hclear (e := { graph := g }) rfl .null with
      ⟨p, e', hcompile, hanswer⟩ | ⟨f, e', -, hcompile, -⟩
    · rw [hcompile] at hall
      simp only [Option.any_some, Bool.and_eq_true, beq_iff_eq, decide_eq_true_eq] at hall
      obtain ⟨hsteps, hdepth, hportable⟩ := hall
      rw [Service.answer_compile (by decide)]
      exact ⟨p, e', hcompile, hsteps, hdepth, hportable, hanswer hdepth hportable⟩
    · rw [hcompile] at hall
      cases hall

/-- A link that starts at an array is held by an input: the document is loaded, and the compilation
stops at a fault that is no knot. -/
theorem boxed_stops : ∃ g,
    ({} : Registry).load (.document
      { nodes := [{ id := .number 1, type := "Note", inputs := [{ name := "a", link := some 1 }] }]
        links := [[.int 1, .arr [.int 1], .int 0, .int 1, .int 0, .str "*"]] }) = .ok (g, []) ∧
      ∃ text, Editor.compile.exec { graph := g } = (.error (.mistyped text), { graph := g }) ∧
        (Service.answer "POST" "/api/v1/prompt/compile" .null).exec { graph := g } =
          (.error (.mistyped text), { graph := g }) ∧ ¬ Fault.IsKnot (.mistyped text) := by
  rw [Service.answer_compile (by decide)]
  refine ⟨_, rfl, _, rfl, rfl, ?_⟩
  rintro (⟨ids, h⟩ | ⟨node, slot, hops, h⟩) <;> cases h

end NodeFlow
