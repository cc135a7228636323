import ScriptCheck.Proofs.Check.Program
import ScriptCheck.Proofs.Frame.Trace

/-!
# Returns and reports in their functions

Wherever a node is followed, the frame fits the node: the scopes along its lexical chain are
those around the node, and both links of frames lead to the same call first, one of the function
that contains the node.  Hence a returned type is kept with the call of the function that the
`return` stands in, and the trace of a report names the functions that its places stand in.
-/

namespace ScriptCheck

open CheckM ScopeGraph Ty

/-! ## Properties of every step -/

noncomputable def Watch.ofProperty (P : CheckContext → CheckState → FrameId → NodeId → Prop) :
    Watch := fun context state frame node =>
  @decide (P context state frame node) (Classical.propDecidable _)

/-- A property holds whenever a node is about to be followed in a program, however deep: to test
for it before each node changes nothing, and no test ends the run. -/
def Tree.Throughout (tree : Tree) (joinBound : Nat) (options : CheckOptions)
    (P : CheckContext → CheckState → FrameId → NodeId → Prop) : Prop :=
  tree.runWithin joinBound options ≠ .error .depthExceeded ∧
    ∀ depth, Evaluator.depthFor tree.size ≤ depth →
      tree.runBy (.watchedUpTo (.ofProperty P) depth) joinBound options =
        tree.runWithin joinBound options

theorem Tree.WellFormed.throughout {tree : Tree} (h : tree.WellFormed) {joinBound : Nat}
    {options : CheckOptions} {P : CheckContext → CheckState → FrameId → NodeId → Prop}
    (hP : Evaluator.Passes (tree.context joinBound options) (.ofProperty P)) :
    tree.Throughout joinBound options P := by
  constructor
  · have hresult := (Tree.runBy_agree h joinBound options hP (Nat.le_refl _) (Nat.le_refl _)).2
    rw [← Tree.runWithin_eq_runBy] at hresult
    intro hexceeded
    rw [hexceeded] at hresult
    cases hresult
  · intro depth hdepth
    have hsame := (Tree.runBy_agree h joinBound options hP (Nat.le_refl _) hdepth).1
    rw [Tree.runWithin_eq_runBy, hsame]

namespace Check

/-- The links of a frame fit a node: the scopes along the lexical chain are the scope of the node
and those around it, and both links lead to the same call first, one of the innermost function
that contains the node. -/
structure Aligned (context : CheckContext) (state : CheckState) (frame node : Nat) : Prop where
  scopes : state.frames.chainScopes frame =
    context.graph.scopesAround (context.graph.scopeOf node)
  calls : state.frames.lexicalCall? frame = state.frames.stackCall? frame
  function : (state.frames.lexicalCall? frame).map (fun call => (state.frames.frame call).node) =
    context.tree.functionAround? node

/-- What becomes of the type that a `return` gives: it is added to what is returned by a call of
the function that contains the `return`.  Outside every function the `return` is reported. -/
def Returns (context : CheckContext) (state : CheckState) (frame node : Nat) : Prop :=
  ∀ argument depth, context.tree.kind node = .returnStmt argument →
    nesting context.tree.size (state.frames.calls frame).length node ≤ depth → ∀ ty evaluated,
      argument.elim (types Ty.undefined) ((Evaluator.upTo depth).expression frame) context state =
        .ok (ty, evaluated) →
      (context.tree.functionAround? node = none →
        returnStatement (.upTo depth) frame node argument context state =
          .ok ((), { evaluated with
            diagnostics := evaluated.diagnostics.report
              (.ofProblem (context.tree.start node).location .unexpectedReturn []) })) ∧
      ∀ function, context.tree.functionAround? node = some function →
        ∃ call, evaluated.frames.lexicalCall? frame = some call ∧
          (evaluated.frames.frame call).node = function ∧
          returnStatement (.upTo depth) frame node argument context state =
            .ok ((), { evaluated with
              frames := evaluated.frames.modify call fun found =>
                { found with returned := found.returned ++ [ty] } })

/-- A node that opens no scope is about to be followed in a frame that fits it, and what it
returns goes to its function. -/
structure Placed (context : CheckContext) (state : CheckState) (frame node : Nat) : Prop where
  aligned : (context.tree.kind node).opensScope = false → Aligned context state frame node
  returns : Returns context state frame node

variable {context : CheckContext} {state : CheckState} {frame node : Nat}

theorem meets_of_stands (hframe : frame < state.frames.frames.size)
    (hnode : node < context.tree.size) (hopens : (context.tree.kind node).opensScope = false)
    (hstands : context.graph.StandsIn context.tree node (state.frames.frame frame).scope ∨
      (state.frames.frame frame).scope = context.graph.scopeOf node) :
    context.Meets state.frames frame node := by
  refine ⟨hframe, hnode, hopens, ?_⟩
  rcases hstands with hstands | hscope
  · unfold StandsIn IsInside at hstands
    rw [hopens] at hstands
    exact hstands.symm
  · exact hscope

theorem aligned_of_meets (hsound : context.Sound) (hlawful : state.Lawful context)
    (hmeets : context.Meets state.frames frame node) : Aligned context state frame node where
  scopes := by
    rw [hlawful.frames.chainScopes_eq hsound.graph hsound.tree hmeets.frame_lt, hmeets.scope]
  calls := hlawful.frames.lexicalCall?_eq_stackCall? hmeets.frame_lt
  function := by
    rw [hlawful.frames.lexicalCall?_eq_stackCall? hmeets.frame_lt]
    exact hlawful.frames.node_stackCall? hsound.graph hsound.tree hmeets.frame_lt hmeets.node_lt
      hmeets.opens hmeets.scope

/-! ## Returns -/

theorem returnStatement_of_ok {eval : Evaluator} {argument : Option NodeId} {ty : Ty}
    {evaluated : CheckState}
    (h : argument.elim (types Ty.undefined) (eval.expression frame) context state =
      .ok (ty, evaluated)) :
    returnStatement eval frame node argument context state =
      (do if !(← frames (FrameM.addReturned frame ty)) then
            report frame node .unexpectedReturn : CheckM Unit) context evaluated := by
  have hbind : returnStatement eval frame node argument context state =
      (argument.elim (types Ty.undefined) (eval.expression frame) context state).bind
        fun next => (do if !(← frames (FrameM.addReturned frame next.1)) then
          report frame node .unexpectedReturn : CheckM Unit) context next.2 := by
    cases argument <;> rfl
  rw [hbind, h]
  rfl

theorem frames_addReturned_of_none {ty : Ty} (h : state.frames.lexicalCall? frame = none) :
    frames (FrameM.addReturned frame ty) context state = .ok (false, state) := by
  have hrun : (FrameM.addReturned frame ty).run state.frames = (.ok false, state.frames) := by
    unfold FrameM.addReturned
    rw [FrameM.run_bind_of_ok
      (rfl : (get : FrameM FrameStore).run state.frames = (.ok state.frames, state.frames))]
    unfold FrameStore.lexicalCall? at h
    rw [h]
    rfl
  exact frames_of_run hrun

theorem frames_addReturned_of_some {ty : Ty} {call : Nat}
    (h : state.frames.lexicalCall? frame = some call) :
    frames (FrameM.addReturned frame ty) context state =
      .ok (true, { state with
        frames := state.frames.modify call fun found =>
          { found with returned := found.returned ++ [ty] } }) := by
  have hrun : (FrameM.addReturned frame ty).run state.frames =
      (.ok true, state.frames.modify call fun found =>
        { found with returned := found.returned ++ [ty] }) := by
    unfold FrameM.addReturned
    rw [FrameM.run_bind_of_ok
      (rfl : (get : FrameM FrameStore).run state.frames = (.ok state.frames, state.frames))]
    unfold FrameStore.lexicalCall? at h
    rw [h]
    rfl
  exact frames_of_run hrun

theorem lawful_of_argument (hsound : context.Sound) (hlawful : state.Lawful context)
    (hmeets : context.Meets state.frames frame node) {argument : Option NodeId} {depth : Nat}
    (hkind : context.tree.kind node = .returnStmt argument)
    (hdepth : nesting context.tree.size (state.frames.calls frame).length node ≤ depth)
    {ty : Ty} {evaluated : CheckState}
    (h : argument.elim (types Ty.undefined) ((Evaluator.upTo depth).expression frame) context
      state = .ok (ty, evaluated)) :
    evaluated.Lawful context ∧ state.frames.Extends evaluated.frames := by
  have hinside : Inside context state depth frame node :=
    ⟨hmeets.frame_lt, hmeets.node_lt, hmeets.scope, hdepth⟩
  have hagrees : (Evaluator.upTo depth).Agrees context depth
      (Evaluator.watchedUpTo (fun _ _ _ _ => true) depth) :=
    Evaluator.agrees_watchedUpTo hsound (fun _ _ _ _ => rfl) (Nat.le_refl _) (Nat.le_refl _)
  cases argument with
  | none =>
      have hresult := (agree_types_of_grows (grows_undefined state.types) hlawful).2
      rw [Option.elim_none] at h
      rw [h] at hresult
      exact ⟨hresult.1, hresult.2.1⟩
  | some argument =>
      have hpart : (argument, Part.expression) ∈ (context.tree.kind node).parts := by
        rw [hkind]
        exact List.mem_singleton.mpr rfl
      have hresult := (hagrees.expression_of_places (hinside.part hsound hpart) hlawful).2
      rw [Option.elim_some] at h
      rw [h] at hresult
      exact ⟨hresult.1, hresult.2.1⟩

theorem returns_of_meets (hsound : context.Sound) (hlawful : state.Lawful context)
    (hmeets : context.Meets state.frames frame node) : Returns context state frame node := by
  intro argument depth hkind hdepth ty evaluated hevaluated
  obtain ⟨hafter, hextends⟩ :=
    lawful_of_argument hsound hlawful hmeets hkind hdepth hevaluated
  have hlater := hmeets.later hextends
  have haround := (aligned_of_meets hsound hafter hlater).function
  rw [returnStatement_of_ok hevaluated]
  constructor
  · intro hnone
    rw [hnone, Option.map_eq_none_iff] at haround
    have htrace := hafter.frames.trace_eq hsound.graph hsound.tree hlater.frame_lt hlater.node_lt
      hlater.opens hlater.scope
    rw [hnone] at htrace
    change (frames (FrameM.addReturned frame ty) context evaluated).bind _ = _
    rw [frames_addReturned_of_none haround]
    change Except.ok ((), { evaluated with
      diagnostics := evaluated.diagnostics.report (.ofProblem _ .unexpectedReturn
        (evaluated.frames.trace context.tree frame node)) }) = _
    rw [htrace]
    rfl
  · intro function hfunction
    rw [hfunction, Option.map_eq_some_iff] at haround
    obtain ⟨call, hcall, hnode⟩ := haround
    refine ⟨call, hcall, hnode, ?_⟩
    change (frames (FrameM.addReturned frame ty) context evaluated).bind _ = _
    rw [frames_addReturned_of_some hcall]
    rfl

theorem opensScope_of_returnStmt {argument : Option NodeId}
    (h : context.tree.kind node = .returnStmt argument) :
    (context.tree.kind node).opensScope = false := by
  rw [h]
  rfl

/-- Wherever a node is followed, it is in place. -/
theorem passes_placed (hsound : context.Sound) :
    Evaluator.Passes context (.ofProperty Placed) := by
  intro state frame node hlawful hframe hnode hstands
  have hplaced : Placed context state frame node := by
    refine ⟨fun hopens => ?_, fun argument depth hkind => ?_⟩
    · exact aligned_of_meets hsound hlawful (meets_of_stands hframe hnode hopens hstands)
    · exact returns_of_meets hsound hlawful
        (meets_of_stands hframe hnode (opensScope_of_returnStmt hkind) hstands) argument depth hkind
  exact @decide_eq_true _ (Classical.propDecidable _) hplaced

end Check

/-! ## Reports -/

/-- A diagnostic reports a problem at a node that some calls lead to.  Its trace is empty where
the node is outside every function; otherwise it names the function that contains the node, and
for each call the function that contains the call.  Only a `return` outside every function is
unexpected. -/
def Diagnostic.IsTraced (tree : Tree) (found : Diagnostic) : Prop :=
  ∃ node problem sites, tree.CallPath node sites ∧
    found = .ofProblem (tree.start node).location problem
      (if (tree.functionAround? node).isSome then (node :: sites).map tree.placeName else []) ∧
    (problem = .unexpectedReturn →
      (∃ argument, tree.kind node = .returnStmt argument) ∧ tree.functionAround? node = none)

theorem Diagnostic.IsReport.isTraced {context : CheckContext} (hsound : context.Sound)
    {found : Diagnostic} (h : found.IsReport context) : found.IsTraced context.tree := by
  obtain ⟨frames, frame, node, problem, hlawful, hmeets, hfound, hproblem⟩ := h
  have haround := hlawful.node_stackCall? hsound.graph hsound.tree hmeets.frame_lt
    hmeets.node_lt hmeets.opens hmeets.scope
  refine ⟨node, problem, frames.callSites frame,
    hlawful.callPath hsound.graph hsound.tree hmeets.frame_lt haround, ?_, fun hunexpected => ?_⟩
  · rw [hfound, hlawful.trace_eq hsound.graph hsound.tree hmeets.frame_lt hmeets.node_lt
      hmeets.opens hmeets.scope]
  · obtain ⟨hreturn, hnone⟩ := hproblem hunexpected
    refine ⟨hreturn, ?_⟩
    rw [← haround, ← hlawful.lexicalCall?_eq_stackCall? hmeets.frame_lt, FrameStore.lexicalCall?,
      hnone]
    rfl

/-- While a program that could be read is followed, each node that opens no scope is met in a
frame whose scopes are those around the node, and whose two links lead to the same call first,
one of the function that contains the node.  So each `return` goes to a call of its function and
is reported outside every function only, and all that is reported on the way is traced through
the functions that its places stand in. -/
theorem Tree.links_aligned_throughout {tokens : List Token} {file : String} {tree : Tree}
    (h : Tree.ofTokens tokens file = .ok tree) (joinBound : Nat) (options : CheckOptions) :
    tree.Throughout joinBound options Check.Placed ∧
      ∀ run, tree.runWithin joinBound options = .ok run →
        ∃ found : List Diagnostic,
          run.state.diagnostics = found.foldl Diagnostics.report (tree.resolved options).2 ∧
            ∀ diagnostic ∈ found, diagnostic.IsTraced tree := by
  have hwellFormed := Tree.wellFormed_of_ofTokens h
  have hsound := hwellFormed.sound joinBound options
  have hpasses : Evaluator.Passes (tree.context joinBound options) (.ofProperty Check.Placed) :=
    Check.passes_placed hsound
  refine ⟨hwellFormed.throughout hpasses, fun run hrun => ?_⟩
  obtain ⟨-, hresult⟩ := Tree.runBy_reports hwellFormed joinBound options hpasses
    (Nat.le_refl _) (Nat.le_refl _)
  rw [← Tree.runWithin_eq_runBy, hrun] at hresult
  obtain ⟨found, hfound, hreports⟩ := hresult.2
  exact ⟨found, hfound, fun diagnostic hmem => (hreports diagnostic hmem).isTraced hsound⟩

/-- A member that is missing two calls deep, and a `return` outside every function. -/
def nestedCalls : String :=
  "function f(x) { return g(x); } function g(y) { return y.z; } f({}); return f;"

theorem Tree.links_aligned_throughout_nestedCalls :
    ∃ tokens tree run, Tree.ofTokens tokens "" = .ok tree ∧ tree.runWithin 8 {} = .ok run ∧
      run.state.diagnostics.toList.map Diagnostic.trace =
        [["g (:1:54)", "f (:1:23)", ":1:61"], []] ∧
      tree.Throughout 8 {} Check.Placed ∧
      ∃ found : List Diagnostic,
        run.state.diagnostics = found.foldl Diagnostics.report (tree.resolved {}).2 ∧
          ∀ diagnostic ∈ found, diagnostic.IsTraced tree := by
  let tokens := (Lexer.tokenize nestedCalls).toOption.getD []
  have hread : ((Tree.ofTokens tokens "").toOption.any fun tree =>
      (tree.runWithin 8 {}).toOption.any fun run =>
        decide (run.state.diagnostics.toList.map Diagnostic.trace =
          [["g (:1:54)", "f (:1:23)", ":1:61"], []])) = true := by decide +kernel
  cases htree : Tree.ofTokens tokens "" with
  | error halt =>
      rw [htree] at hread
      cases hread
  | ok tree =>
      rw [htree] at hread
      obtain ⟨hthroughout, hreports⟩ := Tree.links_aligned_throughout htree 8 {}
      cases hrun : tree.runWithin 8 {} with
      | error halt =>
          simp [hrun, Except.toOption] at hread
      | ok run =>
          refine ⟨tokens, tree, run, htree, hrun, ?_, hthroughout, hreports run hrun⟩
          simpa [hrun, Except.toOption] using hread

end ScriptCheck
