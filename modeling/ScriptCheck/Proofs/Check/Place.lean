import ScriptCheck.Proofs.Check.Agree

/-!
# Where nodes are followed

A node is followed in a frame of the scope around it.  How deep the rules nest below it
is bounded by the functions that are not called yet and by the place of the node in the
tree.
-/

namespace ScriptCheck

open ScopeGraph CheckM

/-- A bound on the nesting below a node in a tree of a size, when so many functions are
called. -/
def nesting (size calls node : Nat) : Nat := (size - calls) * (size + 1) + node

/-- Entering a function leaves room for all of the tree once more. -/
theorem nesting_call_le {size calls node : Nat} (hcalls : calls < size) (hnode : node < size) :
    nesting size (calls + 1) node ≤ nesting size calls 0 := by
  have hleft : size - calls = size - (calls + 1) + 1 := by omega
  unfold nesting
  rw [hleft, Nat.succ_mul]
  omega

structure Fits (context : CheckContext) (state : CheckState) (depth frame node : Nat) : Prop where
  frame_lt : frame < state.frames.frames.size
  node_lt : node < context.tree.size
  stands : context.graph.StandsIn context.tree node (state.frames.frame frame).scope
  nesting_lt : nesting context.tree.size (state.frames.calls frame).length node < depth

/-- A frame is that of the scope inside a node, whose parts can be followed down to a
depth. -/
structure Inside (context : CheckContext) (state : CheckState) (depth frame node : Nat) :
    Prop where
  frame_lt : frame < state.frames.frames.size
  node_lt : node < context.tree.size
  scope : (state.frames.frame frame).scope = context.graph.scopeOf node
  nesting_le : nesting context.tree.size (state.frames.calls frame).length node ≤ depth

/-- Functions can be called by a node in a frame, and be followed down to a depth. -/
structure Calls (context : CheckContext) (state : CheckState) (depth frame site : Nat) :
    Prop where
  meets : context.Meets state.frames frame site
  invocation : (context.tree.kind site).isInvocation
  nesting_le : nesting context.tree.size (state.frames.calls frame).length 0 ≤ depth

/-- A node stands in a place of a sort, and can be followed down to a depth. -/
structure Places (context : CheckContext) (state : CheckState) (depth frame node : Nat)
    (sort : Part) : Prop where
  fits : Fits context state depth frame node
  suits : sort.admits (context.tree.kind node)

def NodeKind.isFollowed : NodeKind → Bool
  | program _ | catchClause _ _ => true
  | kind => kind.isStatement

structure Evaluator.Agrees (context : CheckContext) (depth : Nat) (eval other : Evaluator) :
    Prop where
  expression : ∀ {state frame node}, Fits context state depth frame node →
    (context.tree.kind node).isExpression →
      Agree context state (eval.expression frame node) (other.expression frame node)
        (fun _ _ => True)
  statement : ∀ {state frame node}, Fits context state depth frame node →
    (context.tree.kind node).isFollowed →
      Agree context state (eval.statement frame node) (other.statement frame node)
        (fun _ _ => True)

variable {context : CheckContext} {state next : CheckState} {depth frame node : Nat}

namespace Fits

theorem later (h : Fits context state depth frame node)
    (hextends : state.frames.Extends next.frames) : Fits context next depth frame node where
  frame_lt := Nat.lt_of_lt_of_le h.frame_lt hextends.size_le
  node_lt := h.node_lt
  stands := by
    rw [hextends.scope h.frame_lt]
    exact h.stands
  nesting_lt := by
    rw [hextends.calls h.frame_lt]
    exact h.nesting_lt

theorem inside (h : Fits context state (depth + 1) frame node)
    (hopens : (context.tree.kind node).opensScope = false) :
    Inside context state depth frame node where
  frame_lt := h.frame_lt
  node_lt := h.node_lt
  scope := by
    have hstands := h.stands
    unfold StandsIn IsInside at hstands
    rw [hopens] at hstands
    exact hstands.symm
  nesting_le := Nat.le_of_lt_succ h.nesting_lt

theorem deeper (h : Fits context state depth frame node) :
    Fits context state (depth + 1) frame node :=
  ⟨h.frame_lt, h.node_lt, h.stands, Nat.lt_succ_of_lt h.nesting_lt⟩

theorem move (h : Fits context state depth frame node) {other : Nat}
    (hlt : other < next.frames.frames.size)
    (hscope : (next.frames.frame other).scope = (state.frames.frame frame).scope)
    (hcalls : next.frames.calls other = state.frames.calls frame) :
    Fits context next depth other node where
  frame_lt := hlt
  node_lt := h.node_lt
  stands := by
    rw [hscope]
    exact h.stands
  nesting_lt := by
    rw [hcalls]
    exact h.nesting_lt

end Fits

namespace Inside

theorem later (h : Inside context state depth frame node)
    (hextends : state.frames.Extends next.frames) : Inside context next depth frame node where
  frame_lt := Nat.lt_of_lt_of_le h.frame_lt hextends.size_le
  node_lt := h.node_lt
  scope := by rw [hextends.scope h.frame_lt, h.scope]
  nesting_le := by
    rw [hextends.calls h.frame_lt]
    exact h.nesting_le

theorem part (h : Inside context state depth frame node) (hsound : context.Sound) {part : Nat}
    {sort : Part} (hpart : (part, sort) ∈ (context.tree.kind node).parts) :
    Places context state depth frame part sort := by
  have hlt := hsound.tree.part_lt h.node_lt hpart
  refine ⟨⟨h.frame_lt, Nat.lt_trans hlt h.node_lt, ?_, ?_⟩, hsound.tree.part_suits h.node_lt hpart⟩
  · rw [h.scope]
    exact hsound.graph.child node h.node_lt part (NodeKind.mem_children_of_mem_parts hpart)
  · refine Nat.lt_of_lt_of_le ?_ h.nesting_le
    unfold nesting
    omega

theorem meets (h : Inside context state depth frame node)
    (hopens : (context.tree.kind node).opensScope = false) :
    context.Meets state.frames frame node :=
  ⟨h.frame_lt, h.node_lt, hopens, h.scope⟩

theorem calls (h : Inside context state depth frame node)
    (hinvocation : (context.tree.kind node).isInvocation) :
    Calls context state depth frame node := by
  refine ⟨h.meets ?_, hinvocation, Nat.le_trans ?_ h.nesting_le⟩
  · generalize context.tree.kind node = kind at hinvocation ⊢
    cases kind with
    | call | newExpr => rfl
    | _ => cases hinvocation
  · unfold nesting
    omega

end Inside

theorem Calls.later {site : Nat} (h : Calls context state depth frame site)
    (hextends : state.frames.Extends next.frames) : Calls context next depth frame site := by
  refine ⟨h.meets.later hextends, h.invocation, ?_⟩
  rw [hextends.calls h.meets.frame_lt]
  exact h.nesting_le

namespace Places

variable {sort : Part}

theorem later (h : Places context state depth frame node sort)
    (hextends : state.frames.Extends next.frames) :
    Places context next depth frame node sort :=
  ⟨h.fits.later hextends, h.suits⟩

theorem inside (h : Places context state depth frame node sort)
    (hopens : (context.tree.kind node).opensScope = false) :
    Inside context state depth frame node :=
  h.fits.deeper.inside hopens

theorem target_cases (h : Places context state depth frame node .target) :
    (∃ name, context.tree.kind node = .identifier name) ∨
      ∃ owner key, context.tree.kind node = .member owner key := by
  have hsuits := h.suits
  generalize context.tree.kind node = kind at hsuits ⊢
  cases kind with
  | identifier name => exact .inl ⟨name, rfl⟩
  | member owner key => exact .inr ⟨owner, key, rfl⟩
  | _ => cases hsuits

theorem expression_of_target (h : Places context state depth frame node .target) :
    Places context state depth frame node .expression := by
  refine ⟨h.fits, ?_⟩
  rcases h.target_cases with ⟨name, hkind⟩ | ⟨owner, key, hkind⟩
  · rw [hkind]
    rfl
  · rw [hkind]
    rfl

theorem opensScope_of_target (h : Places context state depth frame node .target) :
    (context.tree.kind node).opensScope = false := by
  rcases h.target_cases with ⟨name, hkind⟩ | ⟨owner, key, hkind⟩
  · rw [hkind]
    rfl
  · rw [hkind]
    rfl

end Places

namespace Evaluator.Agrees

variable {eval other : Evaluator}

theorem expression_of_places (h : eval.Agrees context depth other)
    (hplaces : Places context state depth frame node .expression) :
    Agree context state (eval.expression frame node) (other.expression frame node)
      (fun _ _ => True) :=
  h.expression hplaces.fits hplaces.suits

theorem statement_of_places (h : eval.Agrees context depth other)
    (hplaces : Places context state depth frame node .statement) :
    Agree context state (eval.statement frame node) (other.statement frame node)
      (fun _ _ => True) := by
  refine h.statement hplaces.fits ?_
  have hsuits : (context.tree.kind node).isStatement := hplaces.suits
  unfold NodeKind.isFollowed
  split
  · rfl
  · rfl
  · exact hsuits

end Evaluator.Agrees

end ScriptCheck
