import ScriptCheck.Proofs.Frame.Links
import ScriptCheck.Proofs.Tree.Enclosing

/-!
# Frames and the functions around nodes

Two links lead from a frame outwards: to the frame of the scope around its own, and to the
frame that entered it.  The scopes along the first are those around the scope of the frame.
Both links lead to the same call first, and it is a call of the innermost function around each
node of the scope.  So a trace, which follows the second link, names for every place in it the
function that contains the place.
-/

namespace ScriptCheck

/-! ## Scopes and functions -/

namespace ScopeGraph

/-- A scope and those around it up to the scope of the program, inwards to outwards. -/
def scopesAround (graph : ScopeGraph) (scope : Nat) : List Nat :=
  match (graph.scope scope).parent with
  | none => [scope]
  | some parent =>
      if parent < scope then
        if 0 < parent then scope :: graph.scopesAround parent else [scope]
      else [scope]
termination_by scope

def functionAt? (graph : ScopeGraph) (tree : Tree) (scope : Nat) : Option Nat :=
  ((graph.scopesAround scope).map fun around => (graph.scope around).node).find? fun node =>
    (tree.function? node).isSome

variable {graph : ScopeGraph} {tree : Tree} {globals : List String}

theorem scopesAround_of_parent {scope parent : Nat} (hpos : 0 < parent) (hlt : parent < scope)
    (h : (graph.scope scope).parent = some parent) :
    graph.scopesAround scope = scope :: graph.scopesAround parent := by
  rw [scopesAround, h]
  simp [hpos, hlt]

theorem scopesAround_of_global {scope : Nat} (h : (graph.scope scope).parent = some 0) :
    graph.scopesAround scope = [scope] := by
  rw [scopesAround, h]
  simp

theorem functionAt?_of_scopesAround {scope : Nat} {rest : List Nat}
    (h : graph.scopesAround scope = scope :: rest) :
    graph.functionAt? tree scope =
      if (tree.function? (graph.scope scope).node).isSome then some (graph.scope scope).node
      else (rest.map fun around => (graph.scope around).node).find? fun node =>
        (tree.function? node).isSome := by
  rw [functionAt?, h, List.map_cons, List.find?_cons]
  cases (tree.function? (graph.scope scope).node).isSome <;> rfl

namespace Describes

theorem parent_of_opens (h : graph.Describes tree globals) {node parent : Nat}
    (hparent : tree.parent? node = some parent) (hopens : (tree.kind node).opensScope) :
    (graph.scope (graph.scopeOf node)).parent = some (graph.scopeOf parent) := by
  obtain ⟨-, hlt, hmem⟩ := Tree.parent?_spec hparent
  have hstands := h.child parent hlt node hmem
  unfold StandsIn IsInside at hstands
  rwa [if_pos hopens] at hstands

theorem scopeOf_of_not_opens (h : graph.Describes tree globals) {node parent : Nat}
    (hparent : tree.parent? node = some parent) (hopens : (tree.kind node).opensScope = false) :
    graph.scopeOf node = graph.scopeOf parent := by
  obtain ⟨-, hlt, hmem⟩ := Tree.parent?_spec hparent
  have hstands := h.child parent hlt node hmem
  unfold StandsIn IsInside at hstands
  rwa [hopens] at hstands

theorem parent_root (h : graph.Describes tree globals) (htree : tree.WellFormed) :
    (graph.scope (graph.scopeOf tree.root)).parent = some 0 := by
  have hstands := h.root
  unfold StandsIn IsInside at hstands
  rwa [if_pos htree.opensScope_root] at hstands

theorem scopeOf_pos (h : graph.Describes tree globals) (htree : tree.WellFormed) {node : Nat}
    (hnode : node < tree.size) : 0 < graph.scopeOf node := by
  have hsize := htree.size_eq
  induction hrest : tree.size - node using Nat.strongRecOn generalizing node with
  | ind rest ih =>
      subst hrest
      by_cases hroot : node = tree.root
      · subst hroot
        exact h.regular.parent_lt (h.parent_root htree)
      · have hbelow : node < tree.root := by omega
        obtain ⟨parent, hparent⟩ := htree.exists_parent? hbelow
        obtain ⟨hlt, hparentLt, -⟩ := Tree.parent?_spec hparent
        have hpos := ih (tree.size - parent) (by omega) hparentLt rfl
        cases hopens : (tree.kind node).opensScope with
        | false => rwa [h.scopeOf_of_not_opens hparent hopens]
        | true => exact Nat.lt_trans hpos (h.regular.parent_lt (h.parent_of_opens hparent hopens))

theorem functionAt?_scopeOf (h : graph.Describes tree globals) (htree : tree.WellFormed)
    {node : Nat} (hnode : node < tree.size) :
    graph.functionAt? tree (graph.scopeOf node) =
      if (tree.function? node).isSome then some node else tree.functionAround? node := by
  have hsize := htree.size_eq
  induction hrest : tree.size - node using Nat.strongRecOn generalizing node with
  | ind rest ih =>
      subst hrest
      by_cases hroot : node = tree.root
      · subst hroot
        obtain ⟨body, hbody⟩ := htree.program
        have hnone : tree.function? tree.root = none := by rw [Tree.function?, hbody]
        have hopened := (h.opened tree.root hnode htree.opensScope_root).2
        rw [functionAt?_of_scopesAround (scopesAround_of_global (h.parent_root htree)), hopened,
          hnone, Tree.functionAround?, htree.parent?_root]
        rfl
      · have hbelow : node < tree.root := by omega
        obtain ⟨parent, hparent⟩ := htree.exists_parent? hbelow
        obtain ⟨hlt, hparentLt, -⟩ := Tree.parent?_spec hparent
        have houter := ih (tree.size - parent) (by omega) hparentLt rfl
        rw [← Tree.functionAround?_of_parent hparent] at houter
        cases hopens : (tree.kind node).opensScope with
        | false =>
            have hnone : tree.function? node = none := by
              refine Tree.function?_eq_none_iff.mpr fun shape hkind => ?_
              rw [hkind] at hopens
              cases hopens
            rw [h.scopeOf_of_not_opens hparent hopens, houter, hnone]
            rfl
        | true =>
            have haround := h.parent_of_opens hparent hopens
            have hchain := scopesAround_of_parent (h.scopeOf_pos htree hparentLt)
              (h.regular.parent_lt haround) haround
            rw [functionAt?_of_scopesAround hchain, (h.opened node hnode hopens).2]
            rw [functionAt?] at houter
            rw [houter]

theorem functionAt?_of_not_opens (h : graph.Describes tree globals) (htree : tree.WellFormed)
    {node : Nat} (hnode : node < tree.size) (hopens : (tree.kind node).opensScope = false) :
    graph.functionAt? tree (graph.scopeOf node) = tree.functionAround? node := by
  have hnone : tree.function? node = none := by
    refine Tree.function?_eq_none_iff.mpr fun shape hkind => ?_
    rw [hkind] at hopens
    cases hopens
  rw [h.functionAt?_scopeOf htree hnode, hnone]
  rfl

end Describes

end ScopeGraph

/-! ## The two links -/

namespace FrameStore

open ScopeGraph

def chainScopes (store : FrameStore) (id : Nat) : List Nat :=
  ((store.lexicalChain id).filter fun frame => !(store.frame frame).overlay).map fun frame =>
    (store.frame frame).scope

def lexicalCall? (store : FrameStore) (id : Nat) : Option Nat :=
  (store.lexicalChain id).find? fun frame => (store.frame frame).isCall

def stackCall? (store : FrameStore) (id : Nat) : Option Nat :=
  (store.callStack id).find? fun frame => (store.frame frame).isCall

def callSites (store : FrameStore) (id : Nat) : List Nat :=
  (store.callStack id).filterMap fun frame => (store.frame frame).caller

variable {tree : Tree} {graph : ScopeGraph} {globals : List String} {store : FrameStore} {id : Nat}

theorem callStack_of_parentFrame {entered : Nat} (hlt : entered < id)
    (h : (store.frame id).parentFrame = some entered) :
    store.callStack id = id :: store.callStack entered := by
  rw [callStack, h]
  exact if_pos hlt

theorem IsRoot.lexicalChain (h : IsRoot tree graph globals (store.frame 0)) :
    store.lexicalChain 0 = [0] := by
  rw [FrameStore.lexicalChain, h.parentChain]

theorem IsRoot.callStack (h : IsRoot tree graph globals (store.frame 0)) :
    store.callStack 0 = [0] := by
  rw [FrameStore.callStack, h.parentFrame]

theorem IsRoot.isCall (h : IsRoot tree graph globals (store.frame 0)) :
    (store.frame 0).isCall = false := by
  rw [Frame.isCall, h.caller]
  rfl

namespace Lawful

variable (hgraph : graph.Describes tree globals) (htree : tree.WellFormed)
include hgraph htree

theorem scope_pos (h : Lawful tree graph globals store) (hid : id < store.frames.size) :
    0 < (store.frame id).scope := by
  induction id using Nat.strongRecOn with
  | ind id ih =>
      by_cases hzero : id = 0
      · subst hzero
        rw [h.root.scope]
        exact hgraph.regular.parent_lt (hgraph.parent_root htree)
      · obtain ⟨outer, hlt, -, hscope⟩ := (h.linked id (by omega) hid).chain
        have hpos := ih outer hlt (by omega)
        split at hscope
        · rwa [hscope]
        · exact Nat.lt_trans hpos (hgraph.regular.parent_lt hscope)

theorem chainScopes_eq (h : Lawful tree graph globals store) (hid : id < store.frames.size) :
    store.chainScopes id = graph.scopesAround (store.frame id).scope := by
  induction id using Nat.strongRecOn with
  | ind id ih =>
      by_cases hzero : id = 0
      · subst hzero
        rw [chainScopes, h.root.lexicalChain, h.root.scope,
          scopesAround_of_global (hgraph.parent_root htree)]
        simp [h.root.overlay, h.root.scope]
      · obtain ⟨outer, hlt, hparent, hscope⟩ := (h.linked id (by omega) hid).chain
        have houter := ih outer hlt (by omega)
        rw [chainScopes, lexicalChain_of_parentChain hlt hparent, List.filter_cons]
        cases hoverlay : (store.frame id).overlay with
        | true =>
            rw [hoverlay, if_pos rfl] at hscope
            rw [hscope, ← houter]
            rfl
        | false =>
            rw [hoverlay, if_neg Bool.false_ne_true] at hscope
            rw [scopesAround_of_parent (h.scope_pos hgraph htree (by omega))
              (hgraph.regular.parent_lt hscope) hscope, ← houter]
            rfl

omit hgraph htree in
theorem lexicalCall?_eq_stackCall? (h : Lawful tree graph globals store)
    (hid : id < store.frames.size) : store.lexicalCall? id = store.stackCall? id := by
  induction id using Nat.strongRecOn with
  | ind id ih =>
      by_cases hzero : id = 0
      · subst hzero
        rw [lexicalCall?, stackCall?, h.root.lexicalChain, h.root.callStack]
      · have hlinked := h.linked id (by omega) hid
        obtain ⟨outer, hlt, hchain, -⟩ := hlinked.chain
        obtain ⟨entered, hbefore, hstack⟩ := hlinked.stack
        rw [lexicalCall?, stackCall?, lexicalChain_of_parentChain hlt hchain,
          callStack_of_parentFrame hbefore hstack, List.find?_cons, List.find?_cons]
        cases hcall : (store.frame id).isCall with
        | true => rfl
        | false =>
            have hplain := hlinked.plain hcall
            rw [hstack, hchain] at hplain
            cases hplain
            exact ih outer hlt (by omega)

theorem node_lexicalCall? (h : Lawful tree graph globals store) (hid : id < store.frames.size) :
    (store.lexicalCall? id).map (fun call => (store.frame call).node) =
      graph.functionAt? tree (store.frame id).scope := by
  induction id using Nat.strongRecOn with
  | ind id ih =>
      by_cases hzero : id = 0
      · subst hzero
        obtain ⟨body, hbody⟩ := htree.program
        have hroot : tree.root < tree.size := by
          rw [htree.size_eq]
          exact Nat.lt_succ_self _
        have hnone : tree.function? tree.root = none := by rw [Tree.function?, hbody]
        rw [lexicalCall?, h.root.lexicalChain, h.root.scope,
          hgraph.functionAt?_scopeOf htree hroot, hnone, Tree.functionAround?, htree.parent?_root]
        simp [h.root.isCall]
      · have hlinked := h.linked id (by omega) hid
        obtain ⟨outer, hlt, hchain, hscope⟩ := hlinked.chain
        have houter := ih outer hlt (by omega)
        rw [lexicalCall?, lexicalChain_of_parentChain hlt hchain, List.find?_cons]
        cases hcall : (store.frame id).isCall with
        | true =>
            obtain ⟨-, hnode, hfunction, hown⟩ := hlinked.call hcall
            rw [hown, hgraph.functionAt?_scopeOf htree hnode, if_pos hfunction]
            rfl
        | false =>
            cases hoverlay : (store.frame id).overlay with
            | true =>
                rw [hoverlay, if_pos rfl] at hscope
                rw [hscope]
                exact houter
            | false =>
                obtain ⟨opener, hopener, hopens, hfunction, hown⟩ := hlinked.opener hcall hoverlay
                rw [hoverlay, if_neg Bool.false_ne_true] at hscope
                have hround := scopesAround_of_parent (h.scope_pos hgraph htree (by omega))
                  (hgraph.regular.parent_lt hscope) hscope
                rw [functionAt?_of_scopesAround hround]
                rw [hown, (hgraph.opened opener hopener hopens).2, hfunction]
                exact houter

theorem node_stackCall? (h : Lawful tree graph globals store) (hid : id < store.frames.size)
    {node : Nat} (hnode : node < tree.size) (hopens : (tree.kind node).opensScope = false)
    (hscope : (store.frame id).scope = graph.scopeOf node) :
    (store.stackCall? id).map (fun call => (store.frame call).node) =
    tree.functionAround? node := by
  rw [← h.lexicalCall?_eq_stackCall? hid, h.node_lexicalCall? hgraph htree hid, hscope,
    hgraph.functionAt?_of_not_opens htree hnode hopens]

end Lawful

end FrameStore

/-! ## Traces -/

namespace Tree

def placeIn (tree : Tree) (function : Option Nat) (place : String) : String :=
  match function with
  | none => place
  | some function =>
      ((tree.function? function).map FunctionShape.displayName).getD "anon" ++ " (" ++ place ++ ")"

def placeName (tree : Tree) (node : Nat) : String :=
  tree.placeIn (tree.functionAround? node) (FrameStore.site tree node)

/-- A node is reached through calls at some nodes, the innermost first: each call but the last is
made inside a function, and so is the node if there are calls. -/
inductive CallPath (tree : Tree) : Nat → List Nat → Prop
  | outside {node : Nat} (around : tree.functionAround? node = none) : CallPath tree node []
  | inside {node function site : Nat} {sites : List Nat}
      (around : tree.functionAround? node = some function)
      (invocation : (tree.kind site).isInvocation) (before : CallPath tree site sites) :
      CallPath tree node (site :: sites)

end Tree

theorem NodeKind.opensScope_of_isInvocation {kind : NodeKind} (h : kind.isInvocation) :
    kind.opensScope = false := by
  cases kind with
  | call | newExpr => rfl
  | _ => cases h

namespace FrameStore.Lawful

open ScopeGraph

variable {tree : Tree} {graph : ScopeGraph} {globals : List String} {store : FrameStore} {id : Nat}

theorem stackCall?_of_not_call {entered : Nat} (hlt : entered < id)
    (hparent : (store.frame id).parentFrame = some entered)
    (hcall : (store.frame id).isCall = false) :
    store.stackCall? id = store.stackCall? entered ∧
      store.callSites id = store.callSites entered := by
  have hcaller : (store.frame id).caller = none := by simpa [Frame.isCall] using hcall
  simp [stackCall?, callSites, callStack_of_parentFrame hlt hparent, hcall, hcaller]

theorem stackCall?_of_call {entered site : Nat} (hlt : entered < id)
    (hparent : (store.frame id).parentFrame = some entered)
    (hcaller : (store.frame id).caller = some site) :
    store.stackCall? id = some id ∧ store.callSites id = site :: store.callSites entered := by
  simp [stackCall?, callSites, callStack_of_parentFrame hlt hparent, hcaller, Frame.isCall]

theorem root_stackCall? (h : Lawful tree graph globals store) :
    store.stackCall? 0 = none ∧ store.callSites 0 = [] := by
  simp [stackCall?, callSites, h.root.callStack, h.root.isCall, h.root.caller]

variable (hgraph : graph.Describes tree globals) (htree : tree.WellFormed)
include hgraph htree

theorem callPath (h : Lawful tree graph globals store) (hid : id < store.frames.size) {node : Nat}
    (hnode : (store.stackCall? id).map (fun call => (store.frame call).node) =
      tree.functionAround? node) : tree.CallPath node (store.callSites id) := by
  induction id using Nat.strongRecOn generalizing node with
  | ind id ih =>
      by_cases hzero : id = 0
      · subst hzero
        obtain ⟨hnone, hsites⟩ := h.root_stackCall?
        rw [hnone] at hnode
        rw [hsites]
        exact .outside hnode.symm
      · have hlinked := h.linked id (by omega) hid
        obtain ⟨entered, hlt, hparent⟩ := hlinked.stack
        cases hcaller : (store.frame id).caller with
        | none =>
            have hcall : (store.frame id).isCall = false := by rw [Frame.isCall, hcaller]; rfl
            obtain ⟨hsame, hsites⟩ := stackCall?_of_not_call hlt hparent hcall
            rw [hsame] at hnode
            rw [hsites]
            exact ih entered hlt (by omega) hnode
        | some site =>
            obtain ⟨hself, hsites⟩ := stackCall?_of_call hlt hparent hcaller
            obtain ⟨hsite, hinvocation, hscope⟩ := hlinked.site hcaller hparent
            rw [hself] at hnode
            rw [hsites]
            refine .inside hnode.symm hinvocation (ih entered hlt (by omega) ?_)
            exact h.node_stackCall? hgraph htree (by omega) hsite
              (NodeKind.opensScope_of_isInvocation hinvocation) hscope

theorem traceFrom_callStack (h : Lawful tree graph globals store) (hid : id < store.frames.size)
    (place : String) :
    traceFrom tree place ((store.callStack id).map store.frame) =
      tree.placeIn ((store.stackCall? id).map fun call => (store.frame call).node) place ::
        (store.callSites id).map tree.placeName := by
  induction id using Nat.strongRecOn generalizing place with
  | ind id ih =>
      by_cases hzero : id = 0
      · subst hzero
        obtain ⟨hnone, hsites⟩ := h.root_stackCall?
        rw [h.root.callStack, hnone, hsites]
        simp [traceFrom, h.root.caller, Tree.placeIn]
      · have hlinked := h.linked id (by omega) hid
        obtain ⟨entered, hlt, hparent⟩ := hlinked.stack
        rw [callStack_of_parentFrame hlt hparent, List.map_cons, traceFrom]
        cases hcaller : (store.frame id).caller with
        | none =>
            have hcall : (store.frame id).isCall = false := by rw [Frame.isCall, hcaller]; rfl
            obtain ⟨hsame, hsites⟩ := stackCall?_of_not_call hlt hparent hcall
            rw [hsame, hsites]
            exact ih entered hlt (by omega) place
        | some site =>
            obtain ⟨hself, hsites⟩ := stackCall?_of_call hlt hparent hcaller
            obtain ⟨hsite, hinvocation, hscope⟩ := hlinked.site hcaller hparent
            have haround := h.node_stackCall? hgraph htree (Nat.lt_trans hlt hid) hsite
              (NodeKind.opensScope_of_isInvocation hinvocation) hscope
            rw [hself, hsites, List.map_cons, Tree.placeName, ← haround]
            exact congrArg _ (ih entered hlt (by omega) (FrameStore.site tree site))

/-- The trace of a node is empty outside every function, and names inside one the node and each
call after the function that contains it. -/
theorem trace_eq (h : Lawful tree graph globals store) (hid : id < store.frames.size)
    {node : Nat} (hnode : node < tree.size) (hopens : (tree.kind node).opensScope = false)
    (hscope : (store.frame id).scope = graph.scopeOf node) :
    store.trace tree id node =
      if (tree.functionAround? node).isSome then (node :: store.callSites id).map tree.placeName
      else [] := by
  have haround := h.node_stackCall? hgraph htree hid hnode hopens hscope
  have hany : ((store.callStack id).map store.frame).any Frame.isCall =
      (tree.functionAround? node).isSome := by
    rw [← haround, Option.isSome_map, stackCall?, List.any_map, Bool.eq_iff_iff]
    simp
  unfold trace
  simp only [hany]
  rw [h.traceFrom_callStack hgraph htree hid, haround]
  rfl

end FrameStore.Lawful

end ScriptCheck
