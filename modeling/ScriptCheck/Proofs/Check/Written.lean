import ScriptCheck.Proofs.Check.Afford
import ScriptCheck.Proofs.Check.Statement

/-!
# Constants are written as often as they are declared

A statement writes the constants that nodes in it declare, each once for each such node, and
in the frames of the call it is followed in.  An expression writes none there: it assigns to
names that may be assigned to, and the functions that it calls have frames of their own.  So
in no frame is a constant written more often than it is declared.
-/

namespace ScriptCheck

open ScopeGraph CheckM FrameStore

/-! ## Places of nodes -/

namespace ScopeGraph

theorem self_mem_scopesAround (graph : ScopeGraph) (scope : Nat) :
    scope ∈ graph.scopesAround scope := by
  rw [scopesAround]
  repeat' split
  all_goals simp

/-- The scopes around a scope are those that lie around it, but the global one. -/
theorem mem_scopesAround_of_within {graph : ScopeGraph} {globals : List String}
    (h : graph.Regular globals) {inner outer : Nat} (hwithin : graph.Within inner outer)
    (hpos : 0 < outer) : outer ≤ inner ∧ outer ∈ graph.scopesAround inner := by
  induction hwithin with
  | refl => exact ⟨Nat.le_refl _, graph.self_mem_scopesAround _⟩
  | step haround _ ih =>
      obtain ⟨hle, hmem⟩ := ih hpos
      have hlt := h.parent_lt haround
      rw [scopesAround_of_parent (Nat.lt_of_lt_of_le hpos hle) hlt haround]
      exact ⟨Nat.le_trans hle (Nat.le_of_lt hlt), List.mem_cons_of_mem _ hmem⟩

end ScopeGraph

namespace CheckContext

structure Stands (context : CheckContext) (store : FrameStore) (frame node : Nat) : Prop where
  frame_lt : frame < store.frames.size
  node_lt : node < context.tree.size
  stands : context.graph.StandsIn context.tree node (store.frame frame).scope
  chain : store.chainScopes frame = context.graph.scopesAround (store.frame frame).scope

/-- A node is about to be followed in a frame: it stands in the scope of the frame, or it is the
program in its own. -/
structure Follows (context : CheckContext) (store : FrameStore) (frame node : Nat) : Prop where
  frame_lt : frame < store.frames.size
  node_lt : node < context.tree.size
  stands : context.graph.StandsIn context.tree node (store.frame frame).scope ∨
    node = context.tree.root ∧
      (store.frame frame).scope = context.graph.scopeOf context.tree.root

/-- A frame is one of the scope of a node, and along its chain lie frames of the scopes around. -/
structure Scoped (context : CheckContext) (store : FrameStore) (frame node : Nat) : Prop where
  frame_lt : frame < store.frames.size
  node_lt : node < context.tree.size
  scope : (store.frame frame).scope = context.graph.scopeOf node
  chain : store.chainScopes frame = context.graph.scopesAround (store.frame frame).scope

variable {context : CheckContext} {store later : FrameStore} {frame node child : Nat}

theorem Stands.follows (h : context.Stands store frame node) : context.Follows store frame node :=
  ⟨h.frame_lt, h.node_lt, .inl h.stands⟩

theorem Scoped.stands_child (h : context.Scoped store frame node) (hoists : context.Hoists)
    (hmem : child ∈ context.tree.children node) : context.Stands store frame child := by
  have hstands := hoists.sound.graph.child node h.node_lt child hmem
  rw [← h.scope] at hstands
  exact ⟨h.frame_lt, Nat.lt_trans (hoists.sound.tree.child_lt h.node_lt hmem) h.node_lt, hstands,
    h.chain⟩

theorem Follows.of_extends (h : context.Follows store frame node) (hgrows : store.Extends later) :
    context.Follows later frame node := by
  refine ⟨Nat.lt_of_lt_of_le h.frame_lt hgrows.size_le, h.node_lt, ?_⟩
  rw [hgrows.scope h.frame_lt]
  exact h.stands

end CheckContext

structure Evaluator.Affords (context : CheckContext) (eval other : Evaluator) : Prop where
  expression : ∀ {store frame nodes} node, CheckM.Affords context store frame nodes
    (eval.expression frame node) (other.expression frame node)
  statement : ∀ {store frame node}, context.Follows store frame node →
    CheckM.Affords context store frame [node] (eval.statement frame node)
      (other.statement frame node)

namespace Check

variable {context : CheckContext} {store : FrameStore} {frame : Nat} {nodes : List NodeId}
  {eval other : Evaluator}

/-! ## Names -/

theorem affords_readName (current : FrameId) (node : NodeId) :
    Affords context store frame nodes (readName current node) (readName current node) := by
  refine .tree_bind (.graph_bind ?_)
  split
  · refine (Affords.readName _ _ _ _ _).bind fun _ => ?_
    split
    · exact .pure _
    · exact .types _
  · split <;> exact .types _

/-- What a node declares is written in the scope where it belongs. -/
theorem affords_writeName (hoists : context.Hoists) {node : Nat}
    (h : context.Stands store frame node) (houtside : (context.tree.kind node).declaresOutside)
    {symbol : SymbolId} (hdeclared : context.graph.declared? node = some symbol) (ty : Ty) :
    Affords context store frame [node] (writeName frame node symbol ty)
      (writeName frame node symbol ty) := by
  refine .tree_bind (.graph_bind (.frames fun later hgrows _ hlimited hroom => ?_))
  refine hlimited.spends_writeName context.tree node ty hroom fun _ => ⟨?_, ?_, ?_⟩
  · exact hoists.one_le_share h.node_lt hdeclared
  · rw [hgrows.scope h.frame_lt]
    exact hoists.declared hdeclared houtside h.stands
  · obtain ⟨-, hwithin, hpos⟩ :=
      hoists.sound.graph.declares node h.node_lt houtside _ h.stands symbol hdeclared
    rw [hgrows.chainScopes h.frame_lt, h.chain]
    exact (mem_scopesAround_of_within hoists.sound.graph.regular hwithin hpos).2

theorem affords_store (node target : NodeId) (place : Place) (ty : Ty) :
    Affords context store frame nodes (Check.store frame node target place ty)
      (Check.store frame node target place ty) := by
  cases place with
  | member owner key => exact .of_still (still_writeMember _ _ _ _ _)
  | name =>
      refine .graph_bind ?_
      split
      · rename_i symbol _
        split
        · rename_i hmutable
          refine .tree_bind (.graph_bind (.frames fun later _ _ hlimited hroom => ?_))
          refine hlimited.spends_writeName context.tree target ty hroom fun hconst => ?_
          rw [hmutable] at hconst
          cases hconst
        · exact .pure ()
      · exact .pure ()

/-! ## Calls -/

theorem affords_bindReceiver (callee : FrameId) (shape : FunctionShape) (scope : ScopeId)
    (receiver : Ty) (arguments : List Ty) : Affords context store frame nodes
      (bindReceiver callee shape scope receiver arguments)
      (bindReceiver callee shape scope receiver arguments) := by
  unfold bindReceiver
  split
  · exact .pure ()
  · refine .graph_bind ?_
    extract_lets rest
    have hbound : Affords context store frame nodes (rest ()) (rest ()) := by
      dsimp only [rest]
      split
      · exact (Affords.joins _).bind fun _ => .bindName _ _ _
      · exact .pure ()
    split
    · exact (Affords.bindName _ _ _).bind fun _ => hbound
    · exact hbound

theorem affords_bindOwnName (callee : FrameId) (shape : FunctionShape) (scope : ScopeId)
    (function : Ty) : Affords context store frame nodes
      (bindOwnName callee shape scope function) (bindOwnName callee shape scope function) := by
  refine .graph_bind (.ite ?_ (.pure ()))
  split
  · exact .ite (.bindName _ _ _) (.pure ())
  · exact .pure ()

theorem affords_bindParameters (callee : FrameId) (parameters : List NodeId)
    (arguments : List Ty) : Affords context store frame nodes
      (bindParameters callee parameters arguments)
      (bindParameters callee parameters arguments) := by
  induction parameters generalizing arguments with
  | nil => exact .pure ()
  | cons parameter rest ih =>
      refine .graph_bind ?_
      split
      · split
        · exact (Affords.pure _).bind fun _ => (Affords.bindName _ _ _).bind fun _ => ih _
        · exact (Affords.types _).bind fun _ => (Affords.bindName _ _ _).bind fun _ => ih _
      · exact ih _

theorem affords_runBody (heval : eval.Affords context other) {shape : FunctionShape}
    (h : context.Follows store frame shape.body) : Affords context store frame [shape.body]
      (runBody eval frame shape) (runBody other frame shape) := by
  refine .ite (heval.expression _) ?_
  exact (heval.statement h).append fun _ => (Affords.frameOf _).bind fun _ =>
    .of_still (still_joinOr _ _)

/-- A call writes constants in frames of its own. -/
theorem affords_enterFunction (hoists : context.Hoists) (heval : eval.Affords context other)
    (site : NodeId) (function : Ty) (node : NodeId) (origin : FrameId) (receiver : Ty)
    (arguments : List Ty) : Affords context store frame nodes
      (enterFunction eval frame site function node origin receiver arguments)
      (enterFunction other frame site function node origin receiver arguments) := by
  refine (Affords.detectRecursion _ _).bind fun _ => .ite (.types _) (.tree_bind (.graph_bind ?_))
  split
  · exact .of_still (.missingChild _ _)
  · rename_i shape hfound
    refine .enterCallee hoists hfound fun later callee hlt hscope => ?_
    have hfollows : context.Follows later callee shape.body := by
      have hstands := hoists.sound.graph.child node (Tree.lt_size_of_function? hfound) shape.body
        (Tree.body_mem_children hfound)
      rw [← hscope] at hstands
      exact ⟨hlt, hoists.body_lt hfound, .inl hstands⟩
    refine (affords_bindReceiver _ _ _ _ _).bind fun _ => (affords_bindOwnName _ _ _ _).bind
      fun _ => (affords_bindParameters _ _ _).bind fun _ =>
        (affords_runBody heval hfollows).append fun _ => (Affords.frameOf _).bind fun _ => ?_
    exact .ite (.joins _) (.pure _)

theorem affords_splitArguments {enter enter' : List Ty → CheckM Ty}
    (h : ∀ {nodes} arguments, Affords context store frame nodes (enter arguments)
      (enter' arguments)) (arguments chosen : List Ty) : Affords context store frame nodes
      (splitArguments enter chosen arguments) (splitArguments enter' chosen arguments) := by
  induction arguments generalizing chosen nodes with
  | nil => exact h _
  | cons argument rest ih =>
      cases argument with
      | plain id => exact ih _
      | union variants =>
          exact (Affords.mapM fun id => ih _).bind fun results => .of_still (still_joinOr results _)

theorem affords_invokePlain (hoists : context.Hoists) (heval : eval.Affords context other)
    (site : NodeId) (receiver : Ty) (arguments : List Ty) (id : TypeId) :
    Affords context store frame nodes (invokePlain eval frame site receiver arguments id)
      (invokePlain other frame site receiver arguments id) := by
  refine (Affords.types _).bind fun callable => ?_
  split
  · exact affords_splitArguments
      (fun _ => affords_enterFunction hoists heval _ _ _ _ _ _) _ _
  · exact .types _
  · refine (Affords.types _).bind fun _ => ?_
    extract_lets rest
    split
    · exact (Affords.types _).bind fun _ => (Affords.of_still (.report _ _ _)).bind
        fun _ => .types _
    · exact .types _

theorem affords_invoke (hoists : context.Hoists) (heval : eval.Affords context other)
    (site : NodeId) (function receiver : Ty) (arguments : List Ty) :
    Affords context store frame nodes (invoke eval frame site function receiver arguments)
      (invoke other frame site function receiver arguments) :=
  (Affords.mapM (affords_invokePlain hoists heval site receiver arguments)).bind
    fun results => .of_still (still_joinOr results _)

theorem affords_construct (hoists : context.Hoists) (heval : eval.Affords context other)
    (site : NodeId) (function : Ty) (arguments : List Ty) : Affords context store frame nodes
      (construct eval frame site function arguments)
      (construct other frame site function arguments) := by
  refine (Affords.of_still (still_constructor? function)).bind fun found => ?_
  split
  · exact (Affords.types _).bind fun _ => (affords_invoke hoists heval _ _ _ _).bind
      fun _ => .types _
  · refine (Affords.of_still (still_instantiate _)).bind fun _ =>
      (affords_invoke hoists heval _ _ _ _).bind fun result =>
        (Affords.of_still (still_isReference result)).bind fun _ => .ite (.pure _) (.pure _)

/-! ## Expressions -/

theorem affords_objectMembers (heval : eval.Affords context other) (node : NodeId)
    (properties : List NodeId) (members : List (String × Ty)) : Affords context store frame nodes
      (objectMembers eval frame node properties members)
      (objectMembers other frame node properties members) := by
  induction properties generalizing members with
  | nil => exact .pure _
  | cons property rest ih =>
      refine .tree_bind ?_
      split
      · exact (heval.expression _).bind fun _ => ih _
      · exact .of_still (.missingChild _ _)

theorem affords_memberKey (heval : eval.Affords context other) (key : MemberKey) :
    Affords context store frame nodes (memberKey eval frame key)
      (memberKey other frame key) := by
  cases key with
  | named name => exact .types (Ty.ofValue (.string name))
  | computed key => exact heval.expression _

theorem affords_logical (heval : eval.Affords context other) (op : LogicalOp)
    (left right : NodeId) : Affords context store frame nodes (logical eval frame op left right)
      (logical other frame op left right) := by
  refine (heval.expression _).bind fun leftType =>
    (Affords.of_still (still_outcome? leftType)).bind fun _ => ?_
  split
  · exact .pure _
  · exact .pure _
  · exact heval.expression _
  · exact (heval.expression _).bind fun _ => .joins _

theorem affords_conditional (heval : eval.Affords context other)
    (test consequent alternate : NodeId) : Affords context store frame nodes
      (conditional eval frame test consequent alternate)
      (conditional other frame test consequent alternate) := by
  refine (heval.expression _).bind fun testType =>
    (Affords.of_still (still_outcome? testType)).bind fun _ => ?_
  split
  · exact heval.expression _
  · exact heval.expression _
  · exact (heval.expression _).bind fun _ => (heval.expression _).bind fun _ => .joins _

theorem affords_initialiser (heval : eval.Affords context other) (node : NodeId) :
    Affords context store frame nodes (initialiser eval frame node)
      (initialiser other frame node) := by
  refine (heval.expression _).bind fun ty => .read_bind ?_
  refine (Affords.types _).bind fun _ => .ite (.pure _) ?_
  refine (Affords.of_still (.tryFold _)).bind fun _ => ?_
  split
  · exact .ite (.types _) (.pure _)
  · exact .pure _

theorem affords_targetPlace (heval : eval.Affords context other) (target : NodeId) :
    Affords context store frame nodes (targetPlace eval frame target)
      (targetPlace other frame target) := by
  refine .tree_bind ?_
  split
  · exact .pure _
  · exact (heval.expression _).bind fun _ => (affords_memberKey heval _).bind fun _ => .pure _
  · exact .of_still (.fail _ _)

theorem affords_assignedType (heval : eval.Affords context other) (node : NodeId) (op : AssignOp)
    (target value : NodeId) (place : Place) : Affords context store frame nodes
      (assignedType eval frame node op target value place)
      (assignedType other frame node op target value place) := by
  unfold assignedType
  split
  · exact affords_initialiser heval _
  · cases place with
    | member owner key =>
        exact (Affords.of_still (still_readMember _ _ _ _)).bind fun _ =>
          (heval.expression _).bind fun _ => .of_still (still_applyBinary _ _ _ _ _)
    | name =>
        exact (heval.expression _).bind fun _ => (heval.expression _).bind fun _ =>
          .of_still (still_applyBinary _ _ _ _ _)

theorem affords_assignment (heval : eval.Affords context other) (node : NodeId) (op : AssignOp)
    (target value : NodeId) : Affords context store frame nodes
      (assignment eval frame node op target value)
      (assignment other frame node op target value) := by
  refine (affords_targetPlace heval _).bind fun place =>
    (affords_assignedType heval _ _ _ _ place).bind fun ty => .read_bind ?_
  extract_lets stores
  have hstored : Affords context store frame nodes (stores ()) (stores ()) :=
    (affords_store _ _ _ _).bind fun _ => .pure _
  split
  · refine (Affords.types _).bind fun _ => ?_
    split
    · exact (Affords.of_still (.report _ _ _)).bind fun _ => hstored
    · exact hstored
  · exact hstored

theorem affords_call (hoists : context.Hoists) (heval : eval.Affords context other)
    (node callee : NodeId) (arguments : List NodeId) : Affords context store frame nodes
      (call eval frame node callee arguments) (call other frame node callee arguments) := by
  have hevaluated : Affords context store frame [] (arguments.mapM (eval.expression frame))
      (arguments.mapM (other.expression frame)) := .mapM fun _ => heval.expression _
  refine .tree_bind ?_
  split
  · exact (heval.expression _).bind fun _ => (affords_memberKey heval _).bind fun _ =>
      (Affords.of_still (still_readMember _ _ _ _)).bind fun _ => hevaluated.bind fun _ =>
        affords_invoke hoists heval _ _ _ _
  · exact (Affords.types _).bind fun _ => (heval.expression _).bind fun _ =>
      hevaluated.bind fun _ => affords_invoke hoists heval _ _ _ _

theorem affords_newObject (hoists : context.Hoists) (heval : eval.Affords context other)
    (node callee : NodeId) (arguments : List NodeId) : Affords context store frame nodes
      (newObject eval frame node callee arguments)
      (newObject other frame node callee arguments) :=
  (heval.expression _).bind fun _ => (Affords.mapM fun _ => heval.expression _).bind
    fun _ => affords_construct hoists heval _ _ _

/-- No expression writes constants in the frames of the call it is followed in. -/
theorem affords_expressionRule (hoists : context.Hoists) (heval : eval.Affords context other)
    (node : NodeId) : Affords context store frame nodes (expressionRule eval frame node)
      (expressionRule other frame node) := by
  refine .tree_bind ?_
  split
  · exact .types _
  · exact affords_readName _ _
  · exact affords_readName _ _
  · exact (Affords.mapM fun _ => heval.expression _).bind fun _ => .joins _
  · exact (affords_objectMembers heval _ _ _).bind fun _ => .types _
  · exact .of_still (still_closure _ _)
  · exact (heval.expression _).bind fun _ => .of_still (still_applyUnary _ _ _ _)
  · exact (heval.expression _).bind fun _ => (heval.expression _).bind fun _ =>
      .of_still (still_applyBinary _ _ _ _ _)
  · exact affords_logical heval _ _ _
  · exact affords_assignment heval _ _ _ _
  · exact affords_conditional heval _ _ _
  · exact affords_call hoists heval _ _ _
  · exact affords_newObject hoists heval _ _ _
  · exact (heval.expression _).bind fun _ => (affords_memberKey heval _).bind fun _ =>
      .of_still (still_readMember _ _ _ _)
  · suffices hnone : Affords context store frame [] _ _ from hnone.mono fun _ => Nat.zero_le _
    exact (Affords.types _).bind fun _ => .foldlM (fun _ _ => heval.expression _) _
  · exact .of_still (.unsupported _)

/-! ## Statements -/

/-- What parts of a node declare is among what the node declares. -/
theorem affords_of_parts (hoists : context.Hoists) {α : Type} {node : Nat}
    (hlt : node < context.tree.size) {first second : CheckM α}
    (h : Affords context store frame nodes first second)
    (hsub : nodes.Sublist (context.tree.children node)) :
    Affords context store frame [node] first second :=
  h.mono fun symbol => Nat.le_trans (context.share_le_of_sublist hsub symbol)
    (hoists.share_children_le hlt symbol)

theorem affords_narrowNames (current : FrameId) (test : NodeId)
    (found : List (SymbolId × Kind)) : Affords context store frame nodes
      (narrowNames current test found) (narrowNames current test found) := by
  induction found with
  | nil => exact .pure ()
  | cons guard rest ih =>
      obtain ⟨symbol, kind⟩ := guard
      refine .tree_bind (.graph_bind ((Affords.readName _ _ _ _ _).bind fun _ => ?_))
      extract_lets narrows
      have hnarrowed : ∀ ty, Affords context store frame nodes (narrows ty) (narrows ty) :=
        fun _ => (Affords.joins _).bind fun _ => (Affords.bindName _ _ _).bind fun _ => ih
      split
      · exact hnarrowed _
      · exact (Affords.types _).bind hnarrowed

/-- The branch of a condition that holds is followed in the frame or in a guard over it. -/
theorem affords_branch (hoists : context.Hoists) (heval : eval.Affords context other)
    (test : NodeId) (found : List (SymbolId × Kind)) {consequent : Nat}
    (h : context.Stands store frame consequent) : Affords context store frame [consequent]
      (branchFrame frame test found >>= fun branch => eval.statement branch consequent)
      (branchFrame frame test found >>= fun branch => other.statement branch consequent) := by
  unfold branchFrame
  split
  · exact heval.statement h.follows
  · rw [bind_assoc, bind_assoc]
    refine .enterGuard h.frame_lt (hoists.share_le_limit h.node_lt) fun later guard hlt hscope => ?_
    have hstands := h.stands
    rw [← hscope] at hstands
    rw [bind_assoc, bind_assoc]
    exact (affords_narrowNames _ _ _).bind fun _ => heval.statement ⟨hlt, h.node_lt, .inl hstands⟩

theorem affords_ifStatement (hoists : context.Hoists) (heval : eval.Affords context other)
    {test consequent : NodeId} {alternate : Option NodeId}
    (h : context.Stands store frame consequent)
    (h' : ∀ node, alternate = some node → context.Stands store frame node) :
    Affords context store frame ([consequent] ++ alternate.toList)
      (ifStatement eval frame test consequent alternate)
      (ifStatement other frame test consequent alternate) := by
  refine .tree_bind (.graph_bind ((heval.expression _).bind fun testType =>
    (Affords.of_still (still_outcome? testType)).bind fun outcome => ?_))
  have hrest : Affords context store frame alternate.toList
      (if outcome ≠ some true then alternate.forM (eval.statement frame) else pure ())
      (if outcome ≠ some true then alternate.forM (other.statement frame) else pure ()) :=
    .ite (.optionForM fun node hsome => heval.statement (h' node hsome).follows) (.pure ())
  refine .ite ?_ (hrest.mono (context.share_le_of_sublist (List.sublist_append_right _ _)))
  let found := guards context.tree context.graph (context.tree.size + 1) test
  have hboth := (affords_branch hoists heval test found h).append fun _ => hrest
  rw [bind_assoc, bind_assoc] at hboth
  exact hboth

theorem affords_declareFunction (hoists : context.Hoists) {node : Nat}
    (h : context.Stands store frame node) (houtside : (context.tree.kind node).declaresOutside) :
    Affords context store frame [node] (declareFunction frame node)
      (declareFunction frame node) := by
  refine (Affords.of_still (still_closure _ _)).bind fun function => .graph_bind ?_
  split
  · exact affords_writeName hoists h houtside ‹_› _
  · exact .pure ()

theorem affords_declarator (hoists : context.Hoists) (heval : eval.Affords context other)
    (kind : DeclarationKind) {node : Nat} (h : context.Stands store frame node) :
    Affords context store frame [node] (declarator eval frame kind node)
      (declarator other frame kind node) := by
  refine .tree_bind ?_
  cases hdeclares : context.tree.kind node with
  | declarator name init =>
      have houtside : (context.tree.kind node).declaresOutside := by
        rw [hdeclares]
        rfl
      refine .graph_bind ?_
      split
      · exact .pure ()
      · exact (affords_initialiser heval _).bind fun _ => affords_writeName hoists h houtside ‹_› _
      · exact .pure ()
      · exact (Affords.types _).bind fun _ => affords_writeName hoists h houtside ‹_› _
  | _ => exact .of_still (.missingChild _ _)

/-- The functions that a list of statements declares come first. -/
theorem affords_body (hoists : context.Hoists) (heval : eval.Affords context other)
    {statements : List NodeId} (h : ∀ node ∈ statements, context.Stands store frame node) :
    Affords context store frame statements (body eval frame statements)
      (body other frame statements) := by
  let declares := isDeclaration context.tree
  have hfunctions : Affords context store frame (statements.filter declares)
      ((statements.filter declares).forM (declareFunction frame))
      ((statements.filter declares).forM (declareFunction frame)) := by
    refine .forM fun node hmem => ?_
    obtain ⟨hmem, hdeclared⟩ := List.mem_filter.mp hmem
    obtain ⟨shape, hkind, hsort⟩ := kind_of_isDeclaration hdeclared
    exact affords_declareFunction hoists (h node hmem)
      (by simpa [hkind, NodeKind.declaresOutside] using hsort)
  have hothers : Affords context store frame (statements.filter (!declares ·))
      ((statements.filter (!declares ·)).forM (eval.statement frame))
      ((statements.filter (!declares ·)).forM (other.statement frame)) :=
    .forM fun node hmem => heval.statement (h node (List.mem_filter.mp hmem).1).follows
  refine .tree_bind ((hfunctions.append fun _ => hothers).mono fun symbol => ?_)
  exact Nat.le_of_eq (context.share_perm (List.filter_append_perm _ _) symbol)

theorem affords_isKnownFalse (heval : eval.Affords context other) (test : NodeId) :
    Affords context store frame nodes (isKnownFalse eval frame test)
      (isKnownFalse other frame test) :=
  (heval.expression _).bind fun ty => (Affords.of_still (still_outcome? ty)).bind
    fun _ => .pure _

theorem affords_returnStatement (heval : eval.Affords context other) (node : NodeId)
    (argument : Option NodeId) : Affords context store frame nodes
      (returnStatement eval frame node argument)
      (returnStatement other frame node argument) := by
  have hreturned : ∀ ty, Affords context store frame nodes
      (do if !(← frames (FrameM.addReturned frame ty)) then report frame node .unexpectedReturn)
      (do if !(← frames (FrameM.addReturned frame ty)) then
        report frame node .unexpectedReturn) :=
    fun _ => (Affords.addReturned _ _).bind fun _ => .ite (.of_still (.report _ _ _)) (.pure ())
  cases argument with
  | some argument => exact (heval.expression _).bind hreturned
  | none => exact (Affords.types _).bind hreturned

theorem affords_forStatement (heval : eval.Affords context other)
    {init test update : Option NodeId} {body : NodeId}
    (h : ∀ node, init = some node → context.Stands store frame node)
    (h' : context.Stands store frame body) :
    Affords context store frame (init.toList ++ [body])
      (forStatement eval frame init test update body)
      (forStatement other frame init test update body) := by
  unfold forStatement
  extract_lets round tested otherRound otherTested
  have hrounds : ∀ skipped, Affords context store frame [body] (round skipped)
      (otherRound skipped) := by
    refine fun skipped => .ite ((heval.statement h'.follows).append fun _ => ?_) (.pure ())
    cases update with
    | none => exact .pure ()
    | some update => exact (heval.expression _).bind fun _ => .pure ()
  have htests : Affords context store frame [body] (tested ()) (otherTested ()) := by
    cases test with
    | none => exact hrounds false
    | some test => exact (affords_isKnownFalse heval _).bind hrounds
  cases init with
  | none => exact htests
  | some init =>
      refine .tree_bind ?_
      cases context.tree.kind init with
      | declaration kind declarators =>
          exact (heval.statement (h init rfl).follows).append fun _ => htests
      | _ => exact (heval.expression _).append fun _ => htests

theorem affords_catchClause (heval : eval.Affords context other) (param : Option NodeId)
    {body : NodeId} (h : context.Stands store frame body) : Affords context store frame [body]
      (catchClause eval frame param body) (catchClause other frame param body) := by
  refine .graph_bind ?_
  split
  · exact (Affords.types _).bind fun _ => (Affords.bindName _ _ _).bind fun _ =>
      heval.statement h.follows
  · exact heval.statement h.follows

theorem affords_statementInside (hoists : context.Hoists) (heval : eval.Affords context other)
    {node : Nat} (h : context.Scoped store frame node) : Affords context store frame [node]
      (statementInside eval frame node) (statementInside other frame node) := by
  have hstands : ∀ part ∈ (context.tree.kind node).children, context.Stands store frame part :=
    fun part hmem => h.stands_child hoists hmem
  have hamong : ∀ {parts : List NodeId} {first second : CheckM Unit},
      Affords context store frame parts first second →
        parts.Sublist (context.tree.kind node).children →
          Affords context store frame [node] first second :=
    fun hafforded hsub => affords_of_parts hoists h.node_lt hafforded hsub
  refine .tree_bind ?_
  generalize context.tree.kind node = kind at hstands hamong ⊢
  cases kind with
  | program statements | block statements =>
      exact hamong (affords_body hoists heval hstands) (.refl _)
  | empty | breakStmt | continueStmt => exact .pure ()
  | expressionStmt expr => exact (heval.expression _).bind fun _ => .pure ()
  | declaration kind declarators =>
      refine hamong (.forM fun declarator hmem => ?_) (.refl _)
      exact affords_declarator hoists heval kind (hstands declarator hmem)
  | ifStmt test consequent alternate =>
      refine hamong (affords_ifStatement hoists heval (hstands consequent ?_) fun node hsome => ?_)
        (List.sublist_cons_self _ _)
      · simp [NodeKind.children]
      · exact hstands node (by simp [NodeKind.children, hsome])
  | returnStmt argument => exact affords_returnStatement heval _ _
  | whileStmt test body =>
      have hinside := hstands body (by simp [NodeKind.children])
      refine hamong (Affords.bind (affords_isKnownFalse heval _) fun _ =>
        .ite (heval.statement hinside.follows) (.pure ())) (List.sublist_cons_self _ _)
  | forStmt init test update body =>
      refine hamong (affords_forStatement heval (fun node hsome => ?_) (hstands body ?_)) ?_
      · exact hstands node (by simp [NodeKind.children, hsome])
      · simp [NodeKind.children]
      · simp [NodeKind.children]
  | tryStmt body handler finalizer =>
      have handled : Affords context store frame (handler.toList ++ finalizer.toList)
          (handler.forM (eval.statement frame) >>= fun _ =>
            finalizer.forM (eval.statement frame))
          (handler.forM (other.statement frame) >>= fun _ =>
            finalizer.forM (other.statement frame)) := by
        refine (Affords.optionForM fun node hsome => ?_).append fun _ =>
          .optionForM fun node hsome => ?_
        · exact heval.statement (hstands node (by simp [NodeKind.children, hsome])).follows
        · exact heval.statement (hstands node (by simp [NodeKind.children, hsome])).follows
      refine hamong ((heval.statement (hstands body ?_).follows).append fun _ => handled) ?_
      · simp [NodeKind.children]
      · simp [NodeKind.children]
  | catchClause param body =>
      have hinside := hstands body (by simp [NodeKind.children])
      exact hamong (affords_catchClause heval param hinside) (List.sublist_append_right _ _)
  | throwStmt argument => exact (heval.expression _).bind fun _ => .pure ()
  | declarator | parameter | property => exact .of_still (.unsupported _)
  | _ => exact (heval.expression _).bind fun _ => .pure ()

end Check

end ScriptCheck
