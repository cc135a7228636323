import ScriptCheck.Check.Program
import ScriptCheck.Proofs.Check.Still
import ScriptCheck.Proofs.Frame.Written

/-!
# Following a script only adds frames

Whatever is followed, and from whatever state, frames are entered and names are bound, but no frame
is lost and none changes its links.  So the calls under way in a frame are the same ones throughout.
-/

namespace ScriptCheck

open FrameStore

/-! ## Computations on frames -/

namespace FrameM

variable {α β : Type}

/-- A computation leaves a later store, also where it ends in a fault. -/
def Extending (computation : FrameM α) : Prop :=
  ∀ store : FrameStore, store.Extends (computation.run store).2

namespace Extending

theorem of_same {computation : FrameM α} (hsame : ∀ store, (computation.run store).2 = store) :
    Extending computation :=
  fun store => (hsame store).symm ▸ .refl store

theorem pure (result : α) : Extending (Pure.pure result) := of_same fun _ => rfl

theorem throw (fault : Fault) : Extending (MonadExcept.throw fault : FrameM α) :=
  of_same fun _ => rfl

theorem bind {computation : FrameM α} {f : α → FrameM β} (h : Extending computation)
    (hrest : ∀ result, Extending (f result)) : Extending (computation >>= f) := by
  intro store
  have hfirst := h store
  change store.Extends (ExceptT.bindCont f (computation store).1 (computation store).2).2
  change store.Extends (computation store).2 at hfirst
  generalize computation store = ended at hfirst ⊢
  obtain ⟨fault | result, next⟩ := ended
  · exact hfirst
  · exact hfirst.trans (hrest result next)

theorem get_bind {f : FrameStore → FrameM β} (h : ∀ store, Extending (f store)) :
    Extending (get >>= f) :=
  bind (of_same fun _ => rfl) h

theorem frameOf (id : FrameId) : Extending (FrameM.frameOf id) := of_same fun _ => rfl

theorem enter (frame : Frame) : Extending (FrameM.enter frame) :=
  fun store => extends_add store frame

theorem update (id : FrameId) {f : Frame → Frame}
    (houtline : ∀ frame, (f frame).outline = frame.outline)
    (holds : ∀ frame symbol, Frame.holds frame symbol → (f frame).holds symbol) :
    Extending (FrameM.update id f) :=
  fun store => extends_modify store id houtline holds

theorem bindName (id : FrameId) (symbol : SymbolId) (ty : Ty) :
    Extending (FrameM.bind id symbol ty) :=
  update id (fun _ => rfl) fun _ _ => holds_set _

theorem enterChild (graph : ScopeGraph) (current : FrameId) (node : NodeId) :
    Extending (FrameM.enterChild graph current node) := by
  refine (frameOf current).bind fun frame => ?_
  split
  · exact .pure _
  · exact .enter _

theorem enterGuard (current : FrameId) : Extending (FrameM.enterGuard current) :=
  (frameOf current).bind fun _ => .enter _

theorem enterCallee (tree : Tree) (graph : ScopeGraph) (current : FrameId) (site callee : NodeId)
    (origin : FrameId) : Extending (FrameM.enterCallee tree graph current site callee origin) := by
  intro store
  rcases run_enterCallee tree graph current site callee origin store with ⟨fault, hrun⟩ | ⟨-, hrun⟩
  · rw [hrun]
    exact .refl store
  · rw [hrun]
    exact extends_add store _

theorem readName (tree : Tree) (graph : ScopeGraph) (current : FrameId) (place : NodeId)
    (symbol : SymbolId) : Extending (FrameM.readName tree graph current place symbol) := by
  refine .get_bind fun store => ?_
  split
  · exact (frameOf _).bind fun _ => .pure _
  · exact .throw _

theorem writeName (tree : Tree) (graph : ScopeGraph) (current : FrameId) (place : NodeId)
    (symbol : SymbolId) (ty : Ty) :
    Extending (FrameM.writeName tree graph current place symbol ty) := by
  refine .get_bind fun store => bind (fun before => ?_) fun found => ?_
  · obtain ⟨found, next, hrun, hgrows, -⟩ :=
      run_writeAlong (graph.symbol symbol).scope symbol ty (store.lexicalChain current) before
    rwa [hrun]
  · split
    · exact .pure ()
    · exact .throw _

theorem detectRecursion (current : FrameId) (callee : NodeId) :
    Extending (FrameM.detectRecursion current callee) := by
  refine .get_bind fun store => ?_
  dsimp only
  split
  · cases ((store.callStack current).filter fun id => (store.frame id).isCall).head? with
    | none => exact .pure true
    | some innermost =>
        have hmarked : Extending (FrameM.update innermost ({ · with recursive := true })) :=
          update innermost (fun _ => rfl) fun _ _ held => held
        exact hmarked.bind fun _ => .pure true
  · exact .pure false

theorem addReturned (current : FrameId) (ty : Ty) :
    Extending (FrameM.addReturned current ty) := by
  refine .get_bind fun store => ?_
  split
  · rename_i call _
    have hadded : Extending (FrameM.update call fun frame =>
        { frame with returned := frame.returned ++ [ty] }) :=
      update call (fun _ => rfl) fun _ _ held => held
    exact hadded.bind fun _ => .pure true
  · exact .pure false

end Extending

end FrameM

/-! ## Steps of a check -/

/-- The frames of one state are there in the other, with the names and links that they had. -/
def CheckState.Grows (before after : CheckState) : Prop := before.frames.Extends after.frames

instance : IsPreorder CheckState CheckState.Grows where
  refl state := .refl state.frames
  trans _ _ _ := .trans

namespace CheckM.Follows

variable {α : Type}

theorem of_still {computation : CheckM α} (hstill : Still computation) :
    Follows CheckState.Grows computation := by
  intro context state result next hended
  have hsame := hstill context state result next hended
  unfold CheckState.Grows
  rw [hsame]
  exact .refl state.frames

theorem types (computation : TypeM α) : Follows CheckState.Grows (CheckM.types computation) :=
  of_still (.types computation)

theorem joins (computation : Nat → JoinM α) : Follows CheckState.Grows (CheckM.joins computation) :=
  of_still (.joins computation)

theorem report (frame : FrameId) (node : NodeId) (problem : Problem) :
    Follows CheckState.Grows (CheckM.report frame node problem) :=
  of_still (.report frame node problem)

theorem frames {computation : FrameM α} (h : computation.Extending) :
    Follows CheckState.Grows (CheckM.frames computation) := by
  intro context state result next hended
  have hgrows := h state.frames
  rwa [(run_of_frames hended).1] at hgrows

end CheckM.Follows

structure Evaluator.Grows (eval : Evaluator) : Prop where
  expression : ∀ frame node, CheckM.Follows CheckState.Grows (eval.expression frame node)
  statement : ∀ frame node, CheckM.Follows CheckState.Grows (eval.statement frame node)

/-! ## The rules -/

namespace Check

open CheckM
open FrameM (Extending)

variable {eval : Evaluator}

theorem grows_readName (frame : FrameId) (node : NodeId) :
    Follows CheckState.Grows (readName frame node) := by
  refine .tree_bind fun _ => .graph_bind fun _ => ?_
  split
  · refine (Follows.frames (.readName _ _ _ _ _)).bind fun _ => ?_
    split
    · exact .pure _
    · exact .types _
  · split <;> exact .types _

theorem grows_writeName (frame : FrameId) (node : NodeId) (symbol : SymbolId) (ty : Ty) :
    Follows CheckState.Grows (writeName frame node symbol ty) :=
  .tree_bind fun _ => .graph_bind fun _ => .frames (.writeName _ _ _ _ _ _)

theorem grows_store (frame : FrameId) (node target : NodeId) (place : Place) (ty : Ty) :
    Follows CheckState.Grows (store frame node target place ty) := by
  cases place with
  | member owner key => exact .of_still (still_writeMember _ _ _ _ _)
  | name =>
      refine .graph_bind fun _ => ?_
      split
      · exact .ite (grows_writeName _ _ _ _) (.pure ())
      · exact .pure ()

/-! ### Calls -/

theorem grows_bindReceiver (callee : FrameId) (shape : FunctionShape) (scope : ScopeId)
    (receiver : Ty) (arguments : List Ty) :
    Follows CheckState.Grows (bindReceiver callee shape scope receiver arguments) := by
  unfold bindReceiver
  split
  · exact .pure ()
  · refine .graph_bind fun _ => ?_
    extract_lets rest
    have hbound : Follows CheckState.Grows (rest ()) := by
      dsimp only [rest]
      split
      · exact (Follows.joins _).bind fun _ => .frames (.bindName _ _ _)
      · exact .pure ()
    split
    · exact (Follows.frames (.bindName _ _ _)).bind fun _ => hbound
    · exact hbound

theorem grows_bindOwnName (callee : FrameId) (shape : FunctionShape) (scope : ScopeId)
    (function : Ty) : Follows CheckState.Grows (bindOwnName callee shape scope function) := by
  refine .graph_bind fun _ => .ite ?_ (.pure ())
  split
  · exact .ite (.frames (.bindName _ _ _)) (.pure ())
  · exact .pure ()

theorem grows_bindParameters (callee : FrameId) (parameters : List NodeId) (arguments : List Ty) :
    Follows CheckState.Grows (bindParameters callee parameters arguments) := by
  induction parameters generalizing arguments with
  | nil => exact .pure ()
  | cons parameter rest ih =>
      refine .graph_bind fun _ => ?_
      split
      · split
        · exact (Follows.pure _).bind fun _ => (Follows.frames (.bindName _ _ _)).bind fun _ => ih _
        · exact (Follows.types _).bind fun _ =>
            (Follows.frames (.bindName _ _ _)).bind fun _ => ih _
      · exact ih _

theorem grows_runBody (hgrows : eval.Grows) (callee : FrameId) (shape : FunctionShape) :
    Follows CheckState.Grows (runBody eval callee shape) := by
  refine .ite (hgrows.expression _ _) ?_
  exact (hgrows.statement _ _).bind fun _ => (Follows.frames (.frameOf _)).bind fun _ =>
    .of_still (still_joinOr _ _)

theorem grows_enterFunction (hgrows : eval.Grows) (frame : FrameId) (site : NodeId) (function : Ty)
    (node : NodeId) (origin : FrameId) (receiver : Ty) (arguments : List Ty) :
    Follows CheckState.Grows
      (enterFunction eval frame site function node origin receiver arguments) := by
  refine (Follows.frames (.detectRecursion _ _)).bind fun _ => .ite (.types _)
    (.tree_bind fun _ => .graph_bind fun _ => ?_)
  split
  · exact .of_still (.missingChild _ _)
  · refine (Follows.frames (.enterCallee _ _ _ _ _ _)).bind fun callee => ?_
    refine (grows_bindReceiver _ _ _ _ _).bind fun _ => (grows_bindOwnName _ _ _ _).bind
      fun _ => (grows_bindParameters _ _ _).bind fun _ => (grows_runBody hgrows _ _).bind
        fun _ => (Follows.frames (.frameOf _)).bind fun _ => ?_
    exact .ite (.joins _) (.pure _)

theorem grows_splitArguments {enter : List Ty → CheckM Ty}
    (h : ∀ arguments, Follows CheckState.Grows (enter arguments)) (arguments chosen : List Ty) :
    Follows CheckState.Grows (splitArguments enter chosen arguments) := by
  induction arguments generalizing chosen with
  | nil => exact h _
  | cons argument rest ih =>
      cases argument with
      | plain id => exact ih _
      | union variants =>
          exact (Follows.mapM fun id => ih _).bind fun results => .of_still (still_joinOr results _)

theorem grows_invokePlain (hgrows : eval.Grows) (frame : FrameId) (site : NodeId) (receiver : Ty)
    (arguments : List Ty) (id : TypeId) :
    Follows CheckState.Grows (invokePlain eval frame site receiver arguments id) := by
  refine (Follows.types _).bind fun callable => ?_
  split
  · exact grows_splitArguments (fun _ => grows_enterFunction hgrows _ _ _ _ _ _ _) _ _
  · exact .types _
  · refine (Follows.types _).bind fun _ => ?_
    extract_lets rest
    split
    · exact (Follows.types _).bind fun _ => (Follows.report _ _ _).bind fun _ => .types _
    · exact .types _

theorem grows_invoke (hgrows : eval.Grows) (frame : FrameId) (site : NodeId)
    (function receiver : Ty) (arguments : List Ty) :
    Follows CheckState.Grows (invoke eval frame site function receiver arguments) :=
  (Follows.mapM (grows_invokePlain hgrows frame site receiver arguments)).bind
    fun results => .of_still (still_joinOr results _)

theorem grows_construct (hgrows : eval.Grows) (frame : FrameId) (site : NodeId) (function : Ty)
    (arguments : List Ty) :
    Follows CheckState.Grows (construct eval frame site function arguments) := by
  refine (Follows.of_still (still_constructor? function)).bind fun found => ?_
  split
  · exact (Follows.types _).bind fun _ => (grows_invoke hgrows _ _ _ _ _).bind fun _ => .types _
  · refine (Follows.of_still (still_instantiate _)).bind fun _ =>
      (grows_invoke hgrows _ _ _ _ _).bind fun result =>
        (Follows.of_still (still_isReference result)).bind fun _ => .ite (.pure _) (.pure _)

/-! ### Expressions -/

theorem grows_objectMembers (hgrows : eval.Grows) (frame : FrameId) (node : NodeId)
    (properties : List NodeId) (members : List (String × Ty)) :
    Follows CheckState.Grows (objectMembers eval frame node properties members) := by
  induction properties generalizing members with
  | nil => exact .pure _
  | cons property rest ih =>
      refine .tree_bind fun _ => ?_
      split
      · exact (hgrows.expression _ _).bind fun _ => ih _
      · exact .of_still (.missingChild _ _)

theorem grows_memberKey (hgrows : eval.Grows) (frame : FrameId) (key : MemberKey) :
    Follows CheckState.Grows (memberKey eval frame key) := by
  cases key with
  | named name => exact .types (Ty.ofValue (.string name))
  | computed key => exact hgrows.expression _ _

theorem grows_logical (hgrows : eval.Grows) (frame : FrameId) (op : LogicalOp)
    (left right : NodeId) : Follows CheckState.Grows (logical eval frame op left right) := by
  refine (hgrows.expression _ _).bind fun leftType =>
    (Follows.of_still (still_outcome? leftType)).bind fun _ => ?_
  split
  · exact .pure _
  · exact .pure _
  · exact hgrows.expression _ _
  · exact (hgrows.expression _ _).bind fun _ => .joins _

theorem grows_conditional (hgrows : eval.Grows) (frame : FrameId)
    (test consequent alternate : NodeId) :
    Follows CheckState.Grows (conditional eval frame test consequent alternate) := by
  refine (hgrows.expression _ _).bind fun testType =>
    (Follows.of_still (still_outcome? testType)).bind fun _ => ?_
  split
  · exact hgrows.expression _ _
  · exact hgrows.expression _ _
  · exact (hgrows.expression _ _).bind fun _ => (hgrows.expression _ _).bind fun _ => .joins _

theorem grows_initialiser (hgrows : eval.Grows) (frame : FrameId) (node : NodeId) :
    Follows CheckState.Grows (initialiser eval frame node) := by
  refine (hgrows.expression _ _).bind fun ty => .read_bind fun _ => ?_
  refine (Follows.types _).bind fun _ => .ite (.pure _) ?_
  refine (Follows.of_still (.tryFold _)).bind fun _ => ?_
  split
  · exact .ite (.types _) (.pure _)
  · exact .pure _

theorem grows_targetPlace (hgrows : eval.Grows) (frame : FrameId) (target : NodeId) :
    Follows CheckState.Grows (targetPlace eval frame target) := by
  refine .tree_bind fun _ => ?_
  split
  · exact .pure _
  · exact (hgrows.expression _ _).bind fun _ => (grows_memberKey hgrows _ _).bind fun _ => .pure _
  · exact .of_still (.fail _ _)

theorem grows_assignedType (hgrows : eval.Grows) (frame : FrameId) (node : NodeId) (op : AssignOp)
    (target value : NodeId) (place : Place) :
    Follows CheckState.Grows (assignedType eval frame node op target value place) := by
  unfold assignedType
  split
  · exact grows_initialiser hgrows _ _
  · cases place with
    | member owner key =>
        exact (Follows.of_still (still_readMember _ _ _ _)).bind fun _ =>
          (hgrows.expression _ _).bind fun _ => .of_still (still_applyBinary _ _ _ _ _)
    | name =>
        exact (hgrows.expression _ _).bind fun _ => (hgrows.expression _ _).bind fun _ =>
          .of_still (still_applyBinary _ _ _ _ _)

theorem grows_assignment (hgrows : eval.Grows) (frame : FrameId) (node : NodeId) (op : AssignOp)
    (target value : NodeId) :
    Follows CheckState.Grows (assignment eval frame node op target value) := by
  refine (grows_targetPlace hgrows _ _).bind fun place =>
    (grows_assignedType hgrows _ _ _ _ _ place).bind fun ty => .read_bind fun _ => ?_
  extract_lets stores
  have hstored : Follows CheckState.Grows (stores ()) :=
    (grows_store _ _ _ _ _).bind fun _ => .pure _
  split
  · refine (Follows.types _).bind fun _ => ?_
    split
    · exact (Follows.report _ _ _).bind fun _ => hstored
    · exact hstored
  · exact hstored

theorem grows_call (hgrows : eval.Grows) (frame : FrameId) (node callee : NodeId)
    (arguments : List NodeId) :
    Follows CheckState.Grows (call eval frame node callee arguments) := by
  have hevaluated : Follows CheckState.Grows (arguments.mapM (eval.expression frame)) :=
    .mapM fun _ => hgrows.expression _ _
  refine .tree_bind fun _ => ?_
  split
  · exact (hgrows.expression _ _).bind fun _ => (grows_memberKey hgrows _ _).bind fun _ =>
      (Follows.of_still (still_readMember _ _ _ _)).bind fun _ => hevaluated.bind fun _ =>
        grows_invoke hgrows _ _ _ _ _
  · exact (Follows.types _).bind fun _ => (hgrows.expression _ _).bind fun _ =>
      hevaluated.bind fun _ => grows_invoke hgrows _ _ _ _ _

theorem grows_newObject (hgrows : eval.Grows) (frame : FrameId) (node callee : NodeId)
    (arguments : List NodeId) :
    Follows CheckState.Grows (newObject eval frame node callee arguments) :=
  (hgrows.expression _ _).bind fun _ => (Follows.mapM fun _ => hgrows.expression _ _).bind
    fun _ => grows_construct hgrows _ _ _ _

theorem grows_expressionRule (hgrows : eval.Grows) (frame : FrameId) (node : NodeId) :
    Follows CheckState.Grows (expressionRule eval frame node) := by
  refine .tree_bind fun _ => ?_
  split
  · exact .types _
  · exact grows_readName _ _
  · exact grows_readName _ _
  · exact (Follows.mapM fun _ => hgrows.expression _ _).bind fun _ => .joins _
  · exact (grows_objectMembers hgrows _ _ _ _).bind fun _ => .types _
  · exact .of_still (still_closure _ _)
  · exact (hgrows.expression _ _).bind fun _ => .of_still (still_applyUnary _ _ _ _)
  · exact (hgrows.expression _ _).bind fun _ => (hgrows.expression _ _).bind fun _ =>
      .of_still (still_applyBinary _ _ _ _ _)
  · exact grows_logical hgrows _ _ _ _
  · exact grows_assignment hgrows _ _ _ _ _
  · exact grows_conditional hgrows _ _ _ _
  · exact grows_call hgrows _ _ _ _
  · exact grows_newObject hgrows _ _ _ _
  · exact (hgrows.expression _ _).bind fun _ => (grows_memberKey hgrows _ _).bind fun _ =>
      .of_still (still_readMember _ _ _ _)
  · exact (Follows.types _).bind fun _ => .foldlM (fun _ _ => hgrows.expression _ _) _
  · exact .of_still (.unsupported _)

/-! ### Statements -/

theorem grows_narrowNames (frame : FrameId) (test : NodeId) (found : List (SymbolId × Kind)) :
    Follows CheckState.Grows (narrowNames frame test found) := by
  induction found with
  | nil => exact .pure ()
  | cons guard rest ih =>
      obtain ⟨symbol, kind⟩ := guard
      refine .tree_bind fun _ => .graph_bind fun _ =>
        (Follows.frames (.readName _ _ _ _ _)).bind fun _ => ?_
      extract_lets narrows
      have hnarrowed : ∀ ty, Follows CheckState.Grows (narrows ty) := fun _ =>
        (Follows.joins _).bind fun _ => (Follows.frames (.bindName _ _ _)).bind fun _ => ih
      split
      · exact hnarrowed _
      · exact (Follows.types _).bind hnarrowed

theorem grows_branchFrame (frame : FrameId) (test : NodeId) (found : List (SymbolId × Kind)) :
    Follows CheckState.Grows (branchFrame frame test found) := by
  refine .ite (.pure _) ?_
  exact (Follows.frames (.enterGuard _)).bind fun _ => (grows_narrowNames _ _ _).bind
    fun _ => .pure _

theorem grows_ifStatement (hgrows : eval.Grows) (frame : FrameId) (test consequent : NodeId)
    (alternate : Option NodeId) :
    Follows CheckState.Grows (ifStatement eval frame test consequent alternate) := by
  refine .tree_bind fun _ => .graph_bind fun _ => (hgrows.expression _ _).bind fun testType =>
    (Follows.of_still (still_outcome? testType)).bind fun outcome => ?_
  have hrest : Follows CheckState.Grows
      (if outcome ≠ some true then alternate.forM (eval.statement frame) else pure ()) :=
    .ite (.optionForM fun _ => hgrows.statement _ _) (.pure ())
  exact .ite ((grows_branchFrame _ _ _).bind fun _ => (hgrows.statement _ _).bind fun _ => hrest)
    hrest

theorem grows_declareFunction (frame : FrameId) (node : NodeId) :
    Follows CheckState.Grows (declareFunction frame node) := by
  refine (Follows.of_still (still_closure _ _)).bind fun _ => .graph_bind fun _ => ?_
  split
  · exact grows_writeName _ _ _ _
  · exact .pure ()

theorem grows_declarator (hgrows : eval.Grows) (frame : FrameId) (kind : DeclarationKind)
    (node : NodeId) : Follows CheckState.Grows (declarator eval frame kind node) := by
  refine .tree_bind fun _ => ?_
  split
  · refine .graph_bind fun _ => ?_
    split
    · exact .pure ()
    · exact (grows_initialiser hgrows _ _).bind fun _ => grows_writeName _ _ _ _
    · exact .pure ()
    · exact (Follows.types _).bind fun _ => grows_writeName _ _ _ _
  · exact .of_still (.missingChild _ _)

theorem grows_body (hgrows : eval.Grows) (frame : FrameId) (statements : List NodeId) :
    Follows CheckState.Grows (body eval frame statements) :=
  .tree_bind fun _ => (Follows.forM fun _ => grows_declareFunction _ _).bind fun _ =>
    .forM fun _ => hgrows.statement _ _

theorem grows_isKnownFalse (hgrows : eval.Grows) (frame : FrameId) (test : NodeId) :
    Follows CheckState.Grows (isKnownFalse eval frame test) :=
  (hgrows.expression _ _).bind fun ty => (Follows.of_still (still_outcome? ty)).bind
    fun _ => .pure _

theorem grows_returnStatement (hgrows : eval.Grows) (frame : FrameId) (node : NodeId)
    (argument : Option NodeId) :
    Follows CheckState.Grows (returnStatement eval frame node argument) := by
  have hreturned : ∀ ty, Follows CheckState.Grows
      (do if !(← frames (FrameM.addReturned frame ty)) then report frame node .unexpectedReturn) :=
    fun _ => (Follows.frames (.addReturned _ _)).bind fun _ => .ite (.report _ _ _) (.pure ())
  cases argument with
  | some argument => exact (hgrows.expression _ _).bind hreturned
  | none => exact (Follows.types _).bind hreturned

theorem grows_forStatement (hgrows : eval.Grows) (frame : FrameId)
    (init test update : Option NodeId) (body : NodeId) :
    Follows CheckState.Grows (forStatement eval frame init test update body) := by
  unfold forStatement
  extract_lets round tested
  have hrounds : ∀ skipped, Follows CheckState.Grows (round skipped) := by
    refine fun skipped => .ite ((hgrows.statement _ _).bind fun _ => ?_) (.pure ())
    cases update with
    | none => exact .pure ()
    | some update => exact (hgrows.expression _ _).bind fun _ => .pure ()
  have htests : Follows CheckState.Grows (tested ()) := by
    cases test with
    | none => exact hrounds false
    | some test => exact (grows_isKnownFalse hgrows _ _).bind hrounds
  cases init with
  | none => exact htests
  | some init =>
      refine .tree_bind fun _ => ?_
      split
      · exact (hgrows.statement _ _).bind fun _ => htests
      · exact (hgrows.expression _ _).bind fun _ => htests

theorem grows_catchClause (hgrows : eval.Grows) (frame : FrameId) (param : Option NodeId)
    (body : NodeId) : Follows CheckState.Grows (catchClause eval frame param body) := by
  refine .graph_bind fun _ => ?_
  split
  · exact (Follows.types _).bind fun _ => (Follows.frames (.bindName _ _ _)).bind fun _ =>
      hgrows.statement _ _
  · exact hgrows.statement _ _

theorem grows_statementInside (hgrows : eval.Grows) (frame : FrameId) (node : NodeId) :
    Follows CheckState.Grows (statementInside eval frame node) := by
  refine .tree_bind fun tree => ?_
  cases tree.kind node with
  | program statements | block statements => exact grows_body hgrows _ _
  | empty | breakStmt | continueStmt => exact .pure ()
  | expressionStmt expr => exact (hgrows.expression _ _).bind fun _ => .pure ()
  | declaration kind declarators => exact .forM fun _ => grows_declarator hgrows _ _ _
  | ifStmt test consequent alternate => exact grows_ifStatement hgrows _ _ _ _
  | returnStmt argument => exact grows_returnStatement hgrows _ _ _
  | whileStmt test body =>
      exact Follows.bind (grows_isKnownFalse hgrows _ _) fun _ =>
        .ite (hgrows.statement _ _) (.pure ())
  | forStmt init test update body => exact grows_forStatement hgrows _ _ _ _ _
  | tryStmt body handler finalizer =>
      exact (hgrows.statement _ _).bind fun _ =>
        (Follows.optionForM fun _ => hgrows.statement _ _).bind
        fun _ => .optionForM fun _ => hgrows.statement _ _
  | catchClause param body => exact grows_catchClause hgrows _ _ _
  | throwStmt argument => exact (hgrows.expression _ _).bind fun _ => .pure ()
  | declarator | parameter | property => exact .of_still (.unsupported _)
  | _ => exact (hgrows.expression _ _).bind fun _ => .pure ()

theorem grows_statementRule (hgrows : eval.Grows) (frame : FrameId) (node : NodeId) :
    Follows CheckState.Grows (statementRule eval frame node) := by
  refine .tree_bind fun _ => ?_
  split
  · exact .ite (grows_declareFunction _ _) ((hgrows.expression _ _).bind fun _ => .pure ())
  · exact .graph_bind fun _ => (Follows.frames (.enterChild _ _ _)).bind fun _ =>
      grows_statementInside hgrows _ _

end Check

/-- Whatever a script is followed for, and to whatever depth, no frame is lost. -/
theorem Evaluator.grows_upTo (depth : Nat) : (Evaluator.upTo depth).Grows := by
  induction depth with
  | zero => exact ⟨fun _ _ => .throw _, fun _ _ => .throw _⟩
  | succ depth ih =>
      exact ⟨fun frame node => Check.grows_expressionRule ih frame node,
        fun frame node => Check.grows_statementRule ih frame node⟩

end ScriptCheck
