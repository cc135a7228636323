import ScriptCheck.Check.Program
import ScriptCheck.Proofs.Check.Follow
import ScriptCheck.Proofs.Scope.Reporting

/-!
# Reporting has no part in following a script

With everything reported, and by itself, a run goes through the same types, frames and folded
values as with any other choice, and ends in the same way.  So neither merging diagnostics nor
reporting that `undefined` is assigned steers a run, and what is shown with one choice can be
told from what is shown with another.
-/

namespace ScriptCheck

/-- The options with which everything is reported, and by itself. -/
def CheckOptions.telling (options : CheckOptions) : CheckOptions :=
  { options with mergeDiagnostics := false, reportUndefinedAssignment := true }

/-- The same check with everything reported, and by itself. -/
def CheckContext.telling (context : CheckContext) : CheckContext :=
  { context with options := context.options.telling }

/-- What a state is when only so much is shown. -/
def CheckState.shown (options : CheckOptions) (state : CheckState) : CheckState :=
  { state with diagnostics := options.collect state.diagnostics.toList }

namespace CheckM

variable {α β : Type} {context : CheckContext}

/-- A computation does the same whatever is shown of what it finds. -/
def Impartial (context : CheckContext) (computation : CheckM α) : Prop :=
  ∀ state : CheckState, state.diagnostics.merging = false →
    computation context (state.shown context.options) =
        (computation context.telling state).map (Prod.map id (CheckState.shown context.options)) ∧
      ∀ result next, computation context.telling state = .ok (result, next) →
        next.diagnostics.merging = false

namespace Impartial

theorem pure (result : α) : Impartial context (Pure.pure result : CheckM α) := by
  intro state h
  refine ⟨rfl, fun _ _ hrun => ?_⟩
  cases hrun
  exact h

theorem throw (halt : Halt) : Impartial context (MonadExcept.throw halt : CheckM α) :=
  fun _ _ => ⟨rfl, fun _ _ hrun => by cases hrun⟩

theorem bind {computation : CheckM α} {f : α → CheckM β} (h : Impartial context computation)
    (hf : ∀ result, Impartial context (f result)) : Impartial context (computation >>= f) := by
  intro state hstate
  obtain ⟨hfirst, hkeeps⟩ := h state hstate
  rw [bind_apply, bind_apply, hfirst]
  cases hrun : computation context.telling state with
  | error halt => exact ⟨rfl, fun _ _ hrest => by cases hrest⟩
  | ok pair => exact hf pair.1 pair.2 (hkeeps pair.1 pair.2 hrun)

theorem ite {c : Prop} [Decidable c] {first second : CheckM α}
    (hfirst : Impartial context first) (hsecond : Impartial context second) :
    Impartial context (if c then first else second) := by
  split
  · exact hfirst
  · exact hsecond

theorem tree_bind {f : Tree → CheckM β} (h : Impartial context (f context.tree)) :
    Impartial context (tree >>= f) := h

theorem graph_bind {f : ScopeGraph → CheckM β} (h : Impartial context (f context.graph)) :
    Impartial context (graph >>= f) := h

theorem forM {items : List α} {f : α → CheckM Unit} (hf : ∀ item, Impartial context (f item)) :
    Impartial context (items.forM f) := by
  induction items with
  | nil => exact .pure ()
  | cons item rest ih => exact (hf item).bind fun _ => ih

theorem optionForM {item : Option α} {f : α → CheckM Unit}
    (hf : ∀ item, Impartial context (f item)) :
    Impartial context (item.forM f) := by
  cases item with
  | none => exact .pure ()
  | some item => exact hf item

theorem mapM {items : List α} {f : α → CheckM β} (hf : ∀ item, Impartial context (f item)) :
    Impartial context (items.mapM f) := by
  induction items with
  | nil =>
      rw [List.mapM_nil]
      exact .pure []
  | cons item rest ih =>
      rw [List.mapM_cons]
      exact (hf item).bind fun _ => ih.bind fun _ => .pure _

theorem foldlM {items : List α} {f : β → α → CheckM β} (hf : ∀ b item, Impartial context (f b item))
    (start : β) : Impartial context (items.foldlM f start) := by
  induction items generalizing start with
  | nil => exact .pure start
  | cons item rest ih =>
      rw [List.foldlM_cons]
      exact (hf start item).bind ih

theorem types (computation : TypeM α) : Impartial context (CheckM.types computation) := by
  intro state h
  refine ⟨rfl, fun _ _ hrun => ?_⟩
  cases hrun
  exact h

theorem joins (computation : Nat → JoinM α) : Impartial context (CheckM.joins computation) := by
  intro state h
  unfold CheckM.joins CheckState.shown
  dsimp only [CheckContext.telling]
  cases (computation context.joinBound).run state.types with
  | none => exact ⟨rfl, fun _ _ hrun => by cases hrun⟩
  | some pair =>
      refine ⟨rfl, fun _ _ hrun => ?_⟩
      cases hrun
      exact h

theorem frames (computation : FrameM α) : Impartial context (CheckM.frames computation) := by
  intro state h
  unfold CheckM.frames CheckState.shown
  dsimp only
  rcases computation.run state.frames with ⟨fault | result, next⟩
  · exact ⟨rfl, fun _ _ hrun => by cases hrun⟩
  · refine ⟨rfl, fun _ _ hrun => ?_⟩
    cases hrun
    exact h

theorem tryFold (node : NodeId) : Impartial context (CheckM.tryFold node) := by
  intro state h
  refine ⟨rfl, fun _ _ hrun => ?_⟩
  cases hrun
  exact h

/-- A problem is found where it would be shown. -/
theorem report_run (frame : FrameId) (node : NodeId) (problem : Problem) {state : CheckState}
    (h : state.diagnostics.merging = false) :
    ∃ next, CheckM.report frame node problem context.telling state = .ok ((), next) ∧
      next.diagnostics.merging = false ∧
      (if context.options.reports problem then
        CheckM.report frame node problem context (state.shown context.options)
      else .ok ((), state.shown context.options)) =
        .ok ((), next.shown context.options) := by
  let found := Diagnostic.ofProblem (context.tree.start node).location problem
    (state.frames.trace context.tree frame node)
  have hcollect := context.options.collect_report h found
  refine ⟨{ state with diagnostics := state.diagnostics.report found }, rfl, ?_, ?_⟩
  · dsimp only
    rw [Diagnostics.report_of_not_merging h]
    exact h
  · unfold CheckState.shown
    rw [hcollect]
    have hproblem : found.problem = problem := rfl
    rw [hproblem]
    split
    · rfl
    · rfl

theorem report (frame : FrameId) (node : NodeId) {problem : Problem}
    (hproblem : problem ≠ .assignUndefined) :
    Impartial context (CheckM.report frame node problem) := by
  intro state h
  obtain ⟨next, hrun, hmerging, hshown⟩ := @report_run context frame node problem _ h
  rw [if_pos (by simp [CheckOptions.reports, hproblem])] at hshown
  rw [hshown, hrun]
  refine ⟨rfl, fun _ _ hrest => ?_⟩
  cases hrest
  exact hmerging

theorem fail (cause : Fault.Cause) (node : NodeId) :
    Impartial context (CheckM.fail cause node : CheckM α) :=
  .tree_bind (.throw _)

theorem unsupported (node : NodeId) : Impartial context (CheckM.unsupported node : CheckM α) :=
  .tree_bind (.fail _ node)

theorem missingChild (node : NodeId) (child : String) :
    Impartial context (CheckM.missingChild node child : CheckM α) :=
  .tree_bind (.fail _ node)

end Impartial

end CheckM

open CheckM

/-- The rules for nested nodes do the same whatever is shown. -/
structure Evaluator.Impartial (context : CheckContext) (eval : Evaluator) : Prop where
  expression : ∀ frame node, CheckM.Impartial context (eval.expression frame node)
  statement : ∀ frame node, CheckM.Impartial context (eval.statement frame node)

namespace Check

variable {context : CheckContext} {eval : Evaluator}

/-! ## Operators, names and members -/

theorem impartial_outcome? (ty : Ty) : Impartial context (outcome? ty) :=
  (Impartial.types _).bind fun _ => .pure _

theorem impartial_kindsOf (ty : Ty) : Impartial context (kindsOf ty) :=
  (Impartial.types _).bind fun _ => .pure _

theorem impartial_hasKindOutside (ty : Ty) (kinds : List Kind) :
    Impartial context (hasKindOutside ty kinds) :=
  (impartial_kindsOf ty).bind fun _ => .pure _

theorem impartial_isNullish (ty : Ty) : Impartial context (isNullish ty) :=
  (impartial_kindsOf ty).bind fun _ => .pure _

theorem impartial_isString (ty : Ty) : Impartial context (isString ty) :=
  (Impartial.types _).bind fun _ => .pure _

theorem impartial_isNotNumber (ty : Ty) : Impartial context (isNotNumber ty) := .types _

theorem impartial_operandCheck (category : OperatorCategory) (left right : Ty) :
    Impartial context (operandCheck category left right) := by
  have hgeneral : ∀ (clash : Bool) (general : TypeM Ty), Impartial context
      (do return (clash, ← types general)) := fun _ _ => (Impartial.types _).bind fun _ => .pure _
  cases category with
  | addition =>
      refine (impartial_isString left).bind fun _ => (impartial_isString right).bind fun _ =>
        .ite (hgeneral _ _) ?_
      exact (impartial_isNotNumber left).bind fun _ => (impartial_isNotNumber right).bind fun _ =>
        .ite (hgeneral _ _) (hgeneral _ _)
  | equality =>
      refine (impartial_isNullish left).bind fun _ => (impartial_isNullish right).bind fun _ => ?_
      extract_lets nullish rest
      split
      · exact (Impartial.pure _).bind fun _ => hgeneral _ _
      · exact (Impartial.types _).bind fun _ => hgeneral _ _
  | comparison =>
      refine (impartial_hasKindOutside left _).bind fun _ =>
        (impartial_hasKindOutside right _).bind fun _ => ?_
      extract_lets outside rest
      split
      · exact (Impartial.pure _).bind fun _ => hgeneral _ _
      · exact (Impartial.types _).bind fun _ => hgeneral _ _
  | numeric =>
      exact (impartial_isNotNumber left).bind fun _ => (impartial_isNotNumber right).bind
        fun _ => hgeneral _ _
  | membership =>
      exact (impartial_hasKindOutside left _).bind fun _ =>
        (impartial_hasKindOutside right _).bind fun _ => hgeneral _ _
  | instance_ => exact (impartial_hasKindOutside right _).bind fun _ => hgeneral _ _

theorem impartial_applyBinary (frame : FrameId) (node : NodeId) (op : BinaryOp) (left right : Ty) :
    Impartial context (applyBinary frame node op left right) := by
  refine (impartial_operandCheck op.category left right).bind fun checked => ?_
  obtain ⟨clash, general⟩ := checked
  dsimp -zeta only
  extract_lets rest
  have hrest : Impartial context (rest ()) := by
    refine (Impartial.types _).bind fun _ => (Impartial.types _).bind fun _ => ?_
    split
    · split
      · exact .types _
      · exact .pure _
    · exact .pure _
  split
  · exact (Impartial.types _).bind fun _ => (Impartial.types _).bind fun _ =>
      (Impartial.report frame node (by simp)).bind fun _ => hrest
  · exact hrest

theorem impartial_applyUnary (frame : FrameId) (node : NodeId) (op : UnaryOp) (argument : Ty) :
    Impartial context (applyUnary frame node op argument) := by
  unfold applyUnary
  split
  · refine (Impartial.types _).bind fun _ => ?_
    split <;> exact .types _
  · refine (impartial_outcome? argument).bind fun _ => ?_
    split <;> exact .types _
  · exact .types _
  · exact .types _
  all_goals
    refine (impartial_isNotNumber argument).bind fun _ => ?_
    extract_lets rest
    have hrest : Impartial context (rest ()) := by
      refine (Impartial.types _).bind fun _ => ?_
      split <;> exact .types _
    split
    · exact (Impartial.report frame node (by simp)).bind fun _ => hrest
    · exact hrest

theorem impartial_readName (frame : FrameId) (node : NodeId) :
    Impartial context (readName frame node) := by
  refine .tree_bind (.graph_bind ?_)
  split
  · refine (Impartial.frames _).bind fun _ => ?_
    split
    · exact .pure _
    · exact .types _
  · split <;> exact .types _

theorem impartial_readMember (frame : FrameId) (node : NodeId) (owner key : Ty) :
    Impartial context (readMember frame node owner key) := by
  refine (Impartial.types _).bind fun _ => .ite ?_ ?_
  · exact (Impartial.types _).bind fun _ => (Impartial.types _).bind fun _ =>
      (Impartial.report frame node (by simp)).bind fun _ => .types _
  · refine (Impartial.joins _).bind fun _ => ?_
    split
    · exact .pure _
    · exact .types _

theorem impartial_writeMember (frame : FrameId) (node : NodeId) (owner key value : Ty) :
    Impartial context (writeMember frame node owner key value) := by
  refine (Impartial.types _).bind fun _ => .ite (.report frame node (by simp)) ?_
  exact (Impartial.types _).bind fun _ => .ite (.report frame node (by simp)) (.pure ())

theorem impartial_writeName (frame : FrameId) (node : NodeId) (symbol : SymbolId) (ty : Ty) :
    Impartial context (writeName frame node symbol ty) :=
  .tree_bind (.graph_bind (.frames _))

theorem impartial_joinOr (results : List Ty) (otherwise : TypeM Ty) :
    Impartial context (joinOr results otherwise) := by
  refine (Impartial.joins _).bind fun _ => ?_
  split
  · exact .pure _
  · exact .types _

/-! ## Calls -/

theorem impartial_bindReceiver (callee : FrameId) (shape : FunctionShape) (scope : ScopeId)
    (receiver : Ty) (arguments : List Ty) :
    Impartial context (bindReceiver callee shape scope receiver arguments) := by
  unfold bindReceiver
  split
  · exact .pure ()
  · refine .graph_bind ?_
    extract_lets rest
    have hrest : Impartial context (rest ()) := by
      dsimp only [rest]
      split
      · exact (Impartial.joins _).bind fun _ => .frames _
      · exact .pure ()
    split
    · exact (Impartial.frames _).bind fun _ => hrest
    · exact hrest

theorem impartial_bindOwnName (callee : FrameId) (shape : FunctionShape) (scope : ScopeId)
    (function : Ty) : Impartial context (bindOwnName callee shape scope function) := by
  refine .graph_bind (.ite ?_ (.pure ()))
  split
  · exact .ite (.frames _) (.pure ())
  · exact .pure ()

theorem impartial_bindParameters (callee : FrameId) (parameters : List NodeId)
    (arguments : List Ty) : Impartial context (bindParameters callee parameters arguments) := by
  induction parameters generalizing arguments with
  | nil => exact .pure ()
  | cons parameter rest ih =>
      refine .graph_bind ?_
      split
      · split
        · exact (Impartial.pure _).bind fun _ => (Impartial.frames _).bind fun _ => ih _
        · exact (Impartial.types _).bind fun _ => (Impartial.frames _).bind fun _ => ih _
      · exact ih _

theorem impartial_runBody (heval : eval.Impartial context) (callee : FrameId)
    (shape : FunctionShape) : Impartial context (runBody eval callee shape) := by
  refine .ite (heval.expression _ _) ?_
  exact (heval.statement _ _).bind fun _ => (Impartial.frames _).bind fun _ =>
    impartial_joinOr _ _

theorem impartial_enterFunction (heval : eval.Impartial context) (frame : FrameId) (site : NodeId)
    (function : Ty) (node : NodeId) (origin : FrameId) (receiver : Ty) (arguments : List Ty) :
    Impartial context (enterFunction eval frame site function node origin receiver arguments) := by
  refine (Impartial.frames _).bind fun _ => .ite (.types _) (.tree_bind (.graph_bind ?_))
  split
  · exact .missingChild _ _
  · refine (Impartial.frames _).bind fun callee => (impartial_bindReceiver _ _ _ _ _).bind fun _ =>
      (impartial_bindOwnName _ _ _ _).bind fun _ => (impartial_bindParameters _ _ _).bind fun _ =>
        (impartial_runBody heval _ _).bind fun _ => (Impartial.frames _).bind fun _ => ?_
    exact .ite (.joins _) (.pure _)

theorem impartial_splitArguments {enter : List Ty → CheckM Ty}
    (henter : ∀ arguments, Impartial context (enter arguments)) (arguments chosen : List Ty) :
    Impartial context (splitArguments enter chosen arguments) := by
  induction arguments generalizing chosen with
  | nil => exact henter _
  | cons argument rest ih =>
      cases argument with
      | plain id => exact ih _
      | union variants =>
          exact (Impartial.mapM fun id => ih _).bind fun results => impartial_joinOr results _

theorem impartial_invokePlain (heval : eval.Impartial context) (frame : FrameId) (site : NodeId)
    (receiver : Ty) (arguments : List Ty) (id : TypeId) :
    Impartial context (invokePlain eval frame site receiver arguments id) := by
  refine (Impartial.types _).bind fun callable => ?_
  split
  · exact impartial_splitArguments (fun _ => impartial_enterFunction heval _ _ _ _ _ _ _) _ _
  · exact .types _
  · refine (Impartial.types _).bind fun _ => ?_
    extract_lets rest
    split
    · exact (Impartial.types _).bind fun _ => (Impartial.report frame site (by simp)).bind
        fun _ => .types _
    · exact .types _

theorem impartial_invoke (heval : eval.Impartial context) (frame : FrameId) (site : NodeId)
    (function receiver : Ty) (arguments : List Ty) :
    Impartial context (invoke eval frame site function receiver arguments) :=
  (Impartial.mapM (impartial_invokePlain heval frame site receiver arguments)).bind
    fun results => impartial_joinOr results _

theorem impartial_instantiate (id : TypeId) : Impartial context (instantiate id) := by
  refine (Impartial.types _).bind fun key => (Impartial.joins _).bind fun prototype => ?_
  split <;> exact .types _

theorem impartial_construct (heval : eval.Impartial context) (frame : FrameId) (site : NodeId)
    (function : Ty) (arguments : List Ty) :
    Impartial context (construct eval frame site function arguments) := by
  refine ((Impartial.types _).bind fun _ =>
    .pure _ : Impartial context (constructor? function)).bind
    fun found => ?_
  split
  · exact (Impartial.types _).bind fun _ => (impartial_invoke heval _ _ _ _ _).bind
      fun _ => .types _
  · refine (impartial_instantiate _).bind fun _ => (impartial_invoke heval _ _ _ _ _).bind
      fun result => Impartial.bind ?_ fun _ => .ite (.pure _) (.pure _)
    exact (impartial_kindsOf result).bind fun _ => .pure _

/-! ## Expressions -/

theorem impartial_objectMembers (heval : eval.Impartial context) (frame : FrameId) (node : NodeId)
    (properties : List NodeId) (members : List (String × Ty)) :
    Impartial context (objectMembers eval frame node properties members) := by
  induction properties generalizing members with
  | nil => exact .pure _
  | cons property rest ih =>
      refine .tree_bind ?_
      split
      · exact (heval.expression _ _).bind fun _ => ih _
      · exact .missingChild _ _

theorem impartial_memberKey (heval : eval.Impartial context) (frame : FrameId) (key : MemberKey) :
    Impartial context (memberKey eval frame key) := by
  cases key with
  | named name => exact .types (Ty.ofValue (.string name))
  | computed key => exact heval.expression _ _

theorem impartial_logical (heval : eval.Impartial context) (frame : FrameId) (op : LogicalOp)
    (left right : NodeId) : Impartial context (logical eval frame op left right) := by
  refine (heval.expression _ _).bind fun leftType => (impartial_outcome? leftType).bind fun _ => ?_
  split
  · exact .pure _
  · exact .pure _
  · exact heval.expression _ _
  · exact (heval.expression _ _).bind fun _ => .joins _

theorem impartial_conditional (heval : eval.Impartial context) (frame : FrameId)
    (test consequent alternate : NodeId) :
    Impartial context (conditional eval frame test consequent alternate) := by
  refine (heval.expression _ _).bind fun testType => (impartial_outcome? testType).bind fun _ => ?_
  split
  · exact heval.expression _ _
  · exact heval.expression _ _
  · exact (heval.expression _ _).bind fun _ => (heval.expression _ _).bind fun _ => .joins _

/-- What has no part in reporting may be read of the context. -/
theorem impartial_read_bind {β : Type} {f : CheckContext → CheckM β}
    (htelling : f context.telling = f context) (h : Impartial context (f context)) :
    Impartial context (do f (← read)) := by
  intro state hstate
  obtain ⟨hshown, hkeeps⟩ := h state hstate
  rw [← htelling] at hkeeps
  refine ⟨hshown.trans ?_, hkeeps⟩
  rw [← htelling]
  rfl

theorem impartial_initialiser (heval : eval.Impartial context) (frame : FrameId) (node : NodeId) :
    Impartial context (initialiser eval frame node) := by
  refine (heval.expression _ _).bind fun ty => impartial_read_bind rfl ?_
  refine (Impartial.types _).bind fun _ => .ite (.pure _) ?_
  refine (Impartial.tryFold _).bind fun _ => ?_
  split
  · exact .ite (.types _) (.pure _)
  · exact .pure _

theorem impartial_targetPlace (heval : eval.Impartial context) (frame : FrameId)
    (target : NodeId) : Impartial context (targetPlace eval frame target) := by
  refine .tree_bind ?_
  split
  · exact .pure _
  · exact (heval.expression _ _).bind fun _ => (impartial_memberKey heval _ _).bind
      fun _ => .pure _
  · exact .fail _ _

theorem impartial_assignedType (heval : eval.Impartial context) (frame : FrameId) (node : NodeId)
    (op : AssignOp) (target value : NodeId) (place : Place) :
    Impartial context (assignedType eval frame node op target value place) := by
  unfold assignedType
  split
  · exact impartial_initialiser heval _ _
  · cases place with
    | member owner key =>
        exact (impartial_readMember _ _ _ _).bind fun _ => (heval.expression _ _).bind
          fun _ => impartial_applyBinary _ _ _ _ _
    | name =>
        exact (heval.expression _ _).bind fun _ => (heval.expression _ _).bind
          fun _ => impartial_applyBinary _ _ _ _ _

theorem impartial_store (frame : FrameId) (node target : NodeId) (place : Place) (ty : Ty) :
    Impartial context (store frame node target place ty) := by
  cases place with
  | member owner key => exact impartial_writeMember _ _ _ _ _
  | name =>
      refine .graph_bind ?_
      split
      · exact .ite (impartial_writeName _ _ _ _) (.pure ())
      · exact .pure ()

/-- Looking what a type is leaves no mark, so it does no harm to look in vain. -/
theorem reportUndefined_run (frame : FrameId) (node : NodeId) (op : AssignOp) (ty : Ty)
    (rest : CheckM Ty) (context : CheckContext) (state : CheckState) :
    (do if op = .plain ∧ (← read).options.reportUndefinedAssignment then
          if ← types (ty.isKind .undefined) then report frame node .assignUndefined
        rest : CheckM Ty) context state =
      if op = .plain ∧ (ty.isKind .undefined state.types).1 ∧
          context.options.reportUndefinedAssignment then
        (report frame node .assignUndefined context state).bind fun next => rest context next.2
      else rest context state := by
  have hlook : types (ty.isKind .undefined) context state =
      .ok ((ty.isKind .undefined state.types).1, state) := by
    cases ty <;> rfl
  change (if op = .plain ∧ context.options.reportUndefinedAssignment then
    types (ty.isKind .undefined) >>= fun found =>
      if found then report frame node .assignUndefined >>= fun _ => rest else rest
    else rest : CheckM Ty) context state = _
  by_cases hasked : op = .plain ∧ context.options.reportUndefinedAssignment
  · rw [if_pos hasked]
    rw [bind_apply, hlook]
    change (if (ty.isKind .undefined state.types).1 then _ else _ : CheckM Ty) context state = _
    cases (ty.isKind .undefined state.types).1 with
    | false => simp
    | true => simp only [hasked, and_self, if_true]; rfl
  · rw [if_neg hasked, if_neg fun h => hasked ⟨h.1, h.2.2⟩]

theorem impartial_reportUndefined (frame : FrameId) (node : NodeId) (op : AssignOp) (ty : Ty)
    {rest : CheckM Ty} (hrest : Impartial context rest) :
    Impartial context (do
      if op = .plain ∧ (← read).options.reportUndefinedAssignment then
        if ← types (ty.isKind .undefined) then report frame node .assignUndefined
      rest) := by
  intro state hstate
  obtain ⟨next, htold, hnext, hshown⟩ :=
    @Impartial.report_run context frame node .assignUndefined _ hstate
  rw [reportUndefined_run, reportUndefined_run]
  by_cases hfound : op = .plain ∧ (ty.isKind .undefined state.types).1
  · rw [if_pos (⟨hfound.1, hfound.2, rfl⟩ : op = .plain ∧ _ ∧
      context.telling.options.reportUndefinedAssignment), htold]
    obtain ⟨hrun, hkeeps⟩ := hrest next hnext
    refine ⟨Eq.trans ?_ hrun, hkeeps⟩
    by_cases hoption : context.options.reportUndefinedAssignment
    · rw [if_pos (by simp [CheckOptions.reports, hoption])] at hshown
      rw [if_pos ⟨hfound.1, hfound.2, hoption⟩, hshown]
      rfl
    · rw [if_neg (by simp [CheckOptions.reports, hoption])] at hshown
      rw [if_neg fun h => hoption h.2.2]
      have hstate : state.shown context.options = next.shown context.options := by
        injection hshown with hshown
        exact congrArg Prod.snd hshown
      rw [← hstate]
  · rw [if_neg fun h => hfound ⟨h.1, h.2.1⟩, if_neg fun h => hfound ⟨h.1, h.2.1⟩]
    exact hrest state hstate

theorem impartial_assignment (heval : eval.Impartial context) (frame : FrameId) (node : NodeId)
    (op : AssignOp) (target value : NodeId) :
    Impartial context (assignment eval frame node op target value) := by
  refine (impartial_targetPlace heval _ _).bind fun place =>
    (impartial_assignedType heval _ _ _ _ _ place).bind fun ty => ?_
  exact impartial_reportUndefined frame node op ty
    ((impartial_store _ _ _ _ _).bind fun _ => .pure _)

theorem impartial_call (heval : eval.Impartial context) (frame : FrameId) (node callee : NodeId)
    (arguments : List NodeId) : Impartial context (call eval frame node callee arguments) := by
  have harguments : Impartial context (arguments.mapM (eval.expression frame)) :=
    .mapM fun _ => heval.expression _ _
  refine .tree_bind ?_
  split
  · exact (heval.expression _ _).bind fun _ => (impartial_memberKey heval _ _).bind fun _ =>
      (impartial_readMember _ _ _ _).bind fun _ => harguments.bind fun _ =>
        impartial_invoke heval _ _ _ _ _
  · exact (Impartial.types _).bind fun _ => (heval.expression _ _).bind fun _ =>
      harguments.bind fun _ => impartial_invoke heval _ _ _ _ _

theorem impartial_newObject (heval : eval.Impartial context) (frame : FrameId)
    (node callee : NodeId) (arguments : List NodeId) :
    Impartial context (newObject eval frame node callee arguments) :=
  (heval.expression _ _).bind fun _ => (Impartial.mapM fun _ => heval.expression _ _).bind
    fun _ => impartial_construct heval _ _ _ _

theorem impartial_expressionRule (heval : eval.Impartial context) (frame : FrameId)
    (node : NodeId) : Impartial context (expressionRule eval frame node) := by
  refine .tree_bind ?_
  split
  · exact .types _
  · exact impartial_readName _ _
  · exact impartial_readName _ _
  · exact (Impartial.mapM fun _ => heval.expression _ _).bind fun _ => .joins _
  · exact (impartial_objectMembers heval _ _ _ _).bind fun _ => .types _
  · exact .types _
  · exact (heval.expression _ _).bind fun _ => impartial_applyUnary _ _ _ _
  · exact (heval.expression _ _).bind fun _ => (heval.expression _ _).bind
      fun _ => impartial_applyBinary _ _ _ _ _
  · exact impartial_logical heval _ _ _ _
  · exact impartial_assignment heval _ _ _ _ _
  · exact impartial_conditional heval _ _ _ _
  · exact impartial_call heval _ _ _ _
  · exact impartial_newObject heval _ _ _ _
  · exact (heval.expression _ _).bind fun _ => (impartial_memberKey heval _ _).bind
      fun _ => impartial_readMember _ _ _ _
  · exact (Impartial.types _).bind fun _ => .foldlM (fun _ _ => heval.expression _ _) _
  · exact .unsupported _

/-! ## Statements -/

theorem impartial_narrowNames (frame : FrameId) (test : NodeId) (found : List (SymbolId × Kind)) :
    Impartial context (narrowNames frame test found) := by
  induction found with
  | nil => exact .pure ()
  | cons guard rest ih =>
      obtain ⟨symbol, kind⟩ := guard
      refine .tree_bind (.graph_bind ((Impartial.frames _).bind fun current => ?_))
      have hnarrow : ∀ current : Ty, Impartial context (do
          let narrowed ← joins fun bound => current.narrow bound kind
          frames (FrameM.bind frame symbol narrowed)
          narrowNames frame test rest) := fun _ =>
        (Impartial.joins _).bind fun _ => (Impartial.frames _).bind fun _ => ih
      split
      · exact hnarrow _
      · exact (Impartial.types _).bind hnarrow

theorem impartial_branchFrame (frame : FrameId) (test : NodeId) (found : List (SymbolId × Kind)) :
    Impartial context (branchFrame frame test found) :=
  .ite (.pure _) ((Impartial.frames _).bind fun _ =>
    (impartial_narrowNames _ _ _).bind fun _ => .pure _)

theorem impartial_ifStatement (heval : eval.Impartial context) (frame : FrameId)
    (test consequent : NodeId) (alternate : Option NodeId) :
    Impartial context (ifStatement eval frame test consequent alternate) := by
  refine .tree_bind (.graph_bind ((heval.expression _ _).bind fun testType =>
    (impartial_outcome? testType).bind fun outcome => ?_))
  extract_lets rest
  have hrest : Impartial context (rest ()) :=
    .ite (.optionForM fun _ => heval.statement _ _) (.pure ())
  split
  · exact (impartial_branchFrame _ _ _).bind fun _ => (heval.statement _ _).bind fun _ => hrest
  · exact hrest

theorem impartial_declareFunction (frame : FrameId) (node : NodeId) :
    Impartial context (declareFunction frame node) := by
  refine Impartial.bind (.types _) fun function => .graph_bind ?_
  split
  · exact impartial_writeName _ _ _ _
  · exact .pure ()

theorem impartial_declarator (heval : eval.Impartial context) (frame : FrameId)
    (kind : DeclarationKind) (node : NodeId) :
    Impartial context (declarator eval frame kind node) := by
  refine .tree_bind ?_
  split
  · refine .graph_bind ?_
    split
    · exact .pure ()
    · exact (impartial_initialiser heval _ _).bind fun _ => impartial_writeName _ _ _ _
    · exact .pure ()
    · exact (Impartial.types _).bind fun _ => impartial_writeName _ _ _ _
  · exact .missingChild _ _

theorem impartial_body (heval : eval.Impartial context) (frame : FrameId)
    (statements : List NodeId) : Impartial context (body eval frame statements) :=
  .tree_bind ((Impartial.forM fun _ => impartial_declareFunction _ _).bind
    fun _ => .forM fun _ => heval.statement _ _)

theorem impartial_isKnownFalse (heval : eval.Impartial context) (frame : FrameId)
    (test : NodeId) : Impartial context (isKnownFalse eval frame test) :=
  (heval.expression _ _).bind fun ty => (impartial_outcome? ty).bind fun _ => .pure _

theorem impartial_returnStatement (heval : eval.Impartial context) (frame : FrameId)
    (node : NodeId) (argument : Option NodeId) :
    Impartial context (returnStatement eval frame node argument) := by
  have hreport : ∀ ty, Impartial context (do
      if !(← frames (FrameM.addReturned frame ty)) then report frame node .unexpectedReturn) :=
    fun _ => (Impartial.frames _).bind fun _ => .ite (.report frame node (by simp)) (.pure ())
  cases argument with
  | some argument => exact (heval.expression _ _).bind hreport
  | none => exact (Impartial.types _).bind hreport

theorem impartial_forStatement (heval : eval.Impartial context) (frame : FrameId)
    (init test update : Option NodeId) (body : NodeId) :
    Impartial context (forStatement eval frame init test update body) := by
  have hround {after : CheckM Unit} (hafter : Impartial context after) (skipped : Bool) :
      Impartial context (do
        if !skipped then
          eval.statement frame body
          after) :=
    .ite ((heval.statement _ _).bind fun _ => hafter) (.pure ())
  have hupdate (update : NodeId) : Impartial context (do let _ ← eval.expression frame update) :=
    (heval.expression _ _).bind fun _ => .pure ()
  have htest : Impartial context (forStatement eval frame none test update body) := by
    cases test with
    | none =>
        cases update with
        | none => exact hround (.pure ()) false
        | some update => exact hround (hupdate update) false
    | some test =>
        cases update with
        | none => exact (impartial_isKnownFalse heval _ _).bind (hround (.pure ()))
        | some update => exact (impartial_isKnownFalse heval _ _).bind (hround (hupdate update))
  cases init with
  | none => exact htest
  | some init =>
      refine .tree_bind ?_
      dsimp only
      split
      · exact (heval.statement _ _).bind fun _ => htest
      · exact (heval.expression _ _).bind fun _ => htest

theorem impartial_catchClause (heval : eval.Impartial context) (frame : FrameId)
    (param : Option NodeId) (body : NodeId) :
    Impartial context (catchClause eval frame param body) := by
  refine .graph_bind ?_
  split
  · exact (Impartial.types _).bind fun _ => (Impartial.frames _).bind fun _ =>
      heval.statement _ _
  · exact heval.statement _ _

theorem impartial_statementInside (heval : eval.Impartial context) (frame : FrameId)
    (node : NodeId) : Impartial context (statementInside eval frame node) := by
  have hexpression : ∀ expr, Impartial context (do let _ ← eval.expression frame expr) :=
    fun _ => (heval.expression _ _).bind fun _ => .pure ()
  refine .tree_bind ?_
  split
  · exact impartial_body heval _ _
  · exact impartial_body heval _ _
  · exact .pure ()
  · exact .pure ()
  · exact .pure ()
  · exact hexpression _
  · exact .forM fun _ => impartial_declarator heval _ _ _
  · exact impartial_ifStatement heval _ _ _ _
  · exact impartial_returnStatement heval _ _ _
  · exact (impartial_isKnownFalse heval _ _).bind fun _ => .ite (heval.statement _ _) (.pure ())
  · exact impartial_forStatement heval _ _ _ _ _
  · exact (heval.statement _ _).bind fun _ => (Impartial.optionForM fun _ =>
      heval.statement _ _).bind fun _ => .optionForM fun _ => heval.statement _ _
  · exact impartial_catchClause heval _ _ _
  · exact hexpression _
  · exact .unsupported _
  · exact .unsupported _
  · exact .unsupported _
  · exact hexpression _

theorem impartial_statementRule (heval : eval.Impartial context) (frame : FrameId)
    (node : NodeId) : Impartial context (statementRule eval frame node) := by
  refine .tree_bind ?_
  split
  · exact .ite (impartial_declareFunction _ _)
      ((heval.expression _ _).bind fun _ => .pure ())
  · exact .graph_bind ((Impartial.frames _).bind fun _ => impartial_statementInside heval _ _)

/-! ## Programs -/

theorem impartial_bindGlobals (frame : FrameId) (names : List String) :
    Impartial context (bindGlobals frame names) := by
  refine .forM fun name => .graph_bind ?_
  split
  · exact (Impartial.types _).bind fun _ => .frames _
  · exact .pure ()

theorem impartial_program (heval : eval.Impartial context) :
    Impartial context (program eval) := by
  refine .tree_bind (.graph_bind ((Impartial.frames _).bind fun root => ?_))
  exact impartial_read_bind rfl ((impartial_bindGlobals root _).bind fun _ =>
    (heval.statement _ _).bind fun _ => .pure _)

end Check

theorem Evaluator.impartial_upTo (context : CheckContext) (depth : Nat) :
    (Evaluator.upTo depth).Impartial context := by
  induction depth with
  | zero => exact ⟨fun _ _ => .throw _, fun _ _ => .throw _⟩
  | succ depth ih =>
      exact ⟨Check.impartial_expressionRule ih, Check.impartial_statementRule ih⟩

/-! ## Whole runs -/

namespace Diagnostics

/-- What a merging collector has when everything is reported to it one by one. -/
def merged (diagnostics : Diagnostics) : Diagnostics :=
  diagnostics.toList.foldl report (.empty true)

def without (problem : Problem) (diagnostics : Diagnostics) : Diagnostics :=
  { diagnostics with records := diagnostics.records.filter (·.problem ≠ problem) }

end Diagnostics

namespace Run

/-- A run with its diagnostics changed, and nothing else. -/
def mapDiagnostics (f : Diagnostics → Diagnostics) (run : Run) : Run :=
  { run with state := { run.state with diagnostics := f run.state.diagnostics } }

end Run

namespace Tree

variable (tree : Tree) (joinBound : Nat) (options : CheckOptions)

/-- A run in terms of the scopes and duplicate declarations that were found. -/
theorem runWithin_eq : tree.runWithin joinBound options =
    let built := ScopeGraph.build tree options.globals (.empty options.mergeDiagnostics)
    (Check.program (.upTo (Evaluator.depthFor tree.size)) ⟨tree, built.1, options, joinBound⟩
      ⟨{}, {}, built.2, .empty tree⟩).map fun next => ⟨built.1, next.1, next.2⟩ := by
  unfold runWithin
  rcases ScopeGraph.build tree options.globals (.empty options.mergeDiagnostics) with
    ⟨graph, diagnostics⟩
  dsimp only [ReaderT.run, StateT.run]
  cases Check.program _ _ _ <;> rfl

/-- What is shown of a run can be told from a run in which everything is. -/
theorem runWithin_shown :
    tree.runWithin joinBound options =
        (tree.runWithin joinBound options.telling).map
          (Run.mapDiagnostics fun found => options.collect found.toList) ∧
      ∀ run, tree.runWithin joinBound options.telling = .ok run →
        run.state.diagnostics.merging = false := by
  let built := ScopeGraph.build tree options.globals (.empty false)
  let eval := Evaluator.upTo (Evaluator.depthFor tree.size)
  let context : CheckContext := ⟨tree, built.1, options, joinBound⟩
  let start : CheckState := ⟨{}, {}, built.2, .empty tree⟩
  obtain ⟨hbuild, hmerging⟩ := ScopeGraph.build_shown tree options
  obtain ⟨hrun, hkeeps⟩ :=
    Check.impartial_program (Evaluator.impartial_upTo context _ : eval.Impartial context)
      start hmerging
  have htelling : tree.runWithin joinBound options.telling =
      (Check.program eval context.telling start).map fun next => ⟨built.1, next.1, next.2⟩ :=
    tree.runWithin_eq joinBound options.telling
  have hshown : tree.runWithin joinBound options =
      (Check.program eval context (start.shown options)).map
        fun next => ⟨built.1, next.1, next.2⟩ := by
    rw [runWithin_eq, hbuild]
    rfl
  rw [hshown, htelling, hrun]
  cases hprogram : Check.program eval context.telling start with
  | error halt => exact ⟨rfl, fun _ h => by cases h⟩
  | ok next =>
      refine ⟨rfl, fun run h => ?_⟩
      cases h
      exact hkeeps next.1 next.2 hprogram

/-- Of the runs with two choices of what is shown, each is told from the other's telling. -/
theorem runWithin_collect {first second : CheckOptions} {shown : Diagnostics → Diagnostics}
    (hcollect : ∀ found, first.collect found = shown (second.collect found))
    (htelling : first.telling = second.telling) :
    tree.runWithin joinBound first =
      (tree.runWithin joinBound second).map (Run.mapDiagnostics shown) := by
  rw [(tree.runWithin_shown joinBound first).1, (tree.runWithin_shown joinBound second).1, htelling]
  cases tree.runWithin joinBound second.telling with
  | error halt => rfl
  | ok run =>
      refine congrArg Except.ok ?_
      unfold Run.mapDiagnostics
      dsimp only
      rw [hcollect]

theorem check_collect {first second : CheckOptions} {shown : Diagnostics → Diagnostics}
    (hcollect : ∀ found, first.collect found = shown (second.collect found))
    (htelling : first.telling = second.telling) :
    tree.check first = (tree.check second).map shown := by
  have hrun := tree.runWithin_collect defaultJoinBound hcollect htelling
  change (tree.runWithin defaultJoinBound first).map (·.state.diagnostics) =
    ((tree.runWithin defaultJoinBound second).map (·.state.diagnostics)).map shown
  rw [hrun]
  cases tree.runWithin defaultJoinBound second <;> rfl

/-- **Reporting does not steer a check.**  A run that merges diagnostics ends as one that does
not, with the same scopes, types, frames and folded values, and its diagnostics are those of
the other reported one by one to a merging collector; and without merging, leaving assignments
of `undefined` unreported takes just those out of what is reported otherwise.  So it is with
the diagnostics of a check. -/
theorem reporting_steers_nothing :
    (tree.runWithin joinBound { options with mergeDiagnostics := true } =
      (tree.runWithin joinBound { options with mergeDiagnostics := false }).map
        (Run.mapDiagnostics Diagnostics.merged) ∧
     tree.runWithin joinBound
        { options with mergeDiagnostics := false, reportUndefinedAssignment := false } =
      (tree.runWithin joinBound
        { options with mergeDiagnostics := false, reportUndefinedAssignment := true }).map
        (Run.mapDiagnostics (Diagnostics.without .assignUndefined))) ∧
    tree.check { options with mergeDiagnostics := true } =
      (tree.check { options with mergeDiagnostics := false }).map Diagnostics.merged ∧
    tree.check { options with mergeDiagnostics := false, reportUndefinedAssignment := false } =
      (tree.check { options with mergeDiagnostics := false, reportUndefinedAssignment := true }).map
        (Diagnostics.without .assignUndefined) := by
  have hmerged : ∀ found, { options with mergeDiagnostics := true }.collect found =
      .merged ({ options with mergeDiagnostics := false }.collect found) := by
    intro found
    rw [CheckOptions.collect_of_not_merging { options with mergeDiagnostics := false } rfl]
    rfl
  have hwithout : ∀ found,
      { options with mergeDiagnostics := false, reportUndefinedAssignment := false }.collect found =
        .without .assignUndefined
          ({ options with mergeDiagnostics := false, reportUndefinedAssignment := true }.collect
            found) := by
    intro found
    rw [CheckOptions.collect_of_not_merging _ rfl, CheckOptions.collect_of_not_merging _ rfl]
    simp [CheckOptions.reports, Diagnostics.without]
  exact ⟨⟨tree.runWithin_collect joinBound hmerged rfl,
    tree.runWithin_collect joinBound hwithout rfl⟩,
    tree.check_collect hmerged rfl, tree.check_collect hwithout rfl⟩

end Tree

end ScriptCheck
