import ScriptCheck.Check.Call
import ScriptCheck.Proofs.Check.Operand
import ScriptCheck.Proofs.Check.Place

/-!
# Calls without faults

A call enters a function that is not called yet, in a frame inside the one where the
function was made; so its body is followed with fewer functions left to call.
-/

namespace ScriptCheck.Check

open CheckM Ty ScopeGraph

variable {context : CheckContext} {state next : CheckState} {depth frame site : Nat}
  {eval other : Evaluator}

/-! ## Binding -/

theorem agree_bind (frame : FrameId) (symbol : SymbolId) (ty : Ty) :
    Agree context state (frames (FrameM.bind frame symbol ty))
      (frames (FrameM.bind frame symbol ty)) (fun _ _ => True) :=
  agree_frames fun hlawful => FrameM.succeeds_bind hlawful frame symbol ty

theorem agree_bindReceiver (callee : FrameId) (shape : FunctionShape) (scope : ScopeId)
    (receiver : Ty) (arguments : List Ty) :
    Agree context state (bindReceiver callee shape scope receiver arguments)
      (bindReceiver callee shape scope receiver arguments) (fun _ _ => True) := by
  unfold bindReceiver
  split
  · exact .pure trivial
  · refine .graph_bind ?_
    extract_lets rest
    have hrest : ∀ state, Agree context state (rest ()) (rest ()) (fun _ _ => True) := by
      intro state
      dsimp only [rest]
      split
      · refine (agree_joins fun bound => grows_array _ bound arguments).bind fun _ _ _ _ => ?_
        exact agree_bind callee _ _
      · exact .pure trivial
    split
    · exact (agree_bind callee _ receiver).bind fun _ next _ _ => hrest next
    · exact hrest state

theorem agree_bindOwnName (callee : FrameId) (shape : FunctionShape) (scope : ScopeId)
    (function : Ty) :
    Agree context state (bindOwnName callee shape scope function)
      (bindOwnName callee shape scope function) (fun _ _ => True) := by
  refine .graph_bind (.ite (fun _ => ?_) fun _ => .pure trivial)
  split
  · exact .ite (fun _ => agree_bind callee _ function) fun _ => .pure trivial
  · exact .pure trivial

theorem agree_bindParameters (callee : FrameId) (parameters : List NodeId) (arguments : List Ty) :
    Agree context state (bindParameters callee parameters arguments)
      (bindParameters callee parameters arguments) (fun _ _ => True) := by
  induction parameters generalizing state arguments with
  | nil => exact .pure trivial
  | cons parameter rest ih =>
      refine .graph_bind ?_
      extract_lets others
      split
      · extract_lets binds
        split
        · exact (agree_bind callee _ _).bind fun _ _ _ _ => ih _
        · refine (agree_types_of_grows (grows_undefined _)).bind fun _ _ _ _ => ?_
          exact (agree_bind callee _ _).bind fun _ _ _ _ => ih _
      · exact ih _

/-! ## Bodies -/

/-- The body of a function is followed in a frame of the function's scope. -/
theorem agree_runBody (hsound : context.Sound) (heval : eval.Agrees context depth other)
    {callee node : Nat} (hinside : Inside context state depth callee node) {shape : FunctionShape}
    (hshape : context.tree.kind node = .function shape) :
    Agree context state (runBody eval callee shape) (runBody other callee shape)
      (fun _ _ => True) := by
  have hbody : Places context state depth callee shape.body
      (if shape.expressionBody then .expression else .statement) := by
    refine hinside.part hsound ?_
    rw [hshape]
    exact List.mem_append_right _ (List.mem_singleton.mpr rfl)
  unfold runBody
  split
  · rename_i hexpression
    rw [if_pos hexpression] at hbody
    exact heval.expression_of_places hbody
  · rename_i hstatement
    rw [if_neg hstatement] at hbody
    refine (heval.statement_of_places hbody).bind fun _ next _ _ => ?_
    refine (agree_frames fun hlawful => FrameM.succeeds_frameOf hlawful callee).bind
      fun _ _ _ _ => ?_
    exact agree_joinOr _ grows_undefined

theorem inside_callee (hlawful : next.Lawful context) {callee node : Nat}
    (hcalls : Calls context state depth frame site) (hnode : node < context.tree.size)
    (hlt : callee < next.frames.frames.size)
    (hscope : (next.frames.frame callee).scope = context.graph.scopeOf node)
    (hcallee : next.frames.calls callee = node :: state.frames.calls frame) :
    Inside context next depth callee node := by
  refine ⟨hlt, hnode, hscope, Nat.le_trans ?_ hcalls.nesting_le⟩
  have hbound := hlawful.frames.length_calls_le hlt
  have hfunctions := context.tree.length_functions_le
  rw [hcallee, List.length_cons] at hbound ⊢
  exact nesting_call_le (by omega) hnode

theorem agree_enterFunction (hsound : context.Sound) (heval : eval.Agrees context depth other)
    (hcalls : Calls context state depth frame site) (function : Ty) {callable : Callable}
    (hcallable : callable.Lawful context state.frames) {origin : Nat}
    (horigin : callable.origin = some origin) (receiver : Ty) (arguments : List Ty) :
    Agree context state
      (enterFunction eval frame site function callable.function origin receiver arguments)
      (enterFunction other frame site function callable.function origin receiver arguments)
      (fun _ _ => True) := by
  obtain ⟨horiginLt, hscope⟩ := hcallable.origin origin horigin
  unfold enterFunction
  refine (agree_frames fun hlawful => FrameM.succeeds_detectRecursion hlawful frame
    callable.function).bind fun found checked hchecked hfound => ?_
  split
  · exact agree_types_of_grows (grows_unknown _)
  · rename_i hfresh
    have hnew : callable.function ∉ checked.frames.calls frame := by
      rw [hchecked.calls hcalls.meets.frame_lt]
      exact hfound (by simpa using hfresh)
    refine .tree_bind (.graph_bind ?_)
    cases hshape : context.tree.function? callable.function with
    | none =>
        have hfunction := hcallable.function
        rw [hshape] at hfunction
        cases hfunction
    | some shape =>
        dsimp only
        have hmeets := hcalls.meets.later hchecked
        refine (agree_frames fun hlawful => FrameM.succeeds_enterCallee hlawful hsound.graph
          hmeets.frame_lt hmeets.node_lt hcalls.invocation hmeets.scope
          (Nat.lt_of_lt_of_le horiginLt hchecked.size_le) hcallable.node_lt hcallable.function
          (by rw [hchecked.scope horiginLt, hscope]) hnew).bind fun callee entered _ hentered => ?_
        obtain ⟨hlt, hcalleeScope, hcalleeCalls⟩ := hentered
        refine .of_lawful fun hlawful => ?_
        have hinside : Inside context entered depth callee callable.function :=
          inside_callee hlawful (hcalls.later hchecked) hcallable.node_lt hlt hcalleeScope
            hcalleeCalls
        refine (agree_bindReceiver callee shape _ receiver arguments).bind
          fun _ bound hbound _ => ?_
        refine (agree_bindOwnName callee shape _ function).bind fun _ named hnamed _ => ?_
        refine (agree_bindParameters callee shape.parameters arguments).bind
          fun _ ready hready _ => ?_
        have hkind := Tree.function?_eq_some_iff.mp hshape
        refine (agree_runBody hsound heval
          (hinside.later ((hbound.trans hnamed).trans hready)) hkind).bind fun _ _ _ _ => ?_
        refine (agree_frames fun hlawful => FrameM.succeeds_frameOf hlawful callee).bind
          fun _ _ _ _ => ?_
        split
        · exact agree_joins fun bound => grows_widen _ bound _
        · exact .pure trivial

/-! ## Splitting and calling -/

theorem agree_splitArguments {enter enter' : List Ty → CheckM Ty}
    (h : ∀ arguments next, state.frames.Extends next.frames →
      Agree context next (enter arguments) (enter' arguments) (fun _ _ => True))
    (chosen arguments : List Ty) :
    Agree context state (splitArguments enter chosen arguments)
      (splitArguments enter' chosen arguments) (fun _ _ => True) := by
  induction arguments generalizing state chosen with
  | nil => exact h _ state (.refl _)
  | cons argument rest ih =>
      cases argument with
      | plain id => exact ih h _
      | union variants =>
          refine Agree.bind (.mapM fun id _ next hnext => ?_) fun _ _ _ _ =>
            agree_joinOr _ grows_unknown
          exact ih (fun arguments after hafter => h arguments after (hnext.trans hafter)) _

theorem agree_invokePlain (hsound : context.Sound) (heval : eval.Agrees context depth other)
    (hcalls : Calls context state depth frame site) (receiver : Ty)
    (arguments : List Ty) (id : TypeId) :
    Agree context state (invokePlain eval frame site receiver arguments id)
      (invokePlain other frame site receiver arguments id) (fun _ _ => True) := by
  unfold invokePlain
  have hcallable : Agree context state (types (Ty.plain id).callable?)
    (types (Ty.plain id).callable?)
      (fun found _ => ∀ callable, found = some callable →
        callable.Lawful context state.frames) := by
    have hgrows : (Ty.plain id).callable?.GrowsFrom (fun _ => False) state.types :=
      grows_callable? _ _
    refine agree_types hgrows (fun _ hfalse => hfalse.elim) ?_
    exact fun hlawful callable hfound => hlawful.callable id callable hfound
  refine hcallable.bind fun found read hread hfound => ?_
  split
  · rename_i tag node origin
    have hlawful := (hfound ⟨tag, node, some origin⟩ rfl).of_extends hread
    refine agree_splitArguments (fun arguments next hnext => ?_) [] arguments
    exact agree_enterFunction hsound heval ((hcalls.later hread).later hnext) _
      (hlawful.of_extends hnext) rfl receiver arguments
  · exact agree_types_of_grows (grows_unknown _)
  · refine (agree_types_of_grows (follows_isNot _ _ .function)).bind fun _ next hnext _ => ?_
    split
    · refine (agree_types_of_grows (grows_display _ _)).bind fun _ _ hshown _ => ?_
      have hreport := hcalls.meets.later ((hread.trans hnext).trans hshown)
      exact (agree_report hreport fun h => (by cases h)).bind
        fun _ _ _ _ => agree_types_of_grows (grows_unknown _)
    · exact agree_types_of_grows (grows_unknown _)

theorem agree_invoke (hsound : context.Sound) (heval : eval.Agrees context depth other)
    (hcalls : Calls context state depth frame site) (function receiver : Ty)
    (arguments : List Ty) :
    Agree context state (invoke eval frame site function receiver arguments)
      (invoke other frame site function receiver arguments) (fun _ _ => True) := by
  refine Agree.bind (.mapM fun id _ next hnext => ?_) fun _ _ _ _ => agree_joinOr _ grows_unknown
  exact agree_invokePlain hsound heval (hcalls.later hnext) receiver arguments id

theorem agree_instantiate (id : TypeId) :
    Agree context state (instantiate id) (instantiate id) (fun _ _ => True) := by
  refine (agree_ofValue _).bind fun key _ _ _ => ?_
  refine (agree_joins fun bound => grows_member? _ bound _ key).bind fun _ _ _ _ => ?_
  split
  · refine agree_types_of_grows ?_
    exact (grows_members _ _).bind fun _ next _ => grows_object next _
  · exact agree_types_of_grows (grows_object _ [])

theorem agree_construct (hsound : context.Sound) (heval : eval.Agrees context depth other)
    (hcalls : Calls context state depth frame site) (function : Ty)
    (arguments : List Ty) :
    Agree context state (construct eval frame site function arguments)
      (construct other frame site function arguments) (fun _ _ => True) := by
  have hconstructor : Agree context state (constructor? function) (constructor? function)
      (fun _ _ => True) :=
    (agree_types_of_grows (.of_same rfl)).bind fun _ _ _ _ => .pure trivial
  refine hconstructor.bind fun _ found hfound _ => ?_
  split
  · refine (agree_types_of_grows (grows_unknown _)).bind fun _ next hnext _ => ?_
    refine (agree_invoke hsound heval ((hcalls.later hfound).later hnext) function _
      arguments).bind fun _ _ _ _ => ?_
    exact agree_types_of_grows (grows_unknown _)
  · rename_i id
    refine (agree_instantiate id).bind fun _ next hnext _ => ?_
    refine (agree_invoke hsound heval ((hcalls.later hfound).later hnext) function _
      arguments).bind fun result _ _ _ => ?_
    refine ((agree_kindsOf result).bind fun _ _ _ _ => .pure trivial : Agree context _
      (isReference result) (isReference result) (fun _ _ => True)).bind fun _ _ _ _ => ?_
    split <;> exact .pure trivial

end ScriptCheck.Check
