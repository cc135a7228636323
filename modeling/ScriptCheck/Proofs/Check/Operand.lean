import ScriptCheck.Check.Operand
import ScriptCheck.Proofs.Check.Agree

/-!
# Operators, names and members without faults

None of the steps that work on types alone can end in a fault, and using a name is safe
where the name is visible.
-/

namespace ScriptCheck.Check

open CheckM Ty ScopeGraph

variable {context : CheckContext} {state : CheckState}

/-! ## Operators -/

theorem agree_outcome? (ty : Ty) :
    Agree context state (outcome? ty) (outcome? ty) (fun _ _ => True) :=
  (agree_types_of_grows (follows_constant? _ ty)).bind fun _ _ _ _ => .pure trivial

theorem agree_kindsOf (ty : Ty) :
    Agree context state (kindsOf ty) (kindsOf ty) (fun _ _ => True) :=
  (agree_types_of_grows (.of_same rfl)).bind fun _ _ _ _ => .pure trivial

theorem agree_hasKindOutside (ty : Ty) (kinds : List Kind) :
    Agree context state (hasKindOutside ty kinds) (hasKindOutside ty kinds) (fun _ _ => True) :=
  (agree_kindsOf ty).bind fun _ _ _ _ => .pure trivial

theorem agree_isNullish (ty : Ty) :
    Agree context state (isNullish ty) (isNullish ty) (fun _ _ => True) :=
  (agree_kindsOf ty).bind fun _ _ _ _ => .pure trivial

theorem agree_isString (ty : Ty) :
    Agree context state (isString ty) (isString ty) (fun _ _ => True) :=
  (agree_types_of_grows (grows_typeofName? _ ty)).bind fun _ _ _ _ => .pure trivial

theorem agree_isNotNumber (ty : Ty) :
    Agree context state (isNotNumber ty) (isNotNumber ty) (fun _ _ => True) :=
  agree_types_of_grows (follows_isNot _ ty .number)

theorem agree_incompatible (left right : Ty) :
    Agree context state (types (left.incompatible right)) (types (left.incompatible right))
      (fun _ _ => True) :=
  agree_types_of_grows (grows_incompatible _ left right)

theorem agree_operandCheck (category : OperatorCategory) (left right : Ty) :
    Agree context state (operandCheck category left right) (operandCheck category left right)
      (fun _ _ => True) := by
  have hboolean : ∀ {state : CheckState} (clash : Bool), Agree context state
      (do return (clash, ← types Ty.boolean)) (do return (clash, ← types Ty.boolean))
      (fun _ _ => True) := fun _ =>
    (agree_types_of_grows (grows_boolean _)).bind fun _ _ _ _ => .pure trivial
  cases category with
  | addition =>
      refine (agree_isString left).bind fun _ _ _ _ => (agree_isString right).bind fun _ _ _ _ => ?_
      refine .ite (fun _ => ?_) fun _ => ?_
      · exact (agree_types_of_grows (grows_string _)).bind fun _ _ _ _ => .pure trivial
      · refine (agree_isNotNumber left).bind fun _ _ _ _ =>
          (agree_isNotNumber right).bind fun _ _ _ _ => .ite (fun _ => ?_) fun _ => ?_
        · exact (agree_types_of_grows (grows_unknown _)).bind fun _ _ _ _ => .pure trivial
        · exact (agree_types_of_grows (grows_number _)).bind fun _ _ _ _ => .pure trivial
  | equality =>
      refine (agree_isNullish left).bind fun _ _ _ _ => (agree_isNullish right).bind
        fun _ _ _ _ => ?_
      extract_lets nullish rest
      split
      · exact hboolean _
      · exact (agree_incompatible left right).bind fun _ _ _ _ => hboolean _
  | comparison =>
      refine (agree_hasKindOutside left _).bind fun _ _ _ _ =>
        (agree_hasKindOutside right _).bind fun _ _ _ _ => ?_
      extract_lets outside rest
      split
      · exact hboolean _
      · exact (agree_incompatible left right).bind fun _ _ _ _ => hboolean _
  | numeric =>
      exact (agree_isNotNumber left).bind fun _ _ _ _ => (agree_isNotNumber right).bind
        fun _ _ _ _ => (agree_types_of_grows (grows_number _)).bind fun _ _ _ _ => .pure trivial
  | membership =>
      exact (agree_hasKindOutside left _).bind fun _ _ _ _ =>
        (agree_hasKindOutside right _).bind fun _ _ _ _ => hboolean _
  | instance_ => exact (agree_hasKindOutside right _).bind fun _ _ _ _ => hboolean _

theorem agree_ofValue (value : Value) :
    Agree context state (types (Ty.ofValue value)) (types (Ty.ofValue value)) (fun _ _ => True) :=
  agree_types_of_grows (grows_ofValue _ value)

theorem agree_applyBinary {frame node : Nat} (hmeets : context.Meets state.frames frame node)
    (op : BinaryOp) (left right : Ty) :
    Agree context state (applyBinary frame node op left right)
      (applyBinary frame node op left right) (fun _ _ => True) := by
  refine (agree_operandCheck op.category left right).bind fun checked next hnext _ => ?_
  obtain ⟨clash, general⟩ := checked
  dsimp -zeta only
  extract_lets rest
  have hrest : ∀ state, Agree context state (rest ()) (rest ()) (fun _ _ => True) := by
    intro state
    refine (agree_types_of_grows (follows_constant? _ left)).bind fun _ _ _ _ => ?_
    refine (agree_types_of_grows (follows_constant? _ right)).bind fun _ _ _ _ => ?_
    split
    · split
      · exact agree_ofValue _
      · exact .pure trivial
    · exact .pure trivial
  split
  · refine (agree_types_of_grows (grows_display _ left)).bind fun _ _ hleft _ => ?_
    refine (agree_types_of_grows (grows_display _ right)).bind fun _ _ hright _ => ?_
    have hreport := hmeets.later ((hnext.trans hleft).trans hright)
    exact (agree_report hreport fun h => (by cases h)).bind fun _ next _ _ => hrest next
  · exact hrest next

theorem agree_applyUnary {frame node : Nat} (hmeets : context.Meets state.frames frame node)
    (op : UnaryOp) (argument : Ty) :
    Agree context state (applyUnary frame node op argument) (applyUnary frame node op argument)
      (fun _ _ => True) := by
  unfold applyUnary
  split
  · refine (agree_types_of_grows (grows_typeofName? _ argument)).bind fun _ _ _ _ => ?_
    split
    · exact agree_ofValue _
    · exact agree_types_of_grows (grows_string _)
  · refine (agree_outcome? argument).bind fun _ _ _ _ => ?_
    split
    · exact agree_ofValue _
    · exact agree_types_of_grows (grows_boolean _)
  · exact agree_types_of_grows (grows_undefined _)
  · exact agree_types_of_grows (grows_boolean _)
  all_goals
    refine (agree_isNotNumber argument).bind fun _ next hnext _ => ?_
    extract_lets rest
    have hrest : ∀ state, Agree context state (rest ()) (rest ()) (fun _ _ => True) := by
      intro state
      refine (agree_types_of_grows (follows_constant? _ argument)).bind fun _ _ _ _ => ?_
      split
      · exact agree_ofValue _
      · exact agree_types_of_grows (grows_number _)
    split
    · exact (agree_report (hmeets.later hnext) fun h => (by cases h)).bind
        fun _ next _ _ => hrest next
    · exact hrest next

/-! ## Names and members -/

theorem agree_readName (hsound : context.Sound) {frame node : Nat}
    (hframe : frame < state.frames.frames.size)
    (hscope : (state.frames.frame frame).scope = context.graph.scopeOf node) :
    Agree context state (readName frame node) (readName frame node) (fun _ _ => True) := by
  unfold readName
  refine .tree_bind (.graph_bind ?_)
  split
  · rename_i symbol hsymbol
    have hvisible := hsound.graph.resolves node symbol hsymbol
    rw [← hscope] at hvisible
    refine (agree_frames fun hlawful => FrameM.succeeds_readName hlawful hsound.graph
      hsound.tree.opensScope_root hframe node hvisible).bind fun _ _ _ _ => ?_
    split
    · exact .pure trivial
    · exact agree_types_of_grows (grows_undefined _)
  · split
    · exact agree_types_of_grows (grows_undefined _)
    · exact agree_types_of_grows (grows_unknown _)

theorem agree_writeName (hsound : context.Sound) {frame : Nat}
    (hframe : frame < state.frames.frames.size) (node : NodeId) {symbol : SymbolId}
    (hvisible : context.graph.Visible context.options.globals (state.frames.frame frame).scope
      symbol) (ty : Ty) :
    Agree context state (writeName frame node symbol ty) (writeName frame node symbol ty)
      (fun _ _ => True) :=
  .tree_bind (.graph_bind (agree_frames fun hlawful => FrameM.succeeds_writeName hlawful
    hsound.graph hsound.tree.opensScope_root hframe node hvisible ty))

theorem agree_readMember {frame node : Nat} (hmeets : context.Meets state.frames frame node)
    (owner key : Ty) :
    Agree context state (readMember frame node owner key) (readMember frame node owner key)
      (fun _ _ => True) := by
  refine (agree_types_of_grows (grows_lacks _ owner key)).bind fun _ _ hlacks _ => ?_
  split
  · refine (agree_types_of_grows (grows_display _ key)).bind fun _ _ hkey _ => ?_
    refine (agree_types_of_grows (grows_display _ owner)).bind fun _ _ howner _ => ?_
    have hreport := hmeets.later ((hlacks.trans hkey).trans howner)
    exact (agree_report hreport fun h => (by cases h)).bind
      fun _ _ _ _ => agree_types_of_grows (grows_unknown _)
  · refine (agree_joins fun bound => grows_member? _ bound owner key).bind fun _ _ _ _ => ?_
    split
    · exact .pure trivial
    · exact agree_types_of_grows (grows_unknown _)

theorem agree_writeMember {frame node : Nat} (hmeets : context.Meets state.frames frame node)
    (owner key value : Ty) :
    Agree context state (writeMember frame node owner key value)
      (writeMember frame node owner key value) (fun _ _ => True) := by
  refine (agree_types_of_grows (grows_isMutable _ owner)).bind fun _ _ hmutable _ => ?_
  split
  · exact agree_report (hmeets.later hmutable) fun h => (by cases h)
  · refine (agree_types_of_grows (grows_trySet _ owner key value)).bind fun _ _ hset _ => ?_
    split
    · exact agree_report (hmeets.later (hmutable.trans hset)) fun h => (by cases h)
    · exact .pure trivial

theorem agree_joinOr (results : List Ty) {otherwise : TypeM Ty}
    (h : ∀ store, otherwise.GrowsFrom (fun _ => False) store) :
    Agree context state (joinOr results otherwise) (joinOr results otherwise)
      (fun _ _ => True) := by
  refine (agree_joins fun bound => grows_joinAll _ bound results).bind fun _ _ _ _ => ?_
  split
  · exact .pure trivial
  · exact agree_types_of_grows (h _)

end ScriptCheck.Check
