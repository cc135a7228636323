import ScriptCheck.Check.Statement
import ScriptCheck.Proofs.Check.Follow

/-!
# What leaves the frames as they are

Operators, members and joins make types and reports of types that are already there.  They
leave the frames as they are; so does folding.
-/

namespace ScriptCheck

def CheckState.SameFrames (before after : CheckState) : Prop := after.frames = before.frames

instance : IsPreorder CheckState CheckState.SameFrames where
  refl _ := rfl
  trans _ _ _ hfirst hnext := Eq.trans hnext hfirst

namespace CheckM

variable {α β : Type}

def Still (computation : CheckM α) : Prop :=
  ∀ context state result next, computation context state = .ok (result, next) →
    next.frames = state.frames

namespace Still

open CheckState (SameFrames)

theorem pure (result : α) : Still (Pure.pure result) := Follows.pure (R := SameFrames) result

theorem throw (halt : Halt) : Still (MonadExcept.throw halt : CheckM α) :=
  Follows.throw (R := SameFrames) halt

theorem bind {computation : CheckM α} {f : α → CheckM β} (h : Still computation)
    (hrest : ∀ result, Still (f result)) : Still (computation >>= f) :=
  Follows.bind (R := SameFrames) h hrest

theorem ite {c : Prop} [Decidable c] {first second : CheckM α} (h : Still first)
    (h' : Still second) : Still (if c then first else second) :=
  Follows.ite (R := SameFrames) h h'

theorem tree_bind {f : Tree → CheckM β} (h : ∀ tree, Still (f tree)) : Still (tree >>= f) :=
  Follows.tree_bind (R := SameFrames) h

theorem types (computation : TypeM α) : Still (CheckM.types computation) :=
  fun _ _ _ _ hended => by cases hended; rfl

theorem joins (computation : Nat → JoinM α) : Still (CheckM.joins computation) :=
  fun _ _ _ _ hended => by rw [(run_of_joins hended).2]

theorem tryFold (node : NodeId) : Still (CheckM.tryFold node) :=
  fun _ _ _ _ hended => by cases hended; rfl

theorem report (frame : FrameId) (node : NodeId) (problem : Problem) :
    Still (CheckM.report frame node problem) :=
  fun _ _ _ _ hended => by cases hended; rfl

theorem fail (cause : Fault.Cause) (node : NodeId) : Still (CheckM.fail cause node : CheckM α) :=
  .tree_bind fun _ => .throw _

theorem unsupported (node : NodeId) : Still (CheckM.unsupported node : CheckM α) :=
  .tree_bind fun _ => .fail _ node

theorem missingChild (node : NodeId) (child : String) :
    Still (CheckM.missingChild node child : CheckM α) :=
  .tree_bind fun _ => .fail _ node

end Still

end CheckM

namespace Check

open CheckM

theorem still_outcome? (ty : Ty) : Still (outcome? ty) :=
  (Still.types _).bind fun _ => .pure _

theorem still_kindsOf (ty : Ty) : Still (kindsOf ty) :=
  (Still.types _).bind fun _ => .pure _

theorem still_hasKindOutside (ty : Ty) (kinds : List Kind) : Still (hasKindOutside ty kinds) :=
  (still_kindsOf ty).bind fun _ => .pure _

theorem still_isNullish (ty : Ty) : Still (isNullish ty) :=
  (still_kindsOf ty).bind fun _ => .pure _

theorem still_isString (ty : Ty) : Still (isString ty) :=
  (Still.types _).bind fun _ => .pure _

theorem still_isNotNumber (ty : Ty) : Still (isNotNumber ty) := .types _

theorem still_operandCheck (category : OperatorCategory) (left right : Ty) :
    Still (operandCheck category left right) := by
  have hgeneral : ∀ (clash : Bool) (result : TypeM Ty), Still (do return (clash, ← types result)) :=
    fun _ _ => (Still.types _).bind fun _ => .pure _
  cases category with
  | addition =>
      refine (still_isString left).bind fun _ => (still_isString right).bind fun _ =>
        .ite (hgeneral _ _) ?_
      exact (still_isNotNumber left).bind fun _ => (still_isNotNumber right).bind fun _ =>
        .ite (hgeneral _ _) (hgeneral _ _)
  | equality =>
      refine (still_isNullish left).bind fun _ => (still_isNullish right).bind fun _ => ?_
      extract_lets nullish rest
      split
      · exact (Still.pure _).bind fun _ => hgeneral _ _
      · exact (Still.types _).bind fun _ => hgeneral _ _
  | comparison =>
      refine (still_hasKindOutside left _).bind fun _ =>
        (still_hasKindOutside right _).bind fun _ => ?_
      extract_lets outside rest
      split
      · exact (Still.pure _).bind fun _ => hgeneral _ _
      · exact (Still.types _).bind fun _ => hgeneral _ _
  | numeric =>
      exact (still_isNotNumber left).bind fun _ => (still_isNotNumber right).bind
        fun _ => hgeneral _ _
  | membership =>
      exact (still_hasKindOutside left _).bind fun _ => (still_hasKindOutside right _).bind
        fun _ => hgeneral _ _
  | instance_ => exact (still_hasKindOutside right _).bind fun _ => hgeneral _ _

theorem still_applyBinary (frame : FrameId) (node : NodeId) (op : BinaryOp) (left right : Ty) :
    Still (applyBinary frame node op left right) := by
  refine (still_operandCheck op.category left right).bind fun checked => ?_
  obtain ⟨clash, general⟩ := checked
  dsimp -zeta only
  extract_lets rest
  have hresult : Still (rest ()) := by
    refine (Still.types _).bind fun _ => (Still.types _).bind fun _ => ?_
    split
    · split
      · exact .types _
      · exact .pure _
    · exact .pure _
  split
  · exact (Still.types _).bind fun _ => (Still.types _).bind fun _ =>
      (Still.report frame node _).bind fun _ => hresult
  · exact hresult

theorem still_applyUnary (frame : FrameId) (node : NodeId) (op : UnaryOp) (argument : Ty) :
    Still (applyUnary frame node op argument) := by
  unfold applyUnary
  split
  · refine (Still.types _).bind fun _ => ?_
    split <;> exact .types _
  · refine (still_outcome? argument).bind fun _ => ?_
    split <;> exact .types _
  · exact .types _
  · exact .types _
  all_goals
    refine (still_isNotNumber argument).bind fun _ => ?_
    extract_lets rest
    have hresult : Still (rest ()) := by
      refine (Still.types _).bind fun _ => ?_
      split <;> exact .types _
    split
    · exact (Still.report frame node _).bind fun _ => hresult
    · exact hresult

theorem still_readMember (frame : FrameId) (node : NodeId) (owner key : Ty) :
    Still (readMember frame node owner key) := by
  refine (Still.types _).bind fun _ => .ite ?_ ?_
  · exact (Still.types _).bind fun _ => (Still.types _).bind fun _ =>
      (Still.report frame node _).bind fun _ => .types _
  · refine (Still.joins _).bind fun _ => ?_
    split
    · exact .pure _
    · exact .types _

theorem still_writeMember (frame : FrameId) (node : NodeId) (owner key value : Ty) :
    Still (writeMember frame node owner key value) := by
  refine (Still.types _).bind fun _ => .ite (.report frame node _) ?_
  exact (Still.types _).bind fun _ => .ite (.report frame node _) (.pure ())

theorem still_joinOr (results : List Ty) (otherwise : TypeM Ty) :
    Still (joinOr results otherwise) := by
  refine (Still.joins _).bind fun _ => ?_
  split
  · exact .pure _
  · exact .types _

theorem still_instantiate (id : TypeId) : Still (instantiate id) := by
  refine (Still.types _).bind fun key => (Still.joins _).bind fun prototype => ?_
  split <;> exact .types _

theorem still_constructor? (function : Ty) : Still (constructor? function) :=
  (Still.types _).bind fun _ => .pure _

theorem still_isReference (ty : Ty) : Still (isReference ty) :=
  (still_kindsOf ty).bind fun _ => .pure _

theorem still_closure (frame : FrameId) (node : NodeId) : Still (closure frame node) := .types _

end Check

end ScriptCheck
