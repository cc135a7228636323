import ScriptCheck.Check.Expression
import ScriptCheck.Proofs.Check.Call

/-!
# Expressions without faults

Every expression of a tree can be followed in a frame of the scope around it, given that
the nodes below it can.
-/

namespace ScriptCheck.Check

open CheckM Ty ScopeGraph

variable {context : CheckContext} {state next : CheckState} {depth frame node : Nat}
  {eval other : Evaluator}

/-- A function is made in a frame of the scope around it. -/
theorem agree_closure (hfits : Fits context state depth frame node) {shape : FunctionShape}
    (hkind : context.tree.kind node = .function shape) :
    Agree context state (closure frame node) (closure frame node) (fun _ _ => True) := by
  let made : Callable → Prop := fun callable =>
    callable.function = node ∧ callable.origin = some frame
  have hgrows : TypeM.GrowsFrom made state.types (do
      let tag ← TypeStore.freshTag
      Ty.function ⟨tag, node, some frame⟩) :=
    (grows_freshTag _).bind fun _ next _ => grows_function next ⟨rfl, rfl⟩
  have hscope : (context.graph.scope (context.graph.scopeOf node)).parent =
      some (state.frames.frame frame).scope := by
    have hstands := hfits.stands
    unfold StandsIn IsInside at hstands
    rwa [hkind] at hstands
  refine agree_types hgrows (fun callable hmade => ?_) fun _ => trivial
  obtain ⟨rfl, horigin⟩ := hmade
  refine ⟨hfits.node_lt, ?_, fun origin hsame => ?_⟩
  · rw [Tree.function?, hkind]
    rfl
  · rw [horigin] at hsame
    cases hsame
    exact ⟨hfits.frame_lt, hscope⟩

theorem agree_objectMembers (hsound : context.Sound) (heval : eval.Agrees context depth other)
    (properties : List NodeId)
    (hproperties : ∀ property ∈ properties, Places context state depth frame property .property)
    (members : List (String × Ty)) :
    Agree context state (objectMembers eval frame node properties members)
      (objectMembers other frame node properties members) (fun _ _ => True) := by
  induction properties generalizing state members with
  | nil => exact .pure trivial
  | cons property rest ih =>
      refine .tree_bind ?_
      have hproperty := hproperties property List.mem_cons_self
      cases hkind : context.tree.kind property with
      | property key value =>
          have hinside := hproperty.inside (by rw [hkind]; rfl)
          have hvalue : Places context state depth frame value .expression :=
            hinside.part hsound (by rw [hkind]; exact List.mem_singleton.mpr rfl)
          refine (heval.expression_of_places hvalue).bind fun _ next hnext _ => ?_
          exact ih (fun other hother =>
            (hproperties other (List.mem_cons_of_mem _ hother)).later hnext) _
      | _ =>
          have hsuits := hproperty.suits
          rw [hkind] at hsuits
          cases hsuits

theorem agree_memberKey (heval : eval.Agrees context depth other) (key : MemberKey)
    (hkey : ∀ computed, key = .computed computed →
      Places context state depth frame computed .expression) :
    Agree context state (memberKey eval frame key) (memberKey other frame key)
      (fun _ _ => True) := by
  cases key with
  | named name => exact agree_ofValue (.string name)
  | computed key => exact heval.expression_of_places (hkey key rfl)

theorem agree_logical (heval : eval.Agrees context depth other) (op : LogicalOp)
    {left right : Nat} (hleft : Places context state depth frame left .expression)
    (hright : Places context state depth frame right .expression) :
    Agree context state (logical eval frame op left right) (logical other frame op left right)
      (fun _ _ => True) := by
  refine (heval.expression_of_places hleft).bind fun leftType next hnext _ => ?_
  refine (agree_outcome? leftType).bind fun outcome known hknown _ => ?_
  have hright := hright.later (hnext.trans hknown)
  split
  · exact .pure trivial
  · exact .pure trivial
  · exact heval.expression_of_places hright
  · refine (heval.expression_of_places hright).bind fun rightType _ _ _ => ?_
    exact agree_joins fun bound => grows_join _ bound _ _

theorem agree_conditional (heval : eval.Agrees context depth other)
    {test consequent alternate : Nat} (htest : Places context state depth frame test .expression)
    (hconsequent : Places context state depth frame consequent .expression)
    (halternate : Places context state depth frame alternate .expression) :
    Agree context state (conditional eval frame test consequent alternate)
      (conditional other frame test consequent alternate) (fun _ _ => True) := by
  refine (heval.expression_of_places htest).bind fun testType next hnext _ => ?_
  refine (agree_outcome? testType).bind fun outcome known hknown _ => ?_
  have hconsequent := hconsequent.later (hnext.trans hknown)
  have halternate := halternate.later (hnext.trans hknown)
  split
  · exact heval.expression_of_places hconsequent
  · exact heval.expression_of_places halternate
  · refine (heval.expression_of_places hconsequent).bind fun _ after hafter _ => ?_
    refine (heval.expression_of_places (halternate.later hafter)).bind fun _ _ _ _ => ?_
    exact agree_joins fun bound => grows_join _ bound _ _

theorem agree_initialiser (heval : eval.Agrees context depth other)
    (hnode : Places context state depth frame node .expression) :
    Agree context state (initialiser eval frame node) (initialiser other frame node)
      (fun _ _ => True) := by
  refine (heval.expression_of_places hnode).bind fun ty _ _ _ => .read_bind ?_
  refine (agree_types_of_grows (grows_isConstant _ ty)).bind fun _ _ _ _ => ?_
  split
  · exact .pure trivial
  · refine (agree_tryFold node).bind fun _ _ _ _ => ?_
    split
    · exact .ite (fun _ => agree_types_of_grows (grows_toConstant _ ty _)) fun _ => .pure trivial
    · exact .pure trivial

/-! ## Assignments -/

theorem places_of_member (hsound : context.Sound) (hinside : Inside context state depth frame node)
    {owner : NodeId} {key : MemberKey} (hkind : context.tree.kind node = .member owner key) :
    Places context state depth frame owner .expression ∧
      ∀ computed, key = .computed computed →
        Places context state depth frame computed .expression := by
  refine ⟨hinside.part hsound ?_, ?_⟩
  · rw [hkind]
    cases key <;> exact List.mem_cons_self
  · rintro computed rfl
    refine hinside.part hsound ?_
    rw [hkind]
    exact List.mem_cons_of_mem _ List.mem_cons_self

theorem agree_targetPlace (hsound : context.Sound) (heval : eval.Agrees context depth other)
    {target : Nat} (htarget : Places context state depth frame target .target) :
    Agree context state (targetPlace eval frame target) (targetPlace other frame target)
      (fun _ _ => True) := by
  refine .tree_bind ?_
  rcases htarget.target_cases with ⟨name, hkind⟩ | ⟨owner, key, hkind⟩
  · rw [hkind]
    exact .pure trivial
  · have hinside := htarget.inside htarget.opensScope_of_target
    obtain ⟨howner, hkey⟩ := places_of_member hsound hinside hkind
    rw [hkind]
    refine (heval.expression_of_places howner).bind fun _ next hnext _ => ?_
    refine (agree_memberKey heval key fun computed hcomputed =>
      (hkey computed hcomputed).later hnext).bind fun _ _ _ _ => ?_
    exact .pure trivial

theorem agree_assignedType (heval : eval.Agrees context depth other)
    (hmeets : context.Meets state.frames frame node) (op : AssignOp) {target value : Nat}
    (htarget : Places context state depth frame target .target)
    (hvalue : Places context state depth frame value .expression) (place : Place) :
    Agree context state (assignedType eval frame node op target value place)
      (assignedType other frame node op target value place) (fun _ _ => True) := by
  unfold assignedType
  split
  · exact agree_initialiser heval hvalue
  · rename_i operation _
    cases place with
    | member owner key =>
        have hread := (htarget.inside htarget.opensScope_of_target).meets
          htarget.opensScope_of_target
        refine (agree_readMember hread owner key).bind fun _ next hnext _ => ?_
        refine (heval.expression_of_places (hvalue.later hnext)).bind fun _ _ hlast _ => ?_
        exact agree_applyBinary (hmeets.later (hnext.trans hlast)) operation _ _
    | name =>
        refine (heval.expression_of_places htarget.expression_of_target).bind
          fun _ next hnext _ => ?_
        refine (heval.expression_of_places (hvalue.later hnext)).bind fun _ _ hlast _ => ?_
        exact agree_applyBinary (hmeets.later (hnext.trans hlast)) operation _ _

theorem agree_store (hsound : context.Sound) (hmeets : context.Meets state.frames frame node)
    {target : Nat} (htarget : Places context state depth frame target .target) (place : Place)
    (ty : Ty) :
    Agree context state (store frame node target place ty) (store frame node target place ty)
      (fun _ _ => True) := by
  cases place with
  | member owner key => exact agree_writeMember hmeets owner key ty
  | name =>
      refine .graph_bind ?_
      split
      · rename_i symbol hsymbol
        have hinside := htarget.inside htarget.opensScope_of_target
        have hvisible := hsound.graph.resolves target symbol hsymbol
        rw [← hinside.scope] at hvisible
        exact .ite (fun _ => agree_writeName hsound hinside.frame_lt target hvisible ty)
          fun _ => .pure trivial
      · exact .pure trivial

theorem agree_assignment (hsound : context.Sound) (heval : eval.Agrees context depth other)
    (hmeets : context.Meets state.frames frame node) (op : AssignOp) {target value : Nat}
    (htarget : Places context state depth frame target .target)
    (hvalue : Places context state depth frame value .expression) :
    Agree context state (assignment eval frame node op target value)
      (assignment other frame node op target value) (fun _ _ => True) := by
  refine (agree_targetPlace hsound heval htarget).bind fun place found hfound _ => ?_
  refine (agree_assignedType heval (hmeets.later hfound) op (htarget.later hfound)
    (hvalue.later hfound) place).bind fun ty typed htyped _ => .read_bind ?_
  extract_lets stores
  have hstores : ∀ state, typed.frames.Extends state.frames →
      Agree context state (stores ()) (stores ()) (fun _ _ => True) := by
    intro state hstate
    have hextends := (hfound.trans htyped).trans hstate
    refine (agree_store hsound (hmeets.later hextends) (htarget.later hextends) place ty).bind
      fun _ _ _ _ => ?_
    exact .pure trivial
  split
  · refine (agree_types_of_grows (follows_isKind _ ty .undefined)).bind fun _ next hnext _ => ?_
    split
    · have hreport := hmeets.later ((hfound.trans htyped).trans hnext)
      exact (agree_report hreport fun h => (by cases h)).bind
        fun _ last hlast _ => hstores last (hnext.trans hlast)
    · exact hstores next hnext
  · exact hstores typed (.refl _)

/-! ## Calls and the rule -/

theorem agree_call (hsound : context.Sound) (heval : eval.Agrees context depth other)
    (hcalls : Calls context state depth frame node) {callee : Nat} {arguments : List NodeId}
    (hcallee : Places context state depth frame callee .expression)
    (harguments : ∀ argument ∈ arguments,
      Places context state depth frame argument .expression) :
    Agree context state (call eval frame node callee arguments)
      (call other frame node callee arguments) (fun _ _ => True) := by
  have hinvoke : ∀ {next : CheckState}, state.frames.Extends next.frames →
      ∀ function receiver : Ty, Agree context next
        (arguments.mapM (eval.expression frame) >>= invoke eval frame node function receiver)
        (arguments.mapM (other.expression frame) >>= invoke other frame node function receiver)
        (fun _ _ => True) := by
    intro next hnext function receiver
    refine Agree.bind (.mapM fun argument hargument after hafter => ?_) fun types last hlast _ => ?_
    · exact heval.expression_of_places ((harguments argument hargument).later (hnext.trans hafter))
    · exact agree_invoke hsound heval ((hcalls.later hnext).later hlast) function receiver types
  refine .tree_bind ?_
  split
  · rename_i owner key hkind
    have hinside := hcallee.inside (by rw [hkind]; rfl)
    obtain ⟨howner, hkey⟩ := places_of_member hsound hinside hkind
    refine (heval.expression_of_places howner).bind fun receiver owned howned _ => ?_
    refine (agree_memberKey heval key fun computed hcomputed =>
      (hkey computed hcomputed).later howned).bind fun keyType keyed hkeyed _ => ?_
    have hread := (hinside.meets (by rw [hkind]; rfl)).later (howned.trans hkeyed)
    refine (agree_readMember hread receiver keyType).bind fun function next hnext _ => ?_
    exact hinvoke ((howned.trans hkeyed).trans hnext) function receiver
  · refine (agree_types_of_grows (grows_undefined _)).bind fun receiver started hstarted _ => ?_
    refine (heval.expression_of_places (hcallee.later hstarted)).bind
      fun function next hnext _ => ?_
    exact hinvoke (hstarted.trans hnext) function receiver

theorem agree_newObject (hsound : context.Sound) (heval : eval.Agrees context depth other)
    (hcalls : Calls context state depth frame node) {callee : Nat} {arguments : List NodeId}
    (hcallee : Places context state depth frame callee .expression)
    (harguments : ∀ argument ∈ arguments,
      Places context state depth frame argument .expression) :
    Agree context state (newObject eval frame node callee arguments)
      (newObject other frame node callee arguments) (fun _ _ => True) := by
  refine (heval.expression_of_places hcallee).bind fun function next hnext _ => ?_
  refine Agree.bind (.mapM fun argument hargument after hafter => ?_) fun types last hlast _ => ?_
  · exact heval.expression_of_places ((harguments argument hargument).later (hnext.trans hafter))
  · exact agree_construct hsound heval ((hcalls.later hnext).later hlast) function types

/-- The type of an expression can be found, given that of the nodes below it. -/
theorem agree_expressionRule (hsound : context.Sound) (heval : eval.Agrees context depth other)
    (hfits : Fits context state (depth + 1) frame node)
    (hexpression : (context.tree.kind node).isExpression) :
    Agree context state (expressionRule eval frame node) (expressionRule other frame node)
      (fun _ _ => True) := by
  refine .tree_bind ?_
  generalize hkind : context.tree.kind node = kind at hexpression
  have hinside : kind.opensScope = false → Inside context state depth frame node := by
    intro hopens
    exact hfits.inside (by rw [hkind, hopens])
  have hmeets : kind.opensScope = false → context.Meets state.frames frame node := by
    intro hopens
    exact (hinside hopens).meets (by rw [hkind, hopens])
  have hpart : kind.opensScope = false → ∀ {part : Nat} {sort : Part}, (part, sort) ∈ kind.parts →
      Places context state depth frame part sort := by
    intro hopens part sort hmem
    exact (hinside hopens).part hsound (by rw [hkind]; exact hmem)
  cases kind with
  | literal literal => exact agree_ofValue _
  | identifier name => exact agree_readName hsound hfits.frame_lt (hinside rfl).scope
  | thisExpr => exact agree_readName hsound hfits.frame_lt (hinside rfl).scope
  | array elements =>
      refine Agree.bind (.mapM fun element hmem next hnext => ?_) fun types _ _ _ =>
        agree_joins fun bound => grows_array _ bound types
      exact heval.expression_of_places ((hpart rfl (List.mem_map_of_mem hmem)).later hnext)
  | object properties =>
      refine (agree_objectMembers hsound heval properties (fun property hmem =>
        hpart rfl (List.mem_map_of_mem hmem)) []).bind fun members _ _ _ => ?_
      exact agree_types_of_grows (grows_object _ members)
  | function shape => exact agree_closure hfits hkind
  | unary op argument =>
      refine (heval.expression_of_places (hpart rfl List.mem_cons_self)).bind fun ty _ hnext _ => ?_
      exact agree_applyUnary ((hmeets rfl).later hnext) op ty
  | binary op left right =>
      refine (heval.expression_of_places (hpart rfl List.mem_cons_self)).bind
        fun leftType next hnext _ => ?_
      refine (heval.expression_of_places ((hpart rfl
        (List.mem_cons_of_mem _ List.mem_cons_self)).later hnext)).bind
          fun rightType _ hlast _ => ?_
      exact agree_applyBinary ((hmeets rfl).later (hnext.trans hlast)) op leftType rightType
  | logical op left right =>
      exact agree_logical heval op (hpart rfl List.mem_cons_self)
        (hpart rfl (List.mem_cons_of_mem _ List.mem_cons_self))
  | assign op target value =>
      exact agree_assignment hsound heval (hmeets rfl) op (hpart rfl List.mem_cons_self)
        (hpart rfl (List.mem_cons_of_mem _ List.mem_cons_self))
  | conditional test consequent alternate =>
      exact agree_conditional heval (hpart rfl List.mem_cons_self)
        (hpart rfl (List.mem_cons_of_mem _ List.mem_cons_self))
        (hpart rfl (List.mem_cons_of_mem _ (List.mem_cons_of_mem _ List.mem_cons_self)))
  | call callee arguments =>
      exact agree_call hsound heval ((hinside rfl).calls (by rw [hkind]; rfl))
        (hpart rfl List.mem_cons_self)
        fun argument hmem => hpart rfl (List.mem_cons_of_mem _ (List.mem_map_of_mem hmem))
  | newExpr callee arguments =>
      exact agree_newObject hsound heval ((hinside rfl).calls (by rw [hkind]; rfl))
        (hpart rfl List.mem_cons_self)
        fun argument hmem => hpart rfl (List.mem_cons_of_mem _ (List.mem_map_of_mem hmem))
  | member owner key =>
      obtain ⟨howner, hkey⟩ := places_of_member hsound (hinside rfl) hkind
      refine (heval.expression_of_places howner).bind fun ownerType next hnext _ => ?_
      refine (agree_memberKey heval key fun computed hcomputed =>
        (hkey computed hcomputed).later hnext).bind fun keyType _ hlast _ => ?_
      exact agree_readMember ((hmeets rfl).later (hnext.trans hlast)) ownerType keyType
  | sequence expressions =>
      refine (agree_types_of_grows (grows_undefined _)).bind fun _ started hstarted _ => ?_
      refine .foldlM fun _ expression hmem next hnext => ?_
      exact heval.expression_of_places
        ((hpart rfl (List.mem_map_of_mem hmem)).later (hstarted.trans hnext))
  | _ => cases hexpression

end ScriptCheck.Check
