import ScriptCheck.Check.Program
import ScriptCheck.Proofs.Check.Follow
import ScriptCheck.Proofs.Folding.Closed
import ScriptCheck.Proofs.Grammar.Layout
import ScriptCheck.Proofs.Types.Widen

/-!
# Folding and following agree

An expression without names is settled by the text in two ways: it is folded to a value, or it
is followed like any other expression.  Wherever it is followed, its type is the type of the
value that it folds to.
-/

namespace ScriptCheck

open TypeStore

/-! ## Steps on known types -/

/-- A step on types ends without a fault and with a result as described, whatever the frames and
the diagnostics are. -/
def CheckM.Gives {α : Type} (context : CheckContext) (state : CheckState) (step : CheckM α)
    (Q : α → TypeStore → Prop) : Prop :=
  ∃ result next, step context state = .ok (result, next) ∧ Evolves state.types next.types ∧
    Q result next.types

namespace CheckM.Gives

variable {α β : Type} {context : CheckContext} {state : CheckState} {Q : α → TypeStore → Prop}
  {R : β → TypeStore → Prop}

theorem pure {result : α} (h : Q result state.types) :
    Gives context state (Pure.pure result) Q :=
  ⟨result, state, rfl, refl_of Evolves _, h⟩

theorem bind {step : CheckM α} {f : α → CheckM β} (h : Gives context state step Q)
    (hf : ∀ result next, Evolves state.types next.types → Q result next.types →
      Gives context next (f result) R) : Gives context state (step >>= f) R := by
  obtain ⟨result, next, hrun, hevolves, hQ⟩ := h
  obtain ⟨last, after, hlast, hafter, hR⟩ := hf result next hevolves hQ
  refine ⟨last, after, ?_, trans_of Evolves hevolves hafter, hR⟩
  rw [CheckM.bind_apply, hrun]
  exact hlast

theorem tree_bind {f : Tree → CheckM β} (h : Gives context state (f context.tree) R) :
    Gives context state (CheckM.tree >>= f) R :=
  h

theorem types {computation : TypeM α} (hevolves : computation.Follows Evolves state.types)
    (h : Q (computation state.types).1 (computation state.types).2) :
    Gives context state (CheckM.types computation) Q :=
  ⟨_, _, rfl, hevolves, h⟩

theorem types_bind {computation : TypeM α} {f : α → CheckM β}
    (hevolves : computation.Follows Evolves state.types)
    (h : Gives context { state with types := (computation state.types).2 }
      (f (computation state.types).1) R) :
    Gives context state (CheckM.types computation >>= f) R := by
  obtain ⟨last, after, hlast, hafter, hR⟩ := h
  exact ⟨last, after, hlast, trans_of Evolves hevolves hafter, hR⟩

theorem joins {computation : Nat → JoinM α}
    (h : JoinM.Gives state.types (computation context.joinBound) Q) :
    Gives context state (CheckM.joins computation) Q := by
  obtain ⟨result, next, hrun, hevolves, hQ⟩ := h
  exact ⟨result, { state with types := next }, joins_eq_ok hrun, hevolves, hQ⟩

theorem report (frame : FrameId) (node : NodeId) (problem : Problem) :
    Gives context state (CheckM.report frame node problem) fun _ _ => True :=
  ⟨(), _, rfl, refl_of Evolves _, trivial⟩

theorem ite {c : Prop} [Decidable c] {first second : CheckM α} (h : c → Gives context state first Q)
    (h' : ¬ c → Gives context state second Q) :
    Gives context state (if c then first else second) Q := by
  split
  · exact h ‹_›
  · exact h' ‹_›

end CheckM.Gives

namespace Check

open CheckM Ty

variable {context : CheckContext} {state : CheckState} {first : Nat}

theorem gives_types_of_evolves {α : Type} {computation : TypeM α}
    (h : ∀ store, computation.Follows Evolves store) :
    Gives context state (types computation) fun _ _ => True :=
  .types (h _) trivial

theorem gives_kindsOf (ty : Ty) : Gives context state (kindsOf ty) fun _ _ => True :=
  (gives_types_of_evolves fun _ => .of_same rfl).bind fun _ _ _ _ => .pure trivial

theorem gives_hasKindOutside (ty : Ty) (kinds : List Kind) :
    Gives context state (hasKindOutside ty kinds) fun _ _ => True :=
  (gives_kindsOf ty).bind fun _ _ _ _ => .pure trivial

theorem gives_isNullish (ty : Ty) : Gives context state (isNullish ty) fun _ _ => True :=
  (gives_kindsOf ty).bind fun _ _ _ _ => .pure trivial

theorem evolves_typeofName? (store : TypeStore) (ty : Ty) :
    ty.typeofName?.Follows Evolves store := by
  refine .get_bind ?_
  split <;> exact .pure _

theorem gives_isString (ty : Ty) : Gives context state (isString ty) fun _ _ => True :=
  (gives_types_of_evolves fun store => evolves_typeofName? store ty).bind
    fun _ _ _ _ => .pure trivial

theorem gives_isNotNumber (ty : Ty) : Gives context state (isNotNumber ty) fun _ _ => True :=
  gives_types_of_evolves fun store => follows_isNot store ty .number

theorem gives_incompatible (left right : Ty) :
    Gives context state (types (left.incompatible right)) fun _ _ => True :=
  gives_types_of_evolves fun store => evolves_incompatible store left right

theorem gives_made {computation : TypeM Ty} (h : ∀ store, computation.Follows Makes store) :
    Gives context state (types computation) fun _ _ => True :=
  gives_types_of_evolves fun store => (h store).evolves

theorem gives_operandCheck (category : OperatorCategory) (left right : Ty) :
    Gives context state (operandCheck category left right) fun _ _ => True := by
  have hboolean : ∀ {state : CheckState} (clash : Bool),
      Gives context state (do return (clash, ← types Ty.boolean)) fun _ _ => True := fun _ =>
    (gives_made makes_boolean).bind fun _ _ _ _ => .pure trivial
  cases category with
  | addition =>
      refine (gives_isString left).bind fun _ _ _ _ => (gives_isString right).bind fun _ _ _ _ => ?_
      refine .ite (fun _ => ?_) fun _ => ?_
      · exact (gives_made makes_string).bind fun _ _ _ _ => .pure trivial
      · refine (gives_isNotNumber left).bind fun _ _ _ _ =>
          (gives_isNotNumber right).bind fun _ _ _ _ => .ite (fun _ => ?_) fun _ => ?_
        · exact (gives_made makes_unknown).bind fun _ _ _ _ => .pure trivial
        · exact (gives_made makes_number).bind fun _ _ _ _ => .pure trivial
  | equality =>
      refine (gives_isNullish left).bind fun _ _ _ _ => (gives_isNullish right).bind
        fun _ _ _ _ => ?_
      extract_lets nullish rest
      split
      · exact hboolean _
      · exact (gives_incompatible left right).bind fun _ _ _ _ => hboolean _
  | comparison =>
      refine (gives_hasKindOutside left _).bind fun _ _ _ _ =>
        (gives_hasKindOutside right _).bind fun _ _ _ _ => ?_
      extract_lets outside rest
      split
      · exact hboolean _
      · exact (gives_incompatible left right).bind fun _ _ _ _ => hboolean _
  | numeric =>
      exact (gives_isNotNumber left).bind fun _ _ _ _ => (gives_isNotNumber right).bind
        fun _ _ _ _ => (gives_made makes_number).bind fun _ _ _ _ => .pure trivial
  | membership =>
      exact (gives_hasKindOutside left _).bind fun _ _ _ _ =>
        (gives_hasKindOutside right _).bind fun _ _ _ _ => hboolean _
  | instance_ => exact (gives_hasKindOutside right _).bind fun _ _ _ _ => hboolean _

/-! ## Operators and members of known types -/

theorem gives_ofValue {value : Value} (hprimitive : value.isPrimitive = true)
    (hfirst : first ≤ state.types.nextTag) :
    Gives context state (types (ofValue value)) fun ty store => store.Settled first ty value :=
  .types (evolves_ofValue value) (settled_ofValue_of_isPrimitive hfirst hprimitive)

/-- The operator is applied to the known values of its operands. -/
theorem gives_applyBinary {frame node : Nat} {op : BinaryOp} {left right : Nat} {f g : Nat}
    {a b c d value : Value} (hfirst : first ≤ state.types.nextTag)
    (hleft : state.types.Shows f left a c) (hright : state.types.Shows g right b d)
    (hab : a.Apart b) (hcd : c.Apart d) (hvalue : Value.binary op a b = some value) :
    Gives context state (applyBinary frame node op (plain left) (plain right))
      fun ty store => store.Settled first ty value := by
  have hbinary : Value.binary op c d = some value := by
    rw [Value.binary_of_untagged hleft.untagged hright.untagged op hcd hab, hvalue]
  refine (gives_operandCheck op.category _ _).bind fun checked next hnext _ => ?_
  obtain ⟨clash, general⟩ := checked
  dsimp -zeta only
  extract_lets rest
  have hrest : ∀ state' : CheckState, Evolves next.types state'.types →
      Gives context state' (rest ()) fun ty store => store.Settled first ty value := by
    intro state' hstate'
    have hevolves := trans_of Evolves hnext hstate'
    have hc : constant? (plain left) state'.types = (some c, state'.types) := by
      rw [← hleft.constant, ← hevolves.later.constant hleft.lt]
      rfl
    have hd : constant? (plain right) state'.types = (some d, state'.types) := by
      rw [← hright.constant, ← hevolves.later.constant hright.lt]
      rfl
    refine .types_bind (follows_constant? _ _) (.types_bind (follows_constant? _ _) ?_)
    simp only [hc, hd, hbinary]
    exact gives_ofValue (Value.isPrimitive_of_binary hvalue)
      (Nat.le_trans hfirst hevolves.tag_le)
  split
  · refine (gives_types_of_evolves fun _ => .of_same rfl).bind fun _ second hsecond _ => ?_
    refine (gives_types_of_evolves fun _ => .of_same rfl).bind fun _ third hthird _ => ?_
    refine (Gives.report frame node _).bind fun _ last hlast _ => hrest last ?_
    exact trans_of Evolves hsecond (trans_of Evolves hthird hlast)
  · exact hrest next (refl_of Evolves _)

theorem gives_outcome? {ty : Ty} {value : Value} {f : Nat} (h : state.types.Settled f ty value) :
    Gives context state (outcome? ty) fun result _ => result = some value.truthy := by
  obtain ⟨id, constant, rfl, hshows⟩ := h.shows
  have hconstant : constant? (plain id) state.types = (some constant, state.types) := by
    rw [← hshows.constant]
    rfl
  refine .types_bind (follows_constant? _ _) (.pure ?_)
  rw [hconstant, Option.map_some, ← Value.truthy_untagged, hshows.untagged, Value.truthy_untagged]

theorem typeofName?_of_settled {store : TypeStore} {ty : Ty} {value : Value} {f : Nat}
    (h : store.Settled f ty value) : ty.typeofName? store = (some value.typeName, store) := by
  obtain ⟨id, constant, rfl, hshows⟩ := h.shows
  have hname : (store.shape id).kind.typeofName? = some value.typeName := by
    rw [hshows.kind, Value.typeofName?_kind]
  have hnames : (plain id).variants.map (fun id => (store.shape id).kind.typeofName?) =
      [some value.typeName] := by
    simp [variants, hname]
  have hstore : (get : TypeM TypeStore) store = (store, store) := rfl
  rw [typeofName?, TypeM.bind_apply, hstore]
  simp only [hnames]
  rfl

theorem constant?_of_isPrimitive {store : TypeStore} {ty : Ty} {value : Value} {f : Nat}
    (h : store.Settled f ty value) (hprimitive : value.isPrimitive = true) :
    ty.constant? store = (some value, store) := by
  obtain ⟨id, constant, rfl, hshows⟩ := h.shows
  rw [← hshows.constant_eq hprimitive, ← hshows.constant]
  rfl

/-- The operator is applied to the known value of its operand. -/
theorem gives_applyUnary {frame node : Nat} {op : UnaryOp} {ty : Ty} {f : Nat}
    {operand value : Value} (hfirst : first ≤ state.types.nextTag)
    (h : state.types.Settled f ty operand) (hvalue : Folding.foldUnary op operand = some value) :
    Gives context state (applyUnary frame node op ty)
      fun ty store => store.Settled first ty value := by
  cases op with
  | typeof =>
      cases hvalue
      refine .types_bind (evolves_typeofName? _ _) ?_
      simp only [typeofName?_of_settled h]
      exact gives_ofValue rfl hfirst
  | not =>
      cases hvalue
      refine (gives_outcome? h).bind fun truth next hnext htruth => ?_
      simp only [htruth]
      exact gives_ofValue rfl (Nat.le_trans hfirst hnext.tag_le)
  | void =>
      cases hvalue
      have hundefined : Ty.undefined = ofValue .undefined := by
        unfold ofValue
        rfl
      change Gives context state (types Ty.undefined) _
      rw [hundefined]
      exact gives_ofValue rfl hfirst
  | delete => cases hvalue
  | minus | plus | bitNot =>
      have hnumber : Folding.isNumber operand = true := by
        by_contra hnot
        rw [Folding.foldUnary, if_neg hnot] at hvalue
        cases hvalue
      rw [Folding.foldUnary, if_pos hnumber] at hvalue
      have hprimitive : operand.isPrimitive = true := by
        cases operand <;> first | rfl | cases hnumber
      refine (gives_isNotNumber ty).bind fun _ next hnext _ => ?_
      extract_lets rest
      have hrest : ∀ state' : CheckState, Evolves state.types state'.types →
          Gives context state' (rest ()) fun ty store => store.Settled first ty value := by
        intro state' hstate'
        refine .types_bind (follows_constant? _ _) ?_
        simp only [constant?_of_isPrimitive (h.of_evolves hstate') hprimitive, Option.bind_some,
          hvalue]
        exact gives_ofValue (Value.isPrimitive_of_unary hvalue)
          (Nat.le_trans hfirst hstate'.tag_le)
      split
      · exact (Gives.report frame node _).bind fun _ last hlast _ =>
          hrest last (trans_of Evolves hnext hlast)
      · exact hrest next hnext

theorem lacks_plain (id : TypeId) (key : Ty) (store : TypeStore) :
    (plain id).lacks key store = plainLacks id key store := by
  rw [lacks, variants, List.anyM, TypeM.bind_apply]
  cases hfound : (plainLacks id key store).1 <;> exact Prod.ext hfound.symm rfl

theorem gives_readMember {frame node : Nat} {owner key : Ty} {whole keyValue inner : Value}
    (hfirst : first ≤ state.types.nextTag) (howner : state.types.Settled first owner whole)
    (hkey : state.types.Settled first key keyValue)
    (hkind : keyValue.kind = .string ∨ keyValue.kind = .number)
    (hget : whole.get? keyValue.text = some inner) :
    Gives context state (readMember frame node owner key)
      fun ty store => store.Settled first ty inner := by
  obtain ⟨id, constant, rfl, -⟩ := howner.shows
  obtain ⟨hlacks, hfound⟩ := plainLacks_of_settled howner hfirst hkey hkind hget
  have hevolves : ((plain id).lacks key).Follows Evolves state.types := by
    unfold TypeM.Follows
    rw [lacks_plain]
    exact hlacks
  refine .types_bind hevolves ?_
  have hnot : ((plain id).lacks key state.types).1 = false := by rw [lacks_plain, hfound]
  rw [hnot, if_neg Bool.false_ne_true]
  obtain ⟨hmember, member, hsome, hsettled⟩ := givesMember_plainMember
    (Nat.le_trans hfirst hevolves.tag_le) (howner.of_evolves hevolves) (hkey.of_evolves hevolves)
    hkind hget
  have hread : JoinM.Gives ((plain id).lacks key state.types).2
      (member? context.joinBound (plain id) key)
      fun found store => ∃ ty, found = some ty ∧ store.Settled first ty inner :=
    .ofTypes hmember ⟨member, hsome, hsettled⟩
  refine Gives.bind (.joins hread) fun found next _ hfound => ?_
  obtain ⟨ty, rfl, hty⟩ := hfound
  exact .pure hty

/-! ## Expressions -/

def Computes (context : CheckContext) (step : CheckM Ty) (value : Value) : Prop :=
  ∀ (state : CheckState) (first : Nat), first ≤ state.types.nextTag →
    Gives context state step fun ty store => store.Settled first ty value

section

variable {eval : Evaluator} {frame node : Nat}

theorem computes_unary {op : UnaryOp} {argument : NodeId} {operand value : Value}
    (hkind : context.tree.kind node = .unary op argument)
    (h : Computes context (eval.expression frame argument) operand)
    (hvalue : Folding.foldUnary op operand = some value) :
    Computes context (expressionRule eval frame node) value := by
  intro state first hfirst
  refine .tree_bind ?_
  rw [hkind]
  refine (h _ _ hfirst).bind fun ty next hnext hty => ?_
  exact gives_applyUnary (Nat.le_trans hfirst hnext.tag_le) hty hvalue

theorem computes_binary {op : BinaryOp} {left right : NodeId} {a b value : Value}
    (hkind : context.tree.kind node = .binary op left right)
    (hleft : Computes context (eval.expression frame left) a)
    (hright : Computes context (eval.expression frame right) b) (hapart : a.Apart b)
    (hvalue : Value.binary op a b = some value) :
    Computes context (expressionRule eval frame node) value := by
  intro state first hfirst
  refine .tree_bind ?_
  rw [hkind]
  refine (hleft _ _ hfirst).bind fun leftType next hnext hty => ?_
  obtain ⟨leftId, c, rfl, hshows⟩ := hty.shows
  refine (hright _ _ (Nat.le_refl _)).bind fun rightType last hlast hother => ?_
  obtain ⟨rightId, d, rfl, hshows'⟩ := hother.shows
  have hcd : c.Apart d := by
    intro tag htag hmem
    have hbefore := hshows.identity tag htag
    have hafter := hshows'.identity tag hmem
    omega
  have htag := Nat.le_trans hfirst (Nat.le_trans hnext.tag_le hlast.tag_le)
  exact gives_applyBinary htag (hshows.of_evolves hlast) hshows' hapart hcd hvalue

theorem computes_logical {op : LogicalOp} {left right : NodeId} {skipped value : Value}
    (hkind : context.tree.kind node = .logical op left right)
    (hleft : Computes context (eval.expression frame left) skipped)
    (hresult : if Folding.settles op skipped then skipped = value
      else Computes context (eval.expression frame right) value) :
    Computes context (expressionRule eval frame node) value := by
  intro state first hfirst
  refine .tree_bind ?_
  rw [hkind]
  refine (hleft _ _ hfirst).bind fun ty next hnext hty => ?_
  refine (gives_outcome? hty).bind fun truth last hlast htruth => ?_
  have htag := Nat.le_trans hfirst (Nat.le_trans hnext.tag_le hlast.tag_le)
  rw [htruth]
  cases op <;> cases htruthy : skipped.truthy <;>
    simp only [Folding.settles, htruthy, Bool.not_true, Bool.not_false, if_true,
      Bool.false_eq_true, if_false] at hresult
  · subst hresult
    exact .pure (hty.of_evolves hlast)
  · exact hresult _ _ htag
  · exact hresult _ _ htag
  · subst hresult
    exact .pure (hty.of_evolves hlast)

theorem computes_conditional {test consequent alternate : NodeId} {condition value : Value}
    (hkind : context.tree.kind node = .conditional test consequent alternate)
    (htest : Computes context (eval.expression frame test) condition)
    (hresult : if condition.truthy then Computes context (eval.expression frame consequent) value
      else Computes context (eval.expression frame alternate) value) :
    Computes context (expressionRule eval frame node) value := by
  intro state first hfirst
  refine .tree_bind ?_
  rw [hkind]
  refine (htest _ _ hfirst).bind fun ty next hnext hty => ?_
  refine (gives_outcome? hty).bind fun truth last hlast htruth => ?_
  have htag := Nat.le_trans hfirst (Nat.le_trans hnext.tag_le hlast.tag_le)
  rw [htruth]
  cases htruthy : condition.truthy with
  | true =>
      rw [if_pos htruthy] at hresult
      exact hresult _ _ htag
  | false =>
      rw [htruthy, if_neg Bool.false_ne_true] at hresult
      exact hresult _ _ htag

/-- Some nodes are followed in turn to the types of their values. -/
theorem gives_mapM {nodes : List NodeId} {values : List Value}
    (h : List.Forall₂ (fun node => Computes context (eval.expression frame node)) nodes values)
    (hfirst : first ≤ state.types.nextTag) :
    Gives context state (nodes.mapM (eval.expression frame))
      fun types store => List.Forall₂ (store.Settled first) types values := by
  induction h generalizing state with
  | nil =>
      rw [List.mapM_nil]
      exact .pure .nil
  | cons hvalue _ ih =>
      rw [List.mapM_cons]
      refine (hvalue _ _ hfirst).bind fun ty next hnext hty => ?_
      refine (ih (Nat.le_trans hfirst hnext.tag_le)).bind fun types last hlast htypes => ?_
      exact .pure (.cons (hty.of_evolves hlast) htypes)

theorem computes_array {elements : List NodeId} {values : List Value}
    (hbound : 0 < context.joinBound) (hkind : context.tree.kind node = .array elements)
    (h : List.Forall₂ (fun node => Computes context (eval.expression frame node)) elements values) :
    Computes context (expressionRule eval frame node) (.array node values) := by
  intro state first hfirst
  refine .tree_bind ?_
  rw [hkind]
  refine (gives_mapM h hfirst).bind fun types next hnext htypes => .joins ?_
  obtain ⟨bound, hsucc⟩ : ∃ bound, context.joinBound = bound + 1 :=
    ⟨context.joinBound - 1, by omega⟩
  rw [hsucc]
  exact gives_array bound (Nat.le_trans hfirst hnext.tag_le) htypes node

theorem gives_objectMembers {properties : List NodeId} {record all : List (String × Value)}
    (h : Folding.Adds context.tree (fun node => Computes context (eval.expression frame node))
      properties record all)
    (hfirst : first ≤ state.types.nextTag) {members : List (String × Ty)}
    (hmembers : SettledMembers state.types first members record) :
    Gives context state (objectMembers eval frame node properties members)
      fun result store => SettledMembers store first result all := by
  induction h generalizing state members with
  | nil => exact .pure hmembers
  | cons hkind hvalue _ ih =>
      rw [objectMembers]
      refine .tree_bind ?_
      rw [hkind]
      refine (hvalue _ _ hfirst).bind fun ty next hnext hty => ?_
      exact ih (Nat.le_trans hfirst hnext.tag_le) ((hmembers.of_evolves hnext).insert hty)

theorem computes_object {properties : List NodeId} {members : List (String × Value)}
    (hkind : context.tree.kind node = .object properties)
    (h : Folding.Adds context.tree (fun node => Computes context (eval.expression frame node))
      properties [] members) :
    Computes context (expressionRule eval frame node) (.object node members) := by
  intro state first hfirst
  refine .tree_bind ?_
  rw [hkind]
  refine (gives_objectMembers h hfirst .nil).bind fun result next hnext hresult => ?_
  obtain ⟨hevolves, hsettled⟩ := settled_object (Nat.le_trans hfirst hnext.tag_le) hresult node
  exact .types hevolves hsettled

theorem computes_member {owner : NodeId} {key : MemberKey} {whole name inner : Value}
    (hkind : context.tree.kind node = .member owner key)
    (howner : Computes context (eval.expression frame owner) whole)
    (hkey : Computes context (memberKey eval frame key) name)
    (htext : Folding.isText name = true) (hget : whole.get? name.text = some inner) :
    Computes context (expressionRule eval frame node) inner := by
  have hname : name.kind = .string ∨ name.kind = .number := by
    cases name with
    | string => exact .inl rfl
    | number => exact .inr rfl
    | _ => cases htext
  intro state first hfirst
  refine .tree_bind ?_
  rw [hkind]
  refine (howner _ _ hfirst).bind fun ownerType next hnext hty => ?_
  have htag := Nat.le_trans hfirst hnext.tag_le
  refine (hkey _ _ htag).bind fun keyType last hlast hkeyType => ?_
  exact gives_readMember (Nat.le_trans htag hlast.tag_le) (hty.of_evolves hlast) hkeyType hname hget

end

/-! ## Closed expressions -/

def ComputesBefore (context : CheckContext) (height depth frame node : Nat) : Prop :=
  ∀ {part : Nat} {value : Value}, part < node → Folding.Closed context.tree context.graph part →
    Folding.DerivesIn context.tree context.graph height part value →
      Computes context ((Evaluator.upTo depth).expression frame part) value

section

variable {height depth frame node : Nat} {value : Value}

theorem ComputesBefore.part (h : ComputesBefore context height depth frame node)
    (htree : context.tree.WellFormed) (hnode : node < context.tree.size) {part : Nat}
    (hmem : (part, Part.expression) ∈ (context.tree.kind node).parts)
    (hclosed : Folding.Closed context.tree context.graph part) {value : Value}
    (hderives : Folding.DerivesIn context.tree context.graph height part value) :
    Computes context ((Evaluator.upTo depth).expression frame part) value :=
  h (htree.part_lt hnode hmem) hclosed hderives

theorem computes_literal {literal : Literal} (hkind : context.tree.kind node = .literal literal)
    (hderives : Folding.DerivesIn context.tree context.graph (height + 1) node value) :
    Computes context (expressionRule (.upTo depth) frame node) value := by
  cases (Folding.Rule.literal_iff hkind).mp hderives
  intro state first hfirst
  refine .tree_bind ?_
  rw [hkind]
  exact gives_ofValue (Folding.isPrimitive_of_literal _) hfirst

variable (htree : context.tree.WellFormed) (hnode : node < context.tree.size)
  (hbefore : ComputesBefore context height depth frame node)
  (hderives : Folding.DerivesIn context.tree context.graph (height + 1) node value)

include htree hnode hbefore hderives

theorem computes_unary_of_derivesIn {op : UnaryOp} {inner : NodeId}
    (hkind : context.tree.kind node = .unary op inner)
    (hinner : Folding.Closed context.tree context.graph inner) :
    Computes context (expressionRule (.upTo depth) frame node) value := by
  obtain ⟨operand, hoperand, hvalue⟩ := (Folding.Rule.unary_iff hkind).mp hderives
  have hmem : (inner, Part.expression) ∈ (context.tree.kind node).parts := by
    simp [hkind, NodeKind.parts]
  exact computes_unary hkind (hbefore.part htree hnode hmem hinner hoperand) hvalue

theorem computes_binary_of_derivesIn {op : BinaryOp} {left right : NodeId}
    (hkind : context.tree.kind node = .binary op left right)
    (hleft : Folding.Closed context.tree context.graph left)
    (hright : Folding.Closed context.tree context.graph right) :
    Computes context (expressionRule (.upTo depth) frame node) value := by
  obtain ⟨a, ha, b, hb, hvalue⟩ := (Folding.Rule.binary_iff hkind).mp hderives
  have hapart := Folding.Closed.apart htree hnode hkind hleft hright ha hb
  have hmem : (left, Part.expression) ∈ (context.tree.kind node).parts ∧
      (right, Part.expression) ∈ (context.tree.kind node).parts := by
    simp [hkind, NodeKind.parts]
  exact computes_binary hkind (hbefore.part htree hnode hmem.1 hleft ha)
    (hbefore.part htree hnode hmem.2 hright hb) hapart (Folding.binary_of_foldBinary hvalue)

theorem computes_logical_of_derivesIn {op : LogicalOp} {left right : NodeId}
    (hkind : context.tree.kind node = .logical op left right)
    (hleft : Folding.Closed context.tree context.graph left)
    (hright : Folding.Closed context.tree context.graph right) :
    Computes context (expressionRule (.upTo depth) frame node) value := by
  obtain ⟨skipped, hskipped, hresult⟩ := (Folding.Rule.logical_iff hkind).mp hderives
  have hmem : (left, Part.expression) ∈ (context.tree.kind node).parts ∧
      (right, Part.expression) ∈ (context.tree.kind node).parts := by
    simp [hkind, NodeKind.parts]
  refine computes_logical hkind (hbefore.part htree hnode hmem.1 hleft hskipped) ?_
  split at hresult
  · rename_i hsettles
    rwa [if_pos hsettles]
  · rename_i hsettles
    rw [if_neg hsettles]
    exact hbefore.part htree hnode hmem.2 hright hresult

theorem computes_conditional_of_derivesIn {test consequent alternate : NodeId}
    (hkind : context.tree.kind node = .conditional test consequent alternate)
    (htest : Folding.Closed context.tree context.graph test)
    (hconsequent : Folding.Closed context.tree context.graph consequent)
    (halternate : Folding.Closed context.tree context.graph alternate) :
    Computes context (expressionRule (.upTo depth) frame node) value := by
  obtain ⟨condition, hcondition, hresult⟩ := (Folding.Rule.conditional_iff hkind).mp hderives
  have hmem : (test, Part.expression) ∈ (context.tree.kind node).parts ∧
      (consequent, Part.expression) ∈ (context.tree.kind node).parts ∧
      (alternate, Part.expression) ∈ (context.tree.kind node).parts := by
    simp [hkind, NodeKind.parts]
  refine computes_conditional hkind (hbefore.part htree hnode hmem.1 htest hcondition) ?_
  split at hresult
  · rename_i htruthy
    rw [if_pos htruthy]
    exact hbefore.part htree hnode hmem.2.1 hconsequent hresult
  · rename_i htruthy
    rw [if_neg htruthy]
    exact hbefore.part htree hnode hmem.2.2 halternate hresult

theorem computes_array_of_derivesIn (hbound : 0 < context.joinBound) {elements : List NodeId}
    (hkind : context.tree.kind node = .array elements)
    (hclosed : ∀ element ∈ elements, Folding.Closed context.tree context.graph element) :
    Computes context (expressionRule (.upTo depth) frame node) value := by
  obtain ⟨values, hvalues, rfl⟩ := (Folding.Rule.array_iff hkind).mp hderives
  refine computes_array hbound hkind (Folding.forall₂_imp_of_mem hvalues ?_)
  intro element helement value hvalue
  have hmem : (element, Part.expression) ∈ (context.tree.kind node).parts := by
    simp [hkind, NodeKind.parts, helement]
  exact hbefore.part htree hnode hmem (hclosed element helement) hvalue

theorem computes_object_of_derivesIn {properties : List NodeId}
    (hkind : context.tree.kind node = .object properties)
    (hclosed : ∀ property ∈ properties, ∀ key inner,
      context.tree.kind property = .property key inner →
        Folding.Closed context.tree context.graph inner) :
    Computes context (expressionRule (.upTo depth) frame node) value := by
  obtain ⟨members, hadds, rfl⟩ := (Folding.Rule.object_iff hkind).mp hderives
  refine computes_object hkind (hadds.imp_of_mem ?_)
  intro property hproperty key inner member hinnerKind hmember
  have hmem : (property, Part.property) ∈ (context.tree.kind node).parts := by
    simp [hkind, NodeKind.parts, hproperty]
  have hinner : (inner, Part.expression) ∈ (context.tree.kind property).parts := by
    simp [hinnerKind, NodeKind.parts]
  have hlt := htree.part_lt hnode hmem
  have hinnerLt := htree.part_lt (Nat.lt_trans hlt hnode) hinner
  exact hbefore (Nat.lt_trans hinnerLt hlt)
    (hclosed property hproperty key inner hinnerKind) hmember

theorem computes_named_of_derivesIn {owner : NodeId} {name : String}
    (hkind : context.tree.kind node = .member owner (.named name))
    (howner : Folding.Closed context.tree context.graph owner) :
    Computes context (expressionRule (.upTo depth) frame node) value := by
  obtain ⟨whole, hwhole, hget⟩ := (Folding.Rule.named_iff hkind).mp hderives
  have hkey : Computes context (memberKey (.upTo depth) frame (.named name)) (.string name) := by
    intro state first hfirst
    rw [memberKey]
    exact gives_ofValue rfl hfirst
  have hmem : (owner, Part.expression) ∈ (context.tree.kind node).parts := by
    simp [hkind, NodeKind.parts]
  exact computes_member hkind (hbefore.part htree hnode hmem howner hwhole) hkey rfl hget

theorem computes_computed_of_derivesIn {owner key : NodeId}
    (hkind : context.tree.kind node = .member owner (.computed key))
    (howner : Folding.Closed context.tree context.graph owner)
    (hkey : Folding.Closed context.tree context.graph key)
    (htexts : ∀ value, (Folding.tryFold context.tree context.graph key (.empty context.tree)).1 =
      some value → Folding.isText value = true) :
    Computes context (expressionRule (.upTo depth) frame node) value := by
  obtain ⟨whole, hwhole, name, hname, hget⟩ := (Folding.Rule.computed_iff hkind).mp hderives
  have hmem : (owner, Part.expression) ∈ (context.tree.kind node).parts ∧
      (key, Part.expression) ∈ (context.tree.kind node).parts := by
    simp [hkind, NodeKind.parts]
  have hfollows : Computes context (memberKey (.upTo depth) frame (.computed key)) name :=
    hbefore.part htree hnode hmem.2 hkey hname
  exact computes_member hkind (hbefore.part htree hnode hmem.1 howner hwhole) hfollows
    (Folding.isText_of_derivesIn hname htexts) hget

end

/-- A closed expression is followed to the type of what it folds to. -/
theorem computes_of_derivesIn (htree : context.tree.WellFormed) (hbound : 0 < context.joinBound)
    {height depth frame node : Nat} {value : Value}
    (hclosed : Folding.Closed context.tree context.graph node)
    (hderives : Folding.DerivesIn context.tree context.graph height node value)
    (hnode : node < context.tree.size) (hdepth : node < depth) :
    Computes context ((Evaluator.upTo depth).expression frame node) value := by
  induction height generalizing node depth value with
  | zero => exact hderives.elim
  | succ height ih =>
      obtain ⟨depth, rfl⟩ : ∃ rest, depth = rest + 1 := ⟨depth - 1, by omega⟩
      change Computes context (expressionRule (.upTo depth) frame node) value
      have hbefore : ComputesBefore context height depth frame node :=
        fun hlt hpartClosed hvalue =>
          ih hpartClosed hvalue (Nat.lt_trans hlt hnode) (by omega)
      cases hclosed with
      | literal hkind => exact computes_literal hkind hderives
      | unary hkind hinner =>
          exact computes_unary_of_derivesIn htree hnode hbefore hderives hkind hinner
      | binary hkind hleft hright =>
          exact computes_binary_of_derivesIn htree hnode hbefore hderives hkind hleft hright
      | logical hkind hleft hright =>
          exact computes_logical_of_derivesIn htree hnode hbefore hderives hkind hleft hright
      | conditional hkind htest hconsequent halternate =>
          exact computes_conditional_of_derivesIn htree hnode hbefore hderives hkind htest
            hconsequent
            halternate
      | array hkind heach =>
          exact computes_array_of_derivesIn htree hnode hbefore hderives hbound hkind heach
      | object hkind heach =>
          exact computes_object_of_derivesIn htree hnode hbefore hderives hkind heach
      | named hkind hinner =>
          exact computes_named_of_derivesIn htree hnode hbefore hderives hkind hinner
      | computed hkind hinner hkeyed htexts =>
          exact computes_computed_of_derivesIn htree hnode hbefore hderives hkind hinner
            hkeyed htexts

end Check

/-- Wherever an expression without names is followed in a program that could be read, and after
whichever nodes were folded, what it folds to is what it is followed to: a plain type of the kind
of the value, known to have the value up to identities. -/
theorem Check.expression_of_tryFold {tokens : List Token} {file : String} {context : CheckContext}
    (h : Tree.ofTokens tokens file = .ok context.tree) (hbound : 0 < context.joinBound)
    {node : Nat} (hnode : node < context.tree.size)
    (hclosed : Folding.Closed context.tree context.graph node) (queries : List NodeId)
    {value : Value}
    (hvalue : (Folding.tryFold context.tree context.graph node
      (Folding.afterQueries context.tree context.graph queries (.empty context.tree))).1 =
        some value) (frame : FrameId) (state : CheckState) {depth : Nat} (hdepth : node < depth) :
    ∃ id next constant, (Evaluator.upTo depth).expression frame node context state =
        .ok (.plain id, next) ∧
      (next.types.shape id).kind = value.kind ∧
      (next.types.shape id).constant = some constant ∧
      constant.untagged = value.untagged := by
  have htree := Tree.wellFormed_of_ofTokens h
  have hsound := (Folding.Sound.empty context.tree context.graph).afterQueries queries
  obtain ⟨height, hderives⟩ := ((Folding.tryFold_of_sound hsound node).2 value).mp hvalue
  obtain ⟨ty, next, hrun, -, hsettled⟩ := Check.computes_of_derivesIn htree hbound hclosed hderives
    hnode hdepth state 0 (Nat.zero_le _)
  obtain ⟨id, constant, rfl, hshows⟩ := hsettled.shows
  exact ⟨id, next, constant, hrun, hshows.kind, hshows.constant, hshows.untagged⟩

/-- The length of a text in an array in an object is asked for, and two arrays are compared. -/
def nestedLiterals : String :=
  "(\x7bs: [\"ab\", null]\x7d).s[\"0\"].length && [] === [] || typeof \x7b\x7d;"

theorem Check.expression_of_tryFold_nestedLiterals :
    ∃ tokens context value id next constant, Tree.ofTokens tokens "" = .ok context.tree ∧
      Folding.Closed context.tree context.graph 15 ∧
      (Folding.tryFold context.tree context.graph 15
        (Folding.afterQueries context.tree context.graph [4, 15] (.empty context.tree))).1 =
          some value ∧
      (Evaluator.upTo 16).expression 0 15 context
          ⟨{}, ⟨#[]⟩, .empty false, .empty context.tree⟩ = .ok (.plain id, next) ∧
      (next.types.shape id).kind = value.kind ∧
      (next.types.shape id).constant = some constant ∧ constant.untagged = value.untagged := by
  let tokens := (Lexer.tokenize nestedLiterals).toOption.getD []
  let contextOf : Tree → CheckContext := fun tree =>
    ⟨tree, (ScopeGraph.build tree [] (.empty false)).1, {}, 1⟩
  have hread : ((Tree.ofTokens tokens "").toOption.any fun tree =>
      decide (15 < tree.size) && Folding.isClosed tree (contextOf tree).graph 16 15 &&
        (Folding.tryFold tree (contextOf tree).graph 15 (Folding.afterQueries tree
          (contextOf tree).graph [4, 15] (.empty tree))).1.isSome) = true := by decide +kernel
  cases htree : Tree.ofTokens tokens "" with
  | error halt =>
      rw [htree] at hread
      cases hread
  | ok tree =>
      rw [htree] at hread
      simp only [Except.toOption, Option.any_some, Bool.and_eq_true, decide_eq_true_eq] at hread
      obtain ⟨⟨hnode, hisClosed⟩, hsome⟩ := hread
      obtain ⟨value, hvalue⟩ := Option.isSome_iff_exists.mp hsome
      have hclosed := Folding.closed_of_isClosed hisClosed
      obtain ⟨id, next, constant, hresult⟩ := Check.expression_of_tryFold
        (show Tree.ofTokens tokens "" = .ok (contextOf tree).tree from htree) (Nat.succ_pos 0) hnode
        hclosed [4, 15] hvalue 0 ⟨{}, ⟨#[]⟩, .empty false, .empty tree⟩ (Nat.lt_succ_self 15)
      exact ⟨tokens, contextOf tree, value, id, next, constant, htree, hclosed, hvalue, hresult⟩

end ScriptCheck
