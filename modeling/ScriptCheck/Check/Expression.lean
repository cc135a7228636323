import ScriptCheck.Check.Call

/-!
# Expressions
-/

namespace ScriptCheck.Check

open CheckM

def closure (frame : FrameId) (node : NodeId) : CheckM Ty :=
  types do
    let tag ← TypeStore.freshTag
    Ty.function ⟨tag, node, some frame⟩

/-- The members that properties give, evaluated in order; of one name the last
counts. -/
def objectMembers (eval : Evaluator) (frame : FrameId) (node : NodeId) :
    List NodeId → List (String × Ty) → CheckM (List (String × Ty))
  | [], members => return members
  | property :: rest, members => do
    match (← tree).kind property with
    | .property key value =>
        let member ← eval.expression frame value
        objectMembers eval frame node rest (Record.insert key member members)
    | _ => missingChild node "Property"

def memberKey (eval : Evaluator) (frame : FrameId) : MemberKey → CheckM Ty
  | .named name => types (Ty.ofValue (.string name))
  | .computed key => eval.expression frame key

/-- A logical operator.  The second operand is left out when the first decides, and
the results are joined when that is not known. -/
def logical (eval : Evaluator) (frame : FrameId) (op : LogicalOp) (left right : NodeId) :
    CheckM Ty := do
  let leftType ← eval.expression frame left
  match op, ← outcome? leftType with
  | .and, some false | .or, some true => return leftType
  | _, some _ => eval.expression frame right
  | _, none =>
      let rightType ← eval.expression frame right
      joins fun bound => Ty.join bound leftType rightType

/-- A condition with its outcomes.  Only one of them is followed when it is known
which. -/
def conditional (eval : Evaluator) (frame : FrameId) (test consequent alternate : NodeId) :
    CheckM Ty := do
  let testType ← eval.expression frame test
  match ← outcome? testType with
  | some true => eval.expression frame consequent
  | some false => eval.expression frame alternate
  | none =>
      let whenTrue ← eval.expression frame consequent
      let whenFalse ← eval.expression frame alternate
      joins fun bound => Ty.join bound whenTrue whenFalse

/-- The type of something that is assigned.  Where following the script gives no
value, the value that the text settles is taken. -/
def initialiser (eval : Evaluator) (frame : FrameId) (node : NodeId) : CheckM Ty := do
  let ty ← eval.expression frame node
  if !(← read).options.foldConstants || (← types ty.isConstant) || ty.isUnion then
    return ty
  match ← tryFold node with
  | some value => if value.isPrimitive then types (ty.toConstant value) else return ty
  | none => return ty

inductive Place where
  | name
  | member (owner key : Ty)

/-- The place that a target denotes.  The owner and key of a member are evaluated
here, ahead of the value. -/
def targetPlace (eval : Evaluator) (frame : FrameId) (target : NodeId) : CheckM Place := do
  match (← tree).kind target with
  | .identifier _ => return .name
  | .member owner key =>
      let ownerType ← eval.expression frame owner
      return .member ownerType (← memberKey eval frame key)
  | other => fail (.invalidTarget other.name) target

def assignedType (eval : Evaluator) (frame : FrameId) (node : NodeId) (op : AssignOp)
    (target value : NodeId) (place : Place) : CheckM Ty := do
  match op.binary? with
  | none => initialiser eval frame value
  | some operation =>
      let current ← match place with
        | .member owner key => readMember frame target owner key
        | .name => eval.expression frame target
      let operand ← eval.expression frame value
      applyBinary frame node operation current operand

/-- Stores a type in a place.  Names that are constant or not declared were reported
already and keep what they have. -/
def store (frame : FrameId) (node target : NodeId) (place : Place) (ty : Ty) :
    CheckM Unit := do
  match place with
  | .member owner key => writeMember frame node owner key ty
  | .name =>
      let graph ← graph
      if let some symbol := graph.resolved? target then
        if (graph.symbol symbol).mutable then
          writeName frame target symbol ty

def assignment (eval : Evaluator) (frame : FrameId) (node : NodeId) (op : AssignOp)
    (target value : NodeId) : CheckM Ty := do
  let place ← targetPlace eval frame target
  let ty ← assignedType eval frame node op target value place
  if op = .plain ∧ (← read).options.reportUndefinedAssignment then
    if ← types (ty.isKind .undefined) then
      report frame node .assignUndefined
  store frame node target place ty
  return ty

/-- A call.  The owner of a called member becomes `this`. -/
def call (eval : Evaluator) (frame : FrameId) (node callee : NodeId)
    (arguments : List NodeId) : CheckM Ty := do
  match (← tree).kind callee with
  | .member owner key =>
      let receiver ← eval.expression frame owner
      let keyType ← memberKey eval frame key
      let function ← readMember frame callee receiver keyType
      let argumentTypes ← arguments.mapM (eval.expression frame)
      invoke eval frame node function receiver argumentTypes
  | _ =>
      let receiver ← types Ty.undefined
      let function ← eval.expression frame callee
      let argumentTypes ← arguments.mapM (eval.expression frame)
      invoke eval frame node function receiver argumentTypes

def newObject (eval : Evaluator) (frame : FrameId) (node callee : NodeId)
    (arguments : List NodeId) : CheckM Ty := do
  let function ← eval.expression frame callee
  let argumentTypes ← arguments.mapM (eval.expression frame)
  construct eval frame node function argumentTypes

/-- The type of the last of some expressions, `undefined` when there are none. -/
def lastType (eval : Evaluator) (frame : FrameId) (expressions : List NodeId) :
    CheckM Ty := do
  expressions.foldlM (fun _ expression => eval.expression frame expression)
    (← types Ty.undefined)

def expressionRule (eval : Evaluator) (frame : FrameId) (node : NodeId) : CheckM Ty := do
  match (← tree).kind node with
  | .literal literal => types (Ty.ofValue literal.value)
  | .identifier _ | .thisExpr => readName frame node
  | .array elements =>
      let elementTypes ← elements.mapM (eval.expression frame)
      joins fun bound => Ty.array bound elementTypes
  | .object properties =>
      let members ← objectMembers eval frame node properties []
      types (Ty.object members)
  | .function _ => closure frame node
  | .unary op argument =>
      let argumentType ← eval.expression frame argument
      applyUnary frame node op argumentType
  | .binary op left right =>
      let leftType ← eval.expression frame left
      let rightType ← eval.expression frame right
      applyBinary frame node op leftType rightType
  | .logical op left right => logical eval frame op left right
  | .assign op target value => assignment eval frame node op target value
  | .conditional test consequent alternate =>
      conditional eval frame test consequent alternate
  | .call callee arguments => call eval frame node callee arguments
  | .newExpr callee arguments => newObject eval frame node callee arguments
  | .member owner key =>
      let ownerType ← eval.expression frame owner
      let keyType ← memberKey eval frame key
      readMember frame node ownerType keyType
  | .sequence expressions => lastType eval frame expressions
  | _ => unsupported node

end ScriptCheck.Check
