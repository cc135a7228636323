import ScriptCheck.Check.Monad

/-!
# Operators and members

What an operator or a member access makes of types that are already there, and
which problems it reports.
-/

namespace ScriptCheck.Check

open CheckM

/-- Whether a condition is known to hold or to fail. -/
def outcome? (ty : Ty) : CheckM (Option Bool) := do
  return (← types ty.constant?).map Value.truthy

def kindsOf (ty : Ty) : CheckM (List Kind) := do
  let store ← types get
  return ty.variants.map fun id => (store.shape id).kind

/-- Whether some variant is known to be of a kind outside a list. -/
def hasKindOutside (ty : Ty) (kinds : List Kind) : CheckM Bool := do
  return (← kindsOf ty).any fun kind => kind != .unknown && !kinds.contains kind

def isNullish (ty : Ty) : CheckM Bool := do
  return (← kindsOf ty).any fun kind => kind == .null || kind == .undefined

def isString (ty : Ty) : CheckM Bool := do
  return (← types ty.typeofName?) = some "string"

def isNotNumber (ty : Ty) : CheckM Bool := types (ty.isNot .number)

/-! ## Operators -/

/-- Whether the operands of an operator do not go together, and the result of the
operator as far as it does not depend on their values. -/
def operandCheck (category : OperatorCategory) (left right : Ty) : CheckM (Bool × Ty) := do
  match category with
  | .addition =>
      if (← isString left) || (← isString right) then
        return (false, ← types Ty.string)
      else if (← isNotNumber left) || (← isNotNumber right) then
        return (true, ← types Ty.unknown)
      else
        return (false, ← types Ty.number)
  | .equality =>
      let nullish := (← isNullish left) || (← isNullish right)
      let clash ← if nullish then pure false else types (left.incompatible right)
      return (clash, ← types Ty.boolean)
  | .comparison =>
      let outside := (← hasKindOutside left [.number, .string]) ||
        (← hasKindOutside right [.number, .string])
      let clash ← if outside then pure true else types (left.incompatible right)
      return (clash, ← types Ty.boolean)
  | .numeric =>
      return ((← isNotNumber left) || (← isNotNumber right), ← types Ty.number)
  | .membership =>
      let clash := (← hasKindOutside left [.string, .number]) ||
        (← hasKindOutside right [.object, .function])
      return (clash, ← types Ty.boolean)
  | .instance_ =>
      return (← hasKindOutside right [.function], ← types Ty.boolean)

/-- The result of an operator between two types, at a node.  Operands that do not go
together are reported; known operands give a known result all the same. -/
def applyBinary (frame : FrameId) (node : NodeId) (op : BinaryOp) (left right : Ty) :
    CheckM Ty := do
  let (clash, general) ← operandCheck op.category left right
  if clash then
    let leftText ← types left.display
    let rightText ← types right.display
    report frame node (.incompatibleOperands op.text leftText rightText)
  match ← types left.constant?, ← types right.constant? with
  | some a, some b =>
      match Value.binary op a b with
      | some value => types (Ty.ofValue value)
      | none => return general
  | _, _ => return general

/-- The result of an operator in front of a type, at a node. -/
def applyUnary (frame : FrameId) (node : NodeId) (op : UnaryOp) (argument : Ty) :
    CheckM Ty := do
  match op with
  | .typeof =>
      match ← types argument.typeofName? with
      | some name => types (Ty.ofValue (.string name))
      | none => types Ty.string
  | .not =>
      match ← outcome? argument with
      | some truth => types (Ty.ofValue (.bool !truth))
      | none => types Ty.boolean
  | .void => types Ty.undefined
  | .delete => types Ty.boolean
  | .minus | .plus | .bitNot =>
      if ← isNotNumber argument then
        report frame node (.incompatibleArgument op.text)
      match (← types argument.constant?).bind (Value.unary op) with
      | some value => types (Ty.ofValue value)
      | none => types Ty.number

/-! ## Names and members -/

/-- The type of a name at a node.  What could not be resolved was reported already;
`this` outside every function is `undefined`. -/
def readName (frame : FrameId) (node : NodeId) : CheckM Ty := do
  let tree ← tree
  let graph ← graph
  match graph.resolved? node with
  | some symbol =>
      match ← frames (FrameM.readName tree graph frame node symbol) with
      | some ty => return ty
      | none => types Ty.undefined
  | none =>
      match tree.kind node with
      | .thisExpr => types Ty.undefined
      | _ => types Ty.unknown

/-- The type of a member, at a node.  A member that is not there is reported. -/
def readMember (frame : FrameId) (node : NodeId) (owner key : Ty) : CheckM Ty := do
  if ← types (owner.lacks key) then
    let keyText ← types key.display
    let ownerText ← types owner.display
    report frame node (.missingProperty keyText ownerText)
    types Ty.unknown
  else
    match ← joins fun bound => owner.member? bound key with
    | some member => return member
    | none => types Ty.unknown

def writeMember (frame : FrameId) (node : NodeId) (owner key value : Ty) :
    CheckM Unit := do
  if !(← types owner.isMutable) then
    report frame node .immutableAssignment
  else if !(← types (owner.trySet key value)) then
    report frame node .brokenAssignment

/-- Stores a type under a name, at a node. -/
def writeName (frame : FrameId) (node : NodeId) (symbol : SymbolId) (ty : Ty) :
    CheckM Unit := do
  frames (FrameM.writeName (← tree) (← graph) frame node symbol ty)

def joinOr (results : List Ty) (otherwise : TypeM Ty) : CheckM Ty := do
  match ← joins fun bound => Ty.joinAll bound results with
  | some joined => return joined
  | none => types otherwise

end ScriptCheck.Check
