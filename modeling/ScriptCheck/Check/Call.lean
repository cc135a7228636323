import ScriptCheck.Check.Operand

/-!
# Calls

A call follows the body of every function that the callee may be.  An argument
that is a union is split first: the body is followed once for each choice of the
arguments' variants.  A function that is being called already is not entered
again, and what it returns is unknown.
-/

namespace ScriptCheck.Check

open CheckM

/-- Binds what every function but an arrow has: `this` and `arguments`. -/
def bindReceiver (callee : FrameId) (shape : FunctionShape) (scope : ScopeId)
    (receiver : Ty) (arguments : List Ty) : CheckM Unit := do
  if shape.isArrow then return
  let graph ← graph
  if let some symbol := graph.local? scope "this" then
    frames (FrameM.bind callee symbol receiver)
  if let some symbol := graph.local? scope "arguments" then
    let array ← joins fun bound => Ty.array bound arguments
    frames (FrameM.bind callee symbol array)

def bindOwnName (callee : FrameId) (shape : FunctionShape) (scope : ScopeId)
    (function : Ty) : CheckM Unit := do
  let graph ← graph
  if shape.kind = .expression then
    if let some symbol := shape.name.bind (graph.local? scope) then
      if (graph.symbol symbol).kind = .function then
        frames (FrameM.bind callee symbol function)

/-- Binds parameters to arguments in order; a parameter without one is
`undefined`. -/
def bindParameters (callee : FrameId) : List NodeId → List Ty → CheckM Unit
  | [], _ => return
  | parameter :: parameters, arguments => do
    if let some symbol := (← graph).declared? parameter then
      let argument ← match arguments with
        | argument :: _ => pure argument
        | [] => types Ty.undefined
      frames (FrameM.bind callee symbol argument)
    bindParameters callee parameters arguments.tail

def runBody (eval : Evaluator) (callee : FrameId) (shape : FunctionShape) : CheckM Ty := do
  if shape.expressionBody then
    eval.expression callee shape.body
  else
    eval.statement callee shape.body
    let returned := (← frames (FrameM.frameOf callee)).returned
    joinOr returned Ty.undefined

def enterFunction (eval : Evaluator) (frame : FrameId) (site : NodeId) (function : Ty)
    (node : NodeId) (origin : FrameId) (receiver : Ty) (arguments : List Ty) :
    CheckM Ty := do
  if ← frames (FrameM.detectRecursion frame node) then types Ty.unknown
  else
    let tree ← tree
    let graph ← graph
    match tree.function? node with
    | none => missingChild site "Function"
    | some shape =>
        let callee ← frames (FrameM.enterCallee tree graph frame site node origin)
        let scope := graph.scopeOf node
        bindReceiver callee shape scope receiver arguments
        bindOwnName callee shape scope function
        bindParameters callee shape.parameters arguments
        let result ← runBody eval callee shape
        if (← frames (FrameM.frameOf callee)).recursive then
          joins fun bound => Ty.widen bound result
        else
          return result

/-- Calls once for every choice of variants of the arguments, the first argument
varying slowest, and joins the results. -/
def splitArguments (enter : List Ty → CheckM Ty) (chosen : List Ty) :
    List Ty → CheckM Ty
  | [] => enter chosen.reverse
  | .plain id :: rest => splitArguments enter (.plain id :: chosen) rest
  | .union variants :: rest => do
    let results ← variants.mapM fun id =>
      splitArguments enter (.plain id :: chosen) rest
    joinOr results Ty.unknown

/-- Calls one variant of a callee. -/
def invokePlain (eval : Evaluator) (frame : FrameId) (site : NodeId) (receiver : Ty)
    (arguments : List Ty) (id : TypeId) : CheckM Ty := do
  let function := Ty.plain id
  match ← types function.callable? with
  | some ⟨_, node, some origin⟩ =>
      splitArguments (enterFunction eval frame site function node origin receiver) []
        arguments
  | some ⟨_, _, none⟩ => types Ty.unknown
  | none =>
      if ← types (function.isNot .function) then
        report frame site (.notCallable (← types function.display))
      types Ty.unknown

def invoke (eval : Evaluator) (frame : FrameId) (site : NodeId) (function receiver : Ty)
    (arguments : List Ty) : CheckM Ty := do
  let results ← function.variants.mapM (invokePlain eval frame site receiver arguments)
  joinOr results Ty.unknown

/-- The first variant of a callee that is a known function. -/
def constructor? (function : Ty) : CheckM (Option TypeId) := do
  let store ← types get
  return function.variants.find? fun id => (store.shape id).callable.isSome

def instantiate (id : TypeId) : CheckM Ty := do
  let key ← types (Ty.ofValue (.string "prototype"))
  match ← joins fun bound => (Ty.plain id).member? bound key with
  | some prototype => types do Ty.object (← prototype.members)
  | none => types (Ty.object [])

/-- Whether every variant of a type is an object or a function. -/
def isReference (ty : Ty) : CheckM Bool := do
  return (← kindsOf ty).all fun kind => kind == .object || kind == .function

/-- Calls a constructor on a new object; what it returns counts only if it is an
object itself. -/
def construct (eval : Evaluator) (frame : FrameId) (site : NodeId) (function : Ty)
    (arguments : List Ty) : CheckM Ty := do
  match ← constructor? function with
  | none =>
      let _ ← invoke eval frame site function (← types Ty.unknown) arguments
      types Ty.unknown
  | some id =>
      let instance_ ← instantiate id
      let result ← invoke eval frame site function instance_ arguments
      if ← isReference result then return result else return instance_

end ScriptCheck.Check
