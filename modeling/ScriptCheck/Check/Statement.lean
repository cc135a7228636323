import ScriptCheck.Check.Expression

/-!
# Statements

Every statement is followed once: one round of a loop stands for all, and both
branches of a condition are followed unless its outcome is known.
-/

namespace ScriptCheck.Check

open CheckM

/-! ## Narrowing -/

def guardOf? (tree : Tree) (graph : ScopeGraph) (left right : NodeId) :
    Option (SymbolId × Kind) :=
  let (tested, literal) := match tree.kind right with
    | .unary _ _ => (right, left)
    | _ => (left, right)
  match tree.kind tested, tree.kind literal with
  | .unary .typeof argument, .literal (.string name) =>
      match tree.kind argument, Kind.ofTypeof? name, graph.resolved? argument with
      | .identifier _, some kind, some symbol =>
          if kind.isPrimitive then some (symbol, kind) else none
      | _, _, _ => none
  | _, _ => none

/-- The tests by `typeof` that hold wherever a condition holds: the condition itself
or what it joins by `&&`, down to a depth. -/
def guards (tree : Tree) (graph : ScopeGraph) : Nat → NodeId → List (SymbolId × Kind)
  | 0, _ => []
  | depth + 1, test =>
      match tree.kind test with
      | .logical .and left right =>
          guards tree graph depth left ++ guards tree graph depth right
      | .binary .eq left right | .binary .strictEq left right =>
          (guardOf? tree graph left right).toList
      | _ => []

def narrowNames (frame : FrameId) (test : NodeId) : List (SymbolId × Kind) → CheckM Unit
  | [] => return
  | (symbol, kind) :: rest => do
    let tree ← tree
    let graph ← graph
    let current ← match ← frames (FrameM.readName tree graph frame test symbol) with
      | some ty => pure ty
      | none => types Ty.unknown
    let narrowed ← joins fun bound => current.narrow bound kind
    frames (FrameM.bind frame symbol narrowed)
    narrowNames frame test rest

/-- The frame in which the branch of a condition that holds is followed. -/
def branchFrame (frame : FrameId) (test : NodeId) (found : List (SymbolId × Kind)) :
    CheckM FrameId := do
  if found.isEmpty then return frame
  let guarded ← frames (FrameM.enterGuard frame)
  narrowNames guarded test found
  return guarded

def ifStatement (eval : Evaluator) (frame : FrameId) (test consequent : NodeId)
    (alternate : Option NodeId) : CheckM Unit := do
  let tree ← tree
  let found := guards tree (← graph) (tree.size + 1) test
  let outcome ← outcome? (← eval.expression frame test)
  if outcome ≠ some false then
    let branch ← branchFrame frame test found
    eval.statement branch consequent
  if outcome ≠ some true then
    alternate.forM (eval.statement frame)

/-! ## Declarations -/

def declareFunction (frame : FrameId) (node : NodeId) : CheckM Unit := do
  let function ← closure frame node
  match (← graph).declared? node with
  | some symbol => writeName frame node symbol function
  | none => return

/-- One variable of a declaration.  A `var` without a value keeps what an earlier
declaration of the name has stored. -/
def declarator (eval : Evaluator) (frame : FrameId) (kind : DeclarationKind)
    (node : NodeId) : CheckM Unit := do
  match (← tree).kind node with
  | .declarator _ init =>
      match (← graph).declared? node, init, kind with
      | none, _, _ => return
      | some symbol, some init, _ =>
          let ty ← initialiser eval frame init
          writeName frame node symbol ty
      | some _, none, .var_ => return
      | some symbol, none, _ => writeName frame node symbol (← types Ty.undefined)
  | _ => missingChild node "VariableDeclarator"

def isDeclaration (tree : Tree) (node : NodeId) : Bool :=
  match tree.function? node with
  | some shape => shape.kind = .declaration
  | none => false

/-- A list of statements.  The functions that it declares are there from the
beginning. -/
def body (eval : Evaluator) (frame : FrameId) (statements : List NodeId) :
    CheckM Unit := do
  let tree ← tree
  (statements.filter (isDeclaration tree)).forM (declareFunction frame)
  (statements.filter (!isDeclaration tree ·)).forM (eval.statement frame)

/-! ## Loops and jumps -/

def isKnownFalse (eval : Evaluator) (frame : FrameId) (test : NodeId) : CheckM Bool := do
  return (← outcome? (← eval.expression frame test)) = some false

/-- A `return` statement. -/
def returnStatement (eval : Evaluator) (frame : FrameId) (node : NodeId)
    (argument : Option NodeId) : CheckM Unit := do
  let ty ← match argument with
    | some argument => eval.expression frame argument
    | none => types Ty.undefined
  if !(← frames (FrameM.addReturned frame ty)) then
    report frame node .unexpectedReturn

def forStatement (eval : Evaluator) (frame : FrameId) (init test update : Option NodeId)
    (body : NodeId) : CheckM Unit := do
  if let some init := init then
    match (← tree).kind init with
    | .declaration _ _ => eval.statement frame init
    | _ => let _ ← eval.expression frame init
  let skipped ← match test with
    | some test => isKnownFalse eval frame test
    | none => pure false
  if !skipped then
    eval.statement frame body
    if let some update := update then
      let _ ← eval.expression frame update

/-- A `catch` clause.  Nothing is known of what is caught. -/
def catchClause (eval : Evaluator) (frame : FrameId) (param : Option NodeId)
    (body : NodeId) : CheckM Unit := do
  let graph ← graph
  if let some symbol := param.bind graph.declared? then
    frames (FrameM.bind frame symbol (← types Ty.unknown))
  eval.statement frame body

def statementInside (eval : Evaluator) (frame : FrameId) (node : NodeId) :
    CheckM Unit := do
  match (← tree).kind node with
  | .program statements | .block statements => body eval frame statements
  | .empty | .breakStmt | .continueStmt => return
  | .expressionStmt expr => let _ ← eval.expression frame expr
  | .declaration kind declarators => declarators.forM (declarator eval frame kind)
  | .ifStmt test consequent alternate => ifStatement eval frame test consequent alternate
  | .returnStmt argument => returnStatement eval frame node argument
  | .whileStmt test body =>
      if !(← isKnownFalse eval frame test) then
        eval.statement frame body
  | .forStmt init test update body => forStatement eval frame init test update body
  | .tryStmt body handler finalizer =>
      eval.statement frame body
      handler.forM (eval.statement frame)
      finalizer.forM (eval.statement frame)
  | .catchClause param body => catchClause eval frame param body
  | .throwStmt argument => let _ ← eval.expression frame argument
  | .declarator .. | .parameter _ | .property .. => unsupported node
  | _ => let _ ← eval.expression frame node

/-- Follows a statement in a frame, given how nested nodes are followed.  The scope of
a function is entered by calls only. -/
def statementRule (eval : Evaluator) (frame : FrameId) (node : NodeId) : CheckM Unit := do
  match (← tree).kind node with
  | .function shape =>
      if shape.kind = .declaration then declareFunction frame node
      else let _ ← eval.expression frame node
  | _ =>
      let inner ← frames (FrameM.enterChild (← graph) frame node)
      statementInside eval inner node

end ScriptCheck.Check
