import ScriptCheck.Diagnostic
import ScriptCheck.Scope.Basic

/-!
# Building the scopes of a script

A first walk over the tree opens scopes, declares symbols and notes every
reference.  Once all declarations are known, the references are resolved in the
order in which they were met.  Names declared twice, names that cannot be
resolved and writes to constants are reported.
-/

namespace ScriptCheck

/-- A use of a name: reading it at a node, or storing the value of another node
under it. -/
inductive Reference where
  | read (node : NodeId) (name : String)
  | write (node : NodeId) (name : String) (value : NodeId)
deriving DecidableEq, Repr

/-- What the walk over a tree has found; references are noted last first. -/
structure ScopeBuilder where
  graph : ScopeGraph
  references : List Reference
  diagnostics : Diagnostics

namespace ScopeBuilder

abbrev Build := StateM ScopeBuilder

def modifyGraph (f : ScopeGraph → ScopeGraph) : Build Unit :=
  modify fun builder => { builder with graph := f builder.graph }

def graph? {α : Type} (f : ScopeGraph → α) : Build α := do
  return f (← get).graph

def report (tree : Tree) (node : NodeId) (problem : Problem) : Build Unit :=
  modify fun builder =>
    { builder with
      diagnostics :=
        builder.diagnostics.report (.ofProblem (tree.start node).location problem []) }

def note (reference : Reference) : Build Unit :=
  modify fun builder => { builder with references := reference :: builder.references }

/-- Opens a scope at a node.  A scope that hoists is its own hoisting scope, any
other has that of its parent. -/
def openScope (node : NodeId) (parent : Option ScopeId) (hoists : Bool) :
    Build ScopeId := do
  let graph ← graph? id
  let opened := graph.scopes.size
  let hoisting := match parent with
    | some parent => if hoists then opened else (graph.scope parent).hoisting
    | none => opened
  let scope : Scope := ⟨node, parent, hoisting, [], []⟩
  modifyGraph fun graph =>
    let scopes := graph.scopes.push scope
    match parent with
    | none => { graph with scopes }
    | some parent =>
        let adopt (scope : Scope) := { scope with children := scope.children ++ [opened] }
        { graph with scopes := scopes.modify parent adopt }
  return opened

def markDeclared (node : NodeId) (kind : SymbolKind) (symbol : SymbolId) : Build Unit :=
  if kind.isDeclaredByNode then
    modifyGraph fun graph =>
      { graph with declarations := graph.declarations.setIfInBounds node (some symbol) }
  else pure ()

/-- Declares a name in a scope.  A name that the scope already has is reported and
stays the symbol it was. -/
def declare (tree : Tree) (scope : ScopeId) (node : NodeId) (name : String)
    (kind : SymbolKind) : Build SymbolId := do
  match ← graph? (·.local? scope name) with
  | some existing =>
      report tree node (.duplicateDeclaration name)
      markDeclared node kind existing
      return existing
  | none =>
      let fresh ← graph? (·.symbols.size)
      modifyGraph fun graph =>
        let enter (scope : Scope) :=
          { scope with symbols := Record.insert name fresh scope.symbols }
        { graph with
          symbols := graph.symbols.push ⟨name, node, scope, kind, kind.isMutable, []⟩
          scopes := graph.scopes.modify scope enter }
      markDeclared node kind fresh
      return fresh

def declareNew (tree : Tree) (scope : ScopeId) (node : NodeId) (name : String)
    (kind : SymbolKind) : Build Unit := do
  if (← graph? (·.local? scope name)).isNone then
    let _ ← declare tree scope node name kind

def recordWrite (symbol : SymbolId) (value : NodeId) : Build Unit :=
  modifyGraph fun graph =>
    let add (symbol : Symbol) := { symbol with writes := symbol.writes ++ [value] }
    { graph with symbols := graph.symbols.modify symbol add }

/-- The scope that is active inside a node: a new one for programs, functions,
blocks, `try`, `catch` and `for`, that of the surroundings for all others. -/
def scopeInside (id : NodeId) (scope : ScopeId) : NodeKind → Build ScopeId
  | .program _ | .function _ => openScope id (some scope) true
  | .block _ | .tryStmt .. | .catchClause .. | .forStmt .. => openScope id (some scope) false
  | _ => pure scope

def declareVariables (tree : Tree) (scope : ScopeId) (kind : DeclarationKind)
    (declarators : List NodeId) : Build Unit :=
  declarators.forM fun declarator => do
    match tree.kind declarator with
    | .declarator name init =>
        let hoisting ← graph? fun graph => (graph.scope scope).hoisting
        let target := if kind = .var_ then hoisting else scope
        let symbol ← declare tree target declarator name (.ofDeclaration kind)
        init.forM (recordWrite symbol)
    | _ => pure ()

def declareParameter (tree : Tree) (scope : ScopeId) (parameter : NodeId) : Build Unit := do
  match tree.kind parameter with
  | .parameter name => let _ ← declare tree scope parameter name .parameter
  | _ => pure ()

/-- Declares what a function brings: the name of a declaration in the hoisting scope
around it, and inside it the parameters, `this` and `arguments` unless it is an
arrow, and the own name of a function expression unless a parameter has it. -/
def declareFunction (tree : Tree) (id : NodeId) (scope : ScopeId) (shape : FunctionShape) :
    Build Unit := do
  if let (.declaration, some name) := (shape.kind, shape.name) then
    let target ← graph? fun graph =>
      (graph.scope ((graph.scope scope).parent.getD scope)).hoisting
    let symbol ← declare tree target id name .function
    recordWrite symbol id
  shape.parameters.forM (declareParameter tree scope)
  if !shape.isArrow then
    let _ ← declare tree scope id "this" .this_
    declareNew tree scope id "arguments" .arguments
  if let (.expression, some name) := (shape.kind, shape.name) then
    declareNew tree scope id name .function

/-- Notes the write of an assignment to a name: the value itself, or the whole
assignment when it computes with the old value. -/
def noteAssignment (tree : Tree) (id : NodeId) (op : AssignOp) (target value : NodeId) :
    Build Unit :=
  match tree.kind target with
  | .identifier name =>
      note (.write target name (if op.binary?.isSome then id else value))
  | _ => pure ()

/-- What a node itself declares and refers to, inside its scope. -/
def enter (tree : Tree) (id : NodeId) (scope : ScopeId) : Build Unit :=
  match tree.kind id with
  | .declaration kind declarators => declareVariables tree scope kind declarators
  | .function shape => declareFunction tree id scope shape
  | .catchClause (some parameter) _ => declareParameter tree scope parameter
  | .identifier name => note (.read id name)
  | .thisExpr => note (.read id "this")
  | .assign op target value => noteAssignment tree id op target value
  | _ => pure ()

/-- Walks over a node and what is below it, down to a depth. -/
def visit (tree : Tree) : Nat → NodeId → ScopeId → Build Unit
  | 0, _, _ => pure ()
  | depth + 1, id, around => do
    let scope ← scopeInside id around (tree.kind id)
    modifyGraph fun graph =>
      { graph with nodeScopes := graph.nodeScopes.setIfInBounds id scope }
    enter tree id scope
    (tree.children id).forM fun child => visit tree depth child scope

def targets (references : List Reference) : List NodeId :=
  references.filterMap fun
    | .write node _ _ => some node
    | .read _ _ => none

def markResolved (node : NodeId) (symbol : SymbolId) : Build Unit :=
  modifyGraph fun graph =>
    { graph with resolutions := graph.resolutions.setIfInBounds node (some symbol) }

/-- Resolves a reading reference.  `this` outside every function is no problem. -/
def resolveRead (tree : Tree) (node : NodeId) (name : String) : Build Unit := do
  match ← graph? fun graph => graph.lookup? (graph.scopeOf node) name with
  | some symbol => markResolved node symbol
  | none => if name = "this" then pure () else report tree node (.unresolvedIdentifier name)

def resolveWrite (tree : Tree) (node : NodeId) (name : String) (value : NodeId) :
    Build Unit := do
  match ← graph? fun graph => graph.lookup? (graph.scopeOf node) name with
  | none => report tree node (.assignToUndeclared name)
  | some symbol =>
      markResolved node symbol
      if ← graph? fun graph => (graph.symbol symbol).mutable then
        recordWrite symbol value
      else
        report tree node (.assignToConstant name)

/-- Resolves the references in order.  The target of an assignment is met twice, as a
write and as a name; only the write counts. -/
def resolve (tree : Tree) (references : List Reference) : Build Unit :=
  let written := targets references
  references.forM fun
    | .read node name =>
        if written.contains node then pure () else resolveRead tree node name
    | .write node name value => resolveWrite tree node name value

/-- Builds everything: the global names, the walk and the resolution. -/
def build (tree : Tree) (globals : List String) : Build Unit := do
  let global ← openScope tree.root none true
  globals.forM fun name => do
    let _ ← declare tree global tree.root name .global
  visit tree (tree.size + 1) tree.root global
  resolve tree (← get).references.reverse

end ScopeBuilder

/-- The scope graph of a tree in which some names are global, and the diagnostics
with those of the names added. -/
def ScopeGraph.build (tree : Tree) (globals : List String) (diagnostics : Diagnostics) :
    ScopeGraph × Diagnostics :=
  let builder : ScopeBuilder := ⟨.empty tree.size, [], diagnostics⟩
  let ((), built) := (ScopeBuilder.build tree globals).run builder
  (built.graph, built.diagnostics)

end ScriptCheck
