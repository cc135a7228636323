import ScriptCheck.Tree.Basic

/-!
# Scopes and symbols

The scopes of a script form a tree whose indices follow the order in which the
scopes open: a scope has a larger index than every scope around it.  The first
scope holds the names that every script may use, and the program's own scope is
its only child.
-/

namespace ScriptCheck

abbrev ScopeId := Nat

abbrev SymbolId := Nat

inductive SymbolKind where
  | var_ | let_ | const_ | parameter | function | this_ | arguments | global
deriving DecidableEq, Repr, Inhabited

namespace SymbolKind

def name : SymbolKind → String
  | var_ => "Var"
  | let_ => "Let"
  | const_ => "Const"
  | parameter => "Parameter"
  | function => "Function"
  | this_ => "This"
  | arguments => "Arguments"
  | global => "Global"

/-- Whether a symbol can be found by the node that declares it.  The symbols that
come with a function share its node, and global names have none. -/
def isDeclaredByNode : SymbolKind → Bool
  | this_ | arguments | global => false
  | _ => true

def isMutable : SymbolKind → Bool
  | const_ | this_ => false
  | _ => true

/-- The sort of symbol that a declaration of variables makes. -/
def ofDeclaration : DeclarationKind → SymbolKind
  | .var_ => var_
  | .let_ => let_
  | .const_ => const_

end SymbolKind

/-- A name in a scope.  The writes are the nodes whose values are stored under the
name, the initialiser among them. -/
structure Symbol where
  name : String
  node : NodeId
  scope : ScopeId
  kind : SymbolKind
  mutable : Bool
  writes : List NodeId
deriving Repr, Inhabited

/-- A region of the script with names of its own.  Variables declared by `var` land
in the nearest region of a whole function or program, its hoisting scope. -/
structure Scope where
  node : NodeId
  parent : Option ScopeId
  hoisting : ScopeId
  children : List ScopeId
  symbols : List (String × SymbolId)
deriving Repr, Inhabited

def Scope.get? (scope : Scope) (name : String) : Option SymbolId :=
  Record.get? name scope.symbols

/-- The scopes and symbols of a script, the scope of each node, and for each node the
symbol that it declares or refers to. -/
structure ScopeGraph where
  scopes : Array Scope
  symbols : Array Symbol
  nodeScopes : Array ScopeId
  declarations : Array (Option SymbolId)
  resolutions : Array (Option SymbolId)
deriving Repr, Inhabited

namespace ScopeGraph

def empty (nodeCount : Nat) : ScopeGraph where
  scopes := #[]
  symbols := #[]
  nodeScopes := Array.replicate nodeCount 0
  declarations := Array.replicate nodeCount none
  resolutions := Array.replicate nodeCount none

/-- The scope of the names that every script may use. -/
def globalScope : ScopeId := 0

def scope (graph : ScopeGraph) (id : ScopeId) : Scope := graph.scopes.getD id default

def symbol (graph : ScopeGraph) (id : SymbolId) : Symbol := graph.symbols.getD id default

/-- The scope at a node.  A node that opens a scope is in that scope. -/
def scopeOf (graph : ScopeGraph) (node : NodeId) : ScopeId := graph.nodeScopes.getD node 0

def declared? (graph : ScopeGraph) (node : NodeId) : Option SymbolId :=
  graph.declarations.getD node none

def resolved? (graph : ScopeGraph) (node : NodeId) : Option SymbolId :=
  graph.resolutions.getD node none

def local? (graph : ScopeGraph) (scope : ScopeId) (name : String) : Option SymbolId :=
  (graph.scope scope).get? name

def lookup? (graph : ScopeGraph) (scope : ScopeId) (name : String) : Option SymbolId :=
  match graph.local? scope name with
  | some symbol => some symbol
  | none =>
      match (graph.scope scope).parent with
      | none => none
      | some parent => if parent < scope then graph.lookup? parent name else none
termination_by scope

end ScopeGraph

end ScriptCheck
