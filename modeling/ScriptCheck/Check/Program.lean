import ScriptCheck.Check.Statement
import ScriptCheck.Grammar.Program
import ScriptCheck.Scope.Build
import ScriptCheck.Token.Lexer

/-!
# Checking a program

The rules for expressions and statements are tied to one another up to a depth of
nesting.  Calls under way are calls of different functions, and between two calls
the nesting is that of the tree; so there is a depth, computed from the size of
the tree, that no program exceeds.
-/

namespace ScriptCheck

namespace Evaluator

def upTo : Nat → Evaluator
  | 0 =>
      { expression := fun _ _ => throw .depthExceeded
        statement := fun _ _ => throw .depthExceeded }
  | depth + 1 =>
      { expression := fun frame node context state =>
          Check.expressionRule (upTo depth) frame node context state
        statement := fun frame node context state =>
          Check.statementRule (upTo depth) frame node context state }

/-- A depth of nesting that a program of a size does not exceed: as many calls as there
are functions, and in each call as many nodes as there are, once as a statement
and once as an expression. -/
def depthFor (size : Nat) : Nat := (size + 2) * (2 * size + 4)

end Evaluator

namespace Check

open CheckM

def globalType : String → TypeM Ty
  | "undefined" => Ty.undefined
  | "NaN" => Ty.ofValue (.number Number.nan)
  | "Infinity" => Ty.ofValue (.number Number.infinity)
  | _ => Ty.unknown

def bindGlobals (frame : FrameId) (names : List String) : CheckM Unit :=
  names.forM fun name => do
    if let some symbol := (← graph).local? ScopeGraph.globalScope name then
      let ty ← types (globalType name)
      frames (FrameM.bind frame symbol ty)

/-- Follows the whole program and gives its outermost frame. -/
def program (eval : Evaluator) : CheckM FrameId := do
  let tree ← tree
  let root ← frames (FrameM.root (← graph) tree.root)
  bindGlobals root (← read).options.globals
  eval.statement root tree.root
  return root

end Check

/-- How often joins of types may nest before a check gives up. -/
def defaultJoinBound : Nat := 4096

/-- What is known after a whole program was followed. -/
structure Run where
  graph : ScopeGraph
  root : FrameId
  state : CheckState

def Tree.runWithin (joinBound : Nat) (tree : Tree) (options : CheckOptions) :
    Except Halt Run := do
  let (graph, diagnostics) :=
    ScopeGraph.build tree options.globals (.empty options.mergeDiagnostics)
  let eval := Evaluator.upTo (Evaluator.depthFor tree.size)
  let context : CheckContext := { tree, graph, options, joinBound }
  let start : CheckState :=
    { types := {}, frames := {}, diagnostics, memo := Folding.Memo.empty tree }
  let (root, state) ← (Check.program eval).run context |>.run start
  return ⟨graph, root, state⟩

def Tree.run (tree : Tree) (options : CheckOptions) : Except Halt Run :=
  tree.runWithin defaultJoinBound options

def Tree.check (tree : Tree) (options : CheckOptions) : Except Halt Diagnostics := do
  return (← tree.run options).state.diagnostics

def Tree.ofSource (source file : String) : Except Halt Tree := do
  let tokens ← (Lexer.tokenize source).mapError Halt.fault
  Tree.ofTokens tokens file

def checkSource (source file : String) (options : CheckOptions) :
    Except Halt Diagnostics := do
  (← Tree.ofSource source file).check options

end ScriptCheck
