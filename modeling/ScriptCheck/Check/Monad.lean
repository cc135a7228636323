import ScriptCheck.Check.Options
import ScriptCheck.Diagnostic
import ScriptCheck.Folding
import ScriptCheck.Frame.Access
import ScriptCheck.Types.Access

/-!
# Following a script

The state in which a script is followed: the types and frames made so far, the
problems found, and what has been folded.
-/

namespace ScriptCheck

/-- What stays the same while a script is followed. -/
structure CheckContext where
  tree : Tree
  graph : ScopeGraph
  options : CheckOptions
  /-- How often joins of types may nest. -/
  joinBound : Nat

/-- What changes while a script is followed. -/
structure CheckState where
  types : TypeStore
  frames : FrameStore
  diagnostics : Diagnostics
  memo : Folding.Memo

/-- A step in following a script. -/
abbrev CheckM := ReaderT CheckContext (StateT CheckState (Except Halt))

namespace CheckM

def tree : CheckM Tree := return (← read).tree

def graph : CheckM ScopeGraph := return (← read).graph

def types {α : Type} (computation : TypeM α) : CheckM α :=
  modifyGet fun ⟨types, frames, diagnostics, memo⟩ =>
    let (result, types) := computation.run types
    (result, ⟨types, frames, diagnostics, memo⟩)

def joins {α : Type} (computation : Nat → JoinM α) : CheckM α :=
  fun context ⟨types, frames, diagnostics, memo⟩ =>
    match (computation context.joinBound).run types with
    | some (result, types) => .ok (result, ⟨types, frames, diagnostics, memo⟩)
    | none => .error .joinExceeded

def frames {α : Type} (computation : FrameM α) : CheckM α :=
  fun _ ⟨types, frames, diagnostics, memo⟩ =>
    match computation.run frames with
    | (.ok result, frames) => .ok (result, ⟨types, frames, diagnostics, memo⟩)
    | (.error fault, _) => .error (.fault fault)

/-- The value of a node, if the text settles it. -/
def tryFold (node : NodeId) : CheckM (Option Value) := do
  let tree ← tree
  let graph ← graph
  modifyGet fun ⟨types, frames, diagnostics, memo⟩ =>
    let (result, memo) := (Folding.tryFold tree graph node).run memo
    (result, ⟨types, frames, diagnostics, memo⟩)

def report (frame : FrameId) (node : NodeId) (problem : Problem) : CheckM Unit := do
  let tree ← tree
  modify fun state =>
    let trace := state.frames.trace tree frame node
    let found := Diagnostic.ofProblem (tree.start node).location problem trace
    { state with diagnostics := state.diagnostics.report found }

def fail {α : Type} (cause : Fault.Cause) (node : NodeId) : CheckM α := do
  throw (.fault ⟨cause, (← tree).start node⟩)

/-- Ends at a node that cannot stand where it does. -/
def unsupported {α : Type} (node : NodeId) : CheckM α := do
  fail (.unsupportedSyntax ((← tree).kind node).name) node

/-- Ends at a node that lacks a child of some sort. -/
def missingChild {α : Type} (node : NodeId) (child : String) : CheckM α := do
  fail (.missingChild ((← tree).kind node).name child) node

end CheckM

/-- How nested expressions and statements are followed, for the rules of the nodes
that contain them. -/
structure Evaluator where
  expression : FrameId → NodeId → CheckM Ty
  statement : FrameId → NodeId → CheckM Unit

end ScriptCheck
