import ScriptCheck.Frame.Basic

/-!
# Entering frames and using their names
-/

namespace ScriptCheck

/-- A computation on frames that may end in a fault. -/
abbrev FrameM := ExceptT Fault (StateM FrameStore)

namespace FrameM

def frameOf (id : FrameId) : FrameM Frame := do
  return (← get).frame id

def enter (frame : Frame) : FrameM FrameId :=
  modifyGet fun store => (store.frames.size, store.add frame)

def update (id : FrameId) (f : Frame → Frame) : FrameM Unit :=
  modifyGet fun store => ((), store.modify id f)

/-! ## Entering -/

def root (graph : ScopeGraph) (program : NodeId) : FrameM FrameId :=
  enter { node := program, scope := graph.scopeOf program }

/-- The frame for a node: a new one if the node opens a scope, otherwise the same. -/
def enterChild (graph : ScopeGraph) (current : FrameId) (node : NodeId) :
    FrameM FrameId := do
  let scope := graph.scopeOf node
  if scope = (← frameOf current).scope then return current
  enter { node, scope, parentFrame := some current, parentChain := some current }

/-- The frame for a call of a function that was made in the frame `origin`.  The
function's scope has to lie inside that of its origin. -/
def enterCallee (tree : Tree) (graph : ScopeGraph) (current : FrameId)
    (site callee : NodeId) (origin : FrameId) : FrameM FrameId := do
  let scope := graph.scopeOf callee
  let around := (← frameOf origin).scope
  if scope ≤ around then
    throw ⟨.scopeGenerationOrder around scope, tree.start site⟩
  enter {
    node := callee
    scope
    parentFrame := some current
    parentChain := some origin
    caller := some site }

/-- A frame over the current one for names that are narrowed in a branch. -/
def enterGuard (current : FrameId) : FrameM FrameId := do
  let frame ← frameOf current
  enter {
    node := frame.node
    scope := frame.scope
    parentFrame := some current
    parentChain := some current
    overlay := true }

/-! ## Names -/

def missing {α : Type} (tree : Tree) (graph : ScopeGraph) (place : NodeId)
    (symbol : SymbolId) : FrameM α :=
  throw ⟨.missingFrame (graph.symbol symbol).name, tree.start place⟩

/-- The first frame on the lexical chain that has a type for a name or a place for
it. -/
def owner? (store : FrameStore) (graph : ScopeGraph) (current : FrameId)
    (symbol : SymbolId) : Option FrameId :=
  (store.lexicalChain current).find? fun id =>
    let frame := store.frame id
    frame.holds symbol || frame.owns (graph.symbol symbol).scope

/-- The type of a name, none while nothing is assigned to it. -/
def readName (tree : Tree) (graph : ScopeGraph) (current : FrameId) (place : NodeId)
    (symbol : SymbolId) : FrameM (Option Ty) := do
  match owner? (← get) graph current symbol with
  | some owner => return (← frameOf owner).get? symbol
  | none => missing tree graph place symbol

def bind (current : FrameId) (symbol : SymbolId) (ty : Ty) : FrameM Unit :=
  update current (·.bind symbol ty)

/-- Writes a name along a chain: in every guard frame that shadows it, up to the frame
where it belongs.  Tells whether there was such a frame. -/
def writeAlong (scope : ScopeId) (symbol : SymbolId) (ty : Ty) :
    List FrameId → FrameM Bool
  | [] => return false
  | id :: rest => do
    let frame ← frameOf id
    if frame.holds symbol || frame.owns scope then
      update id (·.write symbol ty)
      if frame.overlay then writeAlong scope symbol ty rest else return true
    else writeAlong scope symbol ty rest

def writeName (tree : Tree) (graph : ScopeGraph) (current : FrameId) (place : NodeId)
    (symbol : SymbolId) (ty : Ty) : FrameM Unit := do
  let chain := (← get).lexicalChain current
  if ← writeAlong (graph.symbol symbol).scope symbol ty chain then return
  else missing tree graph place symbol

/-! ## Calls -/

/-- Whether a function is being called already.  If so, the innermost call under way
is marked as recursive. -/
def detectRecursion (current : FrameId) (callee : NodeId) : FrameM Bool := do
  let store ← get
  let calls := (store.callStack current).filter fun id => (store.frame id).isCall
  if calls.any fun id => (store.frame id).node = callee then
    calls.head?.forM fun innermost => update innermost ({ · with recursive := true })
    return true
  else return false

/-- Adds a type to what the function around a frame returns; false outside every
function. -/
def addReturned (current : FrameId) (ty : Ty) : FrameM Bool := do
  let store ← get
  match (store.lexicalChain current).find? fun id => (store.frame id).isCall with
  | some call =>
      update call fun frame => { frame with returned := frame.returned ++ [ty] }
      return true
  | none => return false

end FrameM

namespace FrameStore

/-- A place of the source, as call traces name it. -/
def site (tree : Tree) (node : NodeId) : String :=
  let line := (tree.start node).line
  let column := (tree.start node).column
  tree.file ++ s!":{line}:{column}"

/-- The trace of some frames, from a place that is still to be named after the
function it is in. -/
def traceFrom (tree : Tree) (place : String) : List Frame → List String
  | [] => [place]
  | frame :: rest =>
      match frame.caller with
      | none => traceFrom tree place rest
      | some caller =>
          let name := ((tree.function? frame.node).map FunctionShape.displayName).getD "anon"
          (name ++ " (" ++ place ++ ")") :: traceFrom tree (site tree caller) rest

/-- The calls that led to a node, the innermost first; empty outside every call. -/
def trace (store : FrameStore) (tree : Tree) (current : FrameId) (node : NodeId) :
    List String :=
  let stack := (store.callStack current).map store.frame
  if stack.any Frame.isCall then traceFrom tree (site tree node) stack else []

end FrameStore

end ScriptCheck
