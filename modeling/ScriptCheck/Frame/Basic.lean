import ScriptCheck.Fault
import ScriptCheck.Scope.Basic
import ScriptCheck.Types.Store

/-!
# Frames

A frame holds the types of the names of one scope while its code is followed.
Frames have two links: the frame that entered them, which gives the call stack,
and the frame of the scope around theirs, which gives the lexical chain.  A guard
frame lies over a frame of the same scope and shadows a few of its names.  Frames
are numbered as they are entered, so both links lead to smaller numbers.
-/

namespace ScriptCheck

/-- What set a name in a frame: a binding in this very frame, or a write along a chain. -/
inductive Setting where
  | bound (ty : Ty)
  | written (ty : Ty)
deriving Repr

/-- The type that a name was set to. -/
def Setting.ty : Setting → Ty
  | .bound ty | .written ty => ty

/-- One frame.  It keeps all that its names were set to, last first, and a name has the type
that it was set to last.  Frames entered by a call know the node of the call and collect what
the function returns. -/
structure Frame where
  node : NodeId
  scope : ScopeId
  settings : List (SymbolId × Setting) := []
  parentFrame : Option FrameId := none
  parentChain : Option FrameId := none
  caller : Option NodeId := none
  returned : List Ty := []
  recursive : Bool := false
  overlay : Bool := false
deriving Inhabited

namespace Frame

/-- The type of a name in this very frame. -/
def get? (frame : Frame) (symbol : SymbolId) : Option Ty :=
  (frame.settings.lookup symbol).map Setting.ty

/-- Whether this very frame has a type for a name. -/
def holds (frame : Frame) (symbol : SymbolId) : Bool :=
  (frame.get? symbol).isSome

def set (frame : Frame) (symbol : SymbolId) (setting : Setting) : Frame :=
  { frame with settings := (symbol, setting) :: frame.settings }

def bind (frame : Frame) (symbol : SymbolId) (ty : Ty) : Frame :=
  frame.set symbol (.bound ty)

def write (frame : Frame) (symbol : SymbolId) (ty : Ty) : Frame :=
  frame.set symbol (.written ty)

@[simp] theorem get?_set_self (frame : Frame) (symbol : SymbolId) (setting : Setting) :
    (frame.set symbol setting).get? symbol = some setting.ty := by
  simp [set, get?]

theorem get?_set_of_ne {symbol other : SymbolId} (h : other ≠ symbol) (frame : Frame)
    (setting : Setting) : (frame.set symbol setting).get? other = frame.get? other := by
  have hother : (other == symbol) = false := by simpa using h
  simp [set, get?, List.lookup_cons, hother]

/-- A name that was just bound has the type it was bound to. -/
@[simp] theorem get?_bind_self (frame : Frame) (symbol : SymbolId) (ty : Ty) :
    (frame.bind symbol ty).get? symbol = some ty :=
  frame.get?_set_self symbol _

/-- Binding a name leaves the others what they were. -/
theorem get?_bind_of_ne {symbol other : SymbolId} (h : other ≠ symbol) (frame : Frame)
    (ty : Ty) : (frame.bind symbol ty).get? other = frame.get? other :=
  frame.get?_set_of_ne h _

/-- A name that was just written has the type that was written. -/
@[simp] theorem get?_write_self (frame : Frame) (symbol : SymbolId) (ty : Ty) :
    (frame.write symbol ty).get? symbol = some ty :=
  frame.get?_set_self symbol _

/-- Writing a name leaves the others what they were. -/
theorem get?_write_of_ne {symbol other : SymbolId} (h : other ≠ symbol) (frame : Frame)
    (ty : Ty) : (frame.write symbol ty).get? other = frame.get? other :=
  frame.get?_set_of_ne h _

/-- Whether names of a scope belong into this frame. -/
def owns (frame : Frame) (scope : ScopeId) : Bool :=
  frame.scope = scope && !frame.overlay

def isCall (frame : Frame) : Bool := frame.caller.isSome

/-- A frame in brief, without what is bound in it: a closure that is bound leads back to the
frame it was made in. -/
def summary (frame : Frame) : String :=
  let node := frame.node
  let scope := frame.scope
  let caller := match frame.caller with
    | some site => s!"Some(NodeId({site}))"
    | none => "None"
  let overlay := if frame.overlay then "true" else "false"
  s!"Frame \x7b node: NodeId({node}), scope: ScopeId({scope}), " ++
    s!"caller: {caller}, overlay: {overlay} \x7d"

instance : Repr Frame := ⟨fun frame _ => frame.summary⟩

end Frame

/-- The frames entered so far. -/
structure FrameStore where
  frames : Array Frame := #[]
deriving Repr, Inhabited

namespace FrameStore

def frame (store : FrameStore) (id : FrameId) : Frame := store.frames.getD id default

/-- The store with one more frame, which gets the next number. -/
def add (store : FrameStore) (frame : Frame) : FrameStore :=
  { store with frames := store.frames.push frame }

def modify (store : FrameStore) (id : FrameId) (f : Frame → Frame) : FrameStore :=
  { store with frames := store.frames.modify id f }

@[simp] theorem frame_add_self (store : FrameStore) (frame : Frame) :
    (store.add frame).frame store.frames.size = frame := by
  simp [add, FrameStore.frame]

/-- Adding a frame leaves the others what they were. -/
theorem frame_add_of_lt {store : FrameStore} {id : FrameId} (h : id < store.frames.size)
    (frame : Frame) : (store.add frame).frame id = store.frame id := by
  have hne : id ≠ store.frames.size := Nat.ne_of_lt h
  simp [add, FrameStore.frame, Array.getElem?_push, hne]

theorem frame_modify_self {store : FrameStore} {id : FrameId} (h : id < store.frames.size)
    (f : Frame → Frame) : (store.modify id f).frame id = f (store.frame id) := by
  simp [FrameStore.modify, FrameStore.frame, h, Array.getElem_modify]

/-- Changing a frame leaves the others what they were. -/
theorem frame_modify_of_ne {id other : FrameId} (h : other ≠ id) (f : Frame → Frame)
    (store : FrameStore) : (store.modify id f).frame other = store.frame other := by
  have hne : ¬ id = other := fun he => h he.symm
  simp [FrameStore.modify, FrameStore.frame, Array.getElem?_modify, hne]

@[simp] theorem size_modify (store : FrameStore) (id : FrameId) (f : Frame → Frame) :
    (store.modify id f).frames.size = store.frames.size := by
  simp [FrameStore.modify]

/-- A frame and those around it, inwards to outwards. -/
def lexicalChain (store : FrameStore) (id : FrameId) : List FrameId :=
  match (store.frame id).parentChain with
  | none => [id]
  | some parent => if parent < id then id :: store.lexicalChain parent else [id]
termination_by id

/-- A frame and those that led to it, last to first. -/
def callStack (store : FrameStore) (id : FrameId) : List FrameId :=
  match (store.frame id).parentFrame with
  | none => [id]
  | some parent => if parent < id then id :: store.callStack parent else [id]
termination_by id

end FrameStore

end ScriptCheck
