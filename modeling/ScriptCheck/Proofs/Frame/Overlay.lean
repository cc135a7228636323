import ScriptCheck.Grammar.Program
import ScriptCheck.Proofs.Frame.Access
import ScriptCheck.Scope.Build
import ScriptCheck.Token.Lexer

/-!
# What is read through a guard

A write of a name goes outwards along a lexical chain.  It sets the name in the frame where
it ends and in those before it that shadow the name.  So a guard shows what was last bound
in it or written through it; writes that go around it, as those of a function that was made
outside of the branch do, leave it as it is.
-/

namespace ScriptCheck

namespace FrameStore

/-! ## The way of a write -/

/-- Whether a write of a name ends in a frame: the frame has a type for the name or a place
for it and is no guard. -/
def endsIn (store : FrameStore) (scope : ScopeId) (symbol : SymbolId) (id : FrameId) : Bool :=
  ((store.frame id).holds symbol || (store.frame id).owns scope) && !(store.frame id).overlay

/-- The first frames of a chain, up to the one where a write of a name ends. -/
def wayAlong (store : FrameStore) (scope : ScopeId) (symbol : SymbolId) :
    List FrameId → List FrameId
  | [] => []
  | id :: rest =>
      if store.endsIn scope symbol id then [id] else id :: store.wayAlong scope symbol rest

/-- The frames that a write of a name goes through, the one where it ends among them. -/
def way (store : FrameStore) (graph : ScopeGraph) (current : FrameId) (symbol : SymbolId) :
    List FrameId :=
  store.wayAlong (graph.symbol symbol).scope symbol (store.lexicalChain current)

theorem wayAlong_congr {store next : FrameStore} {scope : ScopeId} {symbol : SymbolId}
    (hsame : ∀ id, next.endsIn scope symbol id = store.endsIn scope symbol id)
    (chain : List FrameId) :
    next.wayAlong scope symbol chain = store.wayAlong scope symbol chain := by
  induction chain with
  | nil => rfl
  | cons id rest ih => rw [wayAlong, wayAlong, hsame, ih]

/-- A change of a frame changes that frame, if it is there. -/
theorem frame_modify (store : FrameStore) (first id : FrameId) (f : Frame → Frame) :
    (store.modify first f).frame id =
      if id = first ∧ id < store.frames.size then f (store.frame id) else store.frame id := by
  by_cases hsame : id = first
  · subst hsame
    by_cases hlt : id < store.frames.size
    · rw [frame_modify_self hlt, if_pos ⟨rfl, hlt⟩]
    · have hout := Nat.le_of_not_lt hlt
      rw [if_neg fun h => hlt h.2, frame_of_size_le hout, frame_of_size_le (by rwa [size_modify])]
  · rw [frame_modify_of_ne hsame, if_neg fun h => hsame h.1]

theorem lt_of_overlay {store : FrameStore} {id : FrameId}
    (hoverlay : (store.frame id).overlay = true) : id < store.frames.size := by
  refine Nat.lt_of_not_le fun hout => ?_
  rw [frame_of_size_le hout] at hoverlay
  cases hoverlay

/-- Where a write ends is not changed by a guard on its way. -/
theorem endsIn_modify_write {store : FrameStore} {guard : FrameId}
    (hoverlay : (store.frame guard).overlay = true) (scope : ScopeId) (symbol : SymbolId) (ty : Ty)
    (id : FrameId) :
    (store.modify guard (·.write symbol ty)).endsIn scope symbol id
      = store.endsIn scope symbol id := by
  by_cases hsame : id = guard
  · subst hsame
    simp [endsIn, frame_modify_self (lt_of_overlay hoverlay), Frame.write, Frame.set, hoverlay]
  · rw [endsIn, frame_modify_of_ne hsame, endsIn]

end FrameStore

namespace FrameM

open FrameStore

variable {store : FrameStore} {id : FrameId} {symbol other : SymbolId}

/-- A name that a change gives a type in a frame. -/
theorem get?_modify_self (hlt : id < store.frames.size) (first : FrameId) {f : Frame → Frame}
    {ty : Ty} (hgives : ∀ frame, (f frame).get? symbol = some ty) :
    ((store.modify first f).frame id).get? symbol
      = if id = first then some ty else (store.frame id).get? symbol := by
  split
  case isTrue hsame =>
    subst hsame
    rw [frame_modify_self hlt, hgives]
  case isFalse hdiffer => rw [frame_modify_of_ne hdiffer]

/-- A name that a change of a frame leaves what it was. -/
theorem get?_modify_of_ne (store : FrameStore) (first id : FrameId) {f : Frame → Frame}
    (hkeeps : ∀ frame, (f frame).get? other = frame.get? other) :
    ((store.modify first f).frame id).get? other = (store.frame id).get? other := by
  rw [frame_modify]
  split
  · exact hkeeps _
  · rfl

theorem writeAlong_cons_run (scope : ScopeId) (symbol : SymbolId) (ty : Ty) (first : FrameId)
    (rest : List FrameId) (store : FrameStore) :
    (writeAlong scope symbol ty (first :: rest)).run store =
      if (store.frame first).holds symbol || (store.frame first).owns scope then
        if (store.frame first).overlay then
          (writeAlong scope symbol ty rest).run (store.modify first (·.write symbol ty))
        else (.ok true, store.modify first (·.write symbol ty))
      else (writeAlong scope symbol ty rest).run store := by
  have hunfolded : (writeAlong scope symbol ty (first :: rest)).run store =
      (if (store.frame first).holds symbol || (store.frame first).owns scope then do
          update first (·.write symbol ty)
          if (store.frame first).overlay then writeAlong scope symbol ty rest else return true
        else writeAlong scope symbol ty rest : FrameM Bool).run store := rfl
  rw [hunfolded]
  split
  · split <;> rfl
  · rfl

/-- A frame that has a type for a name is given the written one exactly if it is on the way. -/
theorem get?_writeAlong (scope : ScopeId) (ty : Ty) (chain : List FrameId)
    (held : (store.frame id).holds symbol) :
    (((writeAlong scope symbol ty chain).run store).2.frame id).get? symbol
      = if id ∈ store.wayAlong scope symbol chain then some ty
        else (store.frame id).get? symbol := by
  induction chain generalizing store with
  | nil => rfl
  | cons first rest ih =>
      have hlt := lt_of_holds held
      have hwritten := get?_modify_self hlt first fun frame => frame.get?_write_self symbol ty
      rw [writeAlong_cons_run, wayAlong, endsIn]
      split
      case isFalse hnoPlace =>
        have hdiffer : id ≠ first := by
          rintro rfl
          simp [held] at hnoPlace
        simp [hnoPlace, ih held, hdiffer]
      case isTrue hplace =>
        cases hoverlay : (store.frame first).overlay with
        | false => simp [hplace, hwritten]
        | true =>
            have hnext := wayAlong_congr (endsIn_modify_write hoverlay scope symbol ty) rest
            have hstillHeld := (extends_write store first symbol ty).holds held
            simp only [hplace, if_true, ih hstillHeld, hnext, hwritten]
            grind

/-- Writing a name leaves the other names what they were. -/
theorem get?_writeAlong_of_ne (scope : ScopeId) (ty : Ty) (chain : List FrameId)
    (hdiffer : other ≠ symbol) :
    (((writeAlong scope symbol ty chain).run store).2.frame id).get? other
      = (store.frame id).get? other := by
  induction chain generalizing store with
  | nil => rfl
  | cons first rest ih =>
      have hkept := get?_modify_of_ne store first id fun frame => frame.get?_write_of_ne hdiffer ty
      rw [writeAlong_cons_run]
      split
      · split
        · exact ih.trans hkept
        · exact hkept
      · exact ih

theorem writeName_run_snd (tree : Tree) (graph : ScopeGraph) (current : FrameId) (place : NodeId)
    (symbol : SymbolId) (ty : Ty) (store : FrameStore) :
    ((writeName tree graph current place symbol ty).run store).2 =
      ((writeAlong (graph.symbol symbol).scope symbol ty (store.lexicalChain current)).run
        store).2 := by
  obtain ⟨found, next, hrun, -⟩ :=
    run_writeAlong (graph.symbol symbol).scope symbol ty (store.lexicalChain current) store
  have hwrite := run_bind_of_ok (f := fun found => if found then pure () else
    missing tree graph place symbol) hrun
  have hwhole : (writeName tree graph current place symbol ty).run store = _ := hwrite
  rw [hwhole, hrun]
  cases found <;> rfl

end FrameM

/-! ## Actions -/

/-- What is done with frames: entering them and binding and writing names. -/
inductive FrameAction where
  | child (current : FrameId) (node : NodeId)
  | callee (current : FrameId) (site function : NodeId) (origin : FrameId)
  | guard (current : FrameId)
  | bind (current : FrameId) (symbol : SymbolId) (ty : Ty)
  | write (current : FrameId) (place : NodeId) (symbol : SymbolId) (ty : Ty)

namespace FrameAction

open FrameM FrameStore

variable (tree : Tree) (graph : ScopeGraph)

def perform : FrameAction → FrameM Unit
  | .child current node => do let _ ← enterChild graph current node
  | .callee current site function origin => do
    let _ ← enterCallee tree graph current site function origin
  | .guard current => do let _ ← enterGuard current
  | .bind current symbol ty => FrameM.bind current symbol ty
  | .write current place symbol ty => writeName tree graph current place symbol ty

/-- The frames after an action, also if it ends in a fault. -/
def after (store : FrameStore) (action : FrameAction) : FrameStore :=
  ((action.perform tree graph).run store).2

/-- The type that an action gives a name in a frame that has one: what is bound in that very
frame or written to a place on the way to which the frame lies. -/
def given? (store : FrameStore) (id : FrameId) (symbol : SymbolId) : FrameAction → Option Ty
  | .bind current other ty => if current = id ∧ other = symbol then some ty else none
  | .write current _ other ty =>
      if other = symbol ∧ id ∈ store.way graph current symbol then some ty else none
  | _ => none

/-- The type that actions, one after the other, gave a name in a frame last. -/
def latest? (id : FrameId) (symbol : SymbolId) :
    FrameStore → List FrameAction → Option Ty → Option Ty
  | _, [], shown => shown
  | store, action :: rest, shown =>
      latest? id symbol (action.after tree graph store) rest
        ((action.given? graph store id symbol).or shown)

variable {tree graph} {store : FrameStore} {id : FrameId} {symbol : SymbolId}

/-- Entering a frame leaves those that are there as they are. -/
theorem frame_after_enter (hlt : id < store.frames.size) (frame : Frame) :
    (((do let _ ← FrameM.enter frame) : FrameM Unit).run store).2.frame id = store.frame id :=
  frame_add_of_lt hlt frame

/-- A name that a frame has keeps its type in it unless the action gives it another. -/
theorem get?_after (held : (store.frame id).holds symbol) (action : FrameAction) :
    ((action.after tree graph store).frame id).get? symbol
      = (action.given? graph store id symbol).or ((store.frame id).get? symbol) := by
  have hlt := lt_of_holds held
  cases action with
  | child current node =>
      change ((((do let _ ← (if graph.scopeOf node = (store.frame current).scope then pure current
        else FrameM.enter _)) : FrameM Unit).run store).2.frame id).get? symbol = _
      split
      · rfl
      · rw [frame_after_enter hlt]
        rfl
  | callee current site function origin =>
      change ((((do let _ ← (if graph.scopeOf function ≤ (store.frame origin).scope then throw _
        else FrameM.enter _)) : FrameM Unit).run store).2.frame id).get? symbol = _
      split
      · rfl
      · rw [frame_after_enter hlt]
        rfl
  | guard current =>
      change ((((do let _ ← FrameM.enter _) : FrameM Unit).run store).2.frame id).get? symbol = _
      rw [frame_after_enter hlt]
      rfl
  | bind current other ty =>
      change ((store.modify current (·.bind other ty)).frame id).get? symbol = _
      by_cases hsame : other = symbol
      · subst hsame
        rw [get?_modify_self hlt _ fun frame => frame.get?_bind_self other ty, given?]
        grind
      · rw [get?_modify_of_ne _ _ _ fun frame => frame.get?_bind_of_ne (Ne.symm hsame) ty]
        simp [given?, hsame]
  | write current place other ty =>
      rw [after, perform, writeName_run_snd]
      by_cases hsame : other = symbol
      · subst hsame
        rw [get?_writeAlong _ _ _ held, given?, way]
        grind
      · rw [get?_writeAlong_of_ne _ _ _ (Ne.symm hsame)]
        simp [given?, hsame]

theorem holds_after (held : (store.frame id).holds symbol) (action : FrameAction) :
    ((action.after tree graph store).frame id).holds symbol := by
  rw [Frame.holds] at held ⊢
  rw [get?_after held, Option.isSome_or, held, Bool.or_true]

theorem holds_afterAll (held : (store.frame id).holds symbol) (actions : List FrameAction) :
    ((actions.foldl (after tree graph) store).frame id).holds symbol := by
  induction actions generalizing store with
  | nil => exact held
  | cons action rest ih => exact ih (holds_after held action)

/-- A name that a frame has is shown with the type it was given last. -/
theorem get?_afterAll (held : (store.frame id).holds symbol) (actions : List FrameAction) :
    ((actions.foldl (after tree graph) store).frame id).get? symbol
      = latest? tree graph id symbol store actions ((store.frame id).get? symbol) := by
  induction actions generalizing store with
  | nil => rfl
  | cons action rest ih =>
      rw [List.foldl_cons, ih (holds_after held action), get?_after held]
      rfl

theorem readName_run_of_holds (held : (store.frame id).holds symbol) (place : NodeId) :
    (readName tree graph id place symbol).run store
      = (.ok ((store.frame id).get? symbol), store) := by
  have howner : owner? store graph id symbol = some id := by
    rw [owner?, lexicalChain]
    split
    · simp [held]
    · split <;> simp [held]
  rw [readName, run_bind_of_ok (rfl : (get : FrameM FrameStore).run store = (.ok store, store)),
    howner]
  rfl

/-- Once a name is bound in a guard, or any other frame, whatever is done with frames then:
reading the name through that frame gives the type that was last bound in the frame, or
written through a frame from which the way to where the name belongs leads over it. -/
theorem readName_after_bind (tree : Tree) (graph : ScopeGraph) {store : FrameStore}
    {guard : FrameId} (hlt : guard < store.frames.size) (symbol : SymbolId) (ty : Ty)
    (actions : List FrameAction) (place : NodeId) :
    let bound := (bind guard symbol ty).after tree graph store
    let last := actions.foldl (after tree graph) bound
    (readName tree graph guard place symbol).run last
      = (.ok (latest? tree graph guard symbol bound actions (some ty)), last) := by
  intro bound last
  have hshown : (bound.frame guard).get? symbol = some ty := by
    change ((store.modify guard (·.bind symbol ty)).frame guard).get? symbol = some ty
    rw [get?_modify_self hlt _ fun frame => frame.get?_bind_self symbol ty, if_pos rfl]
  have held : (bound.frame guard).holds symbol := by rw [Frame.holds, hshown]; rfl
  have heldLast : (last.frame guard).holds symbol := holds_afterAll held actions
  rw [readName_run_of_holds heldLast, get?_afterAll held, hshown]

/-- A program that calls a function which sets a name. -/
def callTree : Tree :=
  let tokens := (Lexer.tokenize "var x; function f() { x = 1; } f();").toOption.getD []
  (Tree.ofTokens tokens "").toOption.getD ⟨#[], 0, ""⟩

def callGraph : ScopeGraph := (ScopeGraph.build callTree [] (.empty true)).1

/-- A guard over the outermost frame of the program. -/
def guardedFrames : FrameStore :=
  (guard 0).after callTree callGraph ((root callGraph callTree.root).run {}).2

/-- Of two calls of the function, made outside and inside of the guard, the guard shows what
the second one writes, also once the first one writes again. -/
theorem readName_after_bind_calls :
    let actions : List FrameAction := [.callee 1 9 7 0, .write 2 9 0 (.plain 1),
      .callee 1 9 7 1, .write 3 9 0 (.plain 2), .write 2 9 0 (.plain 3)]
    let bound := (bind 1 0 (.plain 0)).after callTree callGraph guardedFrames
    let last := actions.foldl (after callTree callGraph) bound
    1 < guardedFrames.frames.size ∧
      (readName callTree callGraph 1 9 0).run last = (.ok (some (.plain 2)), last) := by
  intro actions bound last
  have hlt : 1 < guardedFrames.frames.size := by decide +kernel
  have hlatest : latest? callTree callGraph 1 0 bound actions (some (.plain 0))
      = some (.plain 2) := by decide +kernel
  have hshown := readName_after_bind callTree callGraph hlt 0 (.plain 0) actions 9
  exact ⟨hlt, hlatest ▸ hshown⟩

/-- Writes through the guard and through a call of a function that was made outside of it end
in the same frame, but what the call wrote last is not what is read through the guard. -/
theorem readName_around_guard :
    let bound := (bind 1 0 (.plain 0)).after callTree callGraph guardedFrames
    let called := (callee 1 9 7 0).after callTree callGraph bound
    let last := (write 2 9 0 (.plain 1)).after callTree callGraph called
    (called.way callGraph 2 0).getLast? = (called.way callGraph 1 0).getLast? ∧
      ((readName callTree callGraph 2 9 0).run last).1.toOption = some (some (.plain 1)) ∧
      ((readName callTree callGraph 1 9 0).run last).1.toOption = some (some (.plain 0)) := by
  decide +kernel

end FrameAction

end ScriptCheck
