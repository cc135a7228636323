import Mathlib.Data.List.Flatten
import ScriptCheck.Proofs.Check.Still
import ScriptCheck.Proofs.Check.Trace
import ScriptCheck.Proofs.Frame.Written
import ScriptCheck.Proofs.Scope.Writes

/-!
# Following a part of a script with room for its writes

Each part of a script has a share in the writes of a constant: the number of nodes in it that
declare the constant.  Where the frames of a call have room for the share of a part, the part
comes to the same in two ways, and leaves room for the shares of what comes after it.  The rules
below put parts together; a new frame has room for the whole of a function.
-/

namespace ScriptCheck

open ScopeGraph CheckM

/-! ## What is declared -/

theorem Tree.body_mem_children {tree : Tree} {node : NodeId} {shape : FunctionShape}
    (hfunction : tree.function? node = some shape) : shape.body ∈ tree.children node := by
  simp [Tree.children, Tree.function?_eq_some_iff.mp hfunction, NodeKind.children]

theorem Tree.lt_size_of_function? {tree : Tree} {node : NodeId} {shape : FunctionShape}
    (hfunction : tree.function? node = some shape) : node < tree.size :=
  Tree.size_gt_of_mem_children (body_mem_children hfunction)

namespace CheckContext

def share (context : CheckContext) (nodes : List NodeId) (symbol : SymbolId) : Nat :=
  (nodes.flatMap context.tree.preorder).countP fun node =>
    context.graph.declared? node = some symbol

/-- How often nodes of the program declare a symbol. -/
def limit (context : CheckContext) : SymbolId → Nat :=
  context.share [context.tree.root]

/-- The graph is that of the program, and what nodes declare belongs into the hoisting scope that
they stand in. -/
structure Hoists (context : CheckContext) : Prop where
  sound : context.Sound
  graph : context.graph.IsGraphOf context.tree context.options.globals
  declared : ∀ {node symbol around}, context.graph.declared? node = some symbol →
    (context.tree.kind node).declaresOutside → context.graph.StandsIn context.tree node around →
      (context.graph.scope around).hoisting ≤ (context.graph.symbol symbol).scope

variable {context : CheckContext} {nodes more : List NodeId} {node symbol : Nat}

theorem share_append (context : CheckContext) (nodes more : List NodeId) (symbol : SymbolId) :
    context.share (nodes ++ more) symbol =
      context.share nodes symbol + context.share more symbol := by
  simp [share]

theorem share_le_of_sublist (hsub : nodes.Sublist more) (symbol : SymbolId) :
    context.share nodes symbol ≤ context.share more symbol :=
  List.Sublist.countP_le (hsub.flatMap _)

theorem share_perm (hsame : nodes.Perm more) (symbol : SymbolId) :
    context.share nodes symbol = context.share more symbol :=
  (hsame.flatMap_right _).countP_eq _

namespace Hoists

variable (h : context.Hoists)
include h

theorem share_children_le (hlt : node < context.tree.size) (symbol : SymbolId) :
    context.share (context.tree.children node) symbol ≤ context.share [node] symbol := by
  rw [share, share, List.flatMap_singleton, h.sound.tree.preorder_eq hlt]
  exact List.Sublist.countP_le (List.sublist_cons_self _ _)

theorem one_le_share (hlt : node < context.tree.size)
    (hdeclared : context.graph.declared? node = some symbol) : 1 ≤ context.share [node] symbol := by
  rw [share, List.flatMap_singleton, h.sound.tree.preorder_eq hlt]
  exact List.countP_pos_iff.mpr ⟨node, List.mem_cons_self, by simpa using hdeclared⟩

/-- What a node declares is among what the program declares. -/
theorem share_le_limit (hlt : node < context.tree.size) (symbol : SymbolId) :
    context.share [node] symbol ≤ context.limit symbol := by
  have hsize := h.sound.tree.size_eq
  induction hrest : context.tree.size - node using Nat.strongRecOn generalizing node with
  | ind rest ih =>
      subst hrest
      by_cases hroot : node = context.tree.root
      · exact hroot ▸ Nat.le_refl _
      · obtain ⟨parent, hfound⟩ := h.sound.tree.exists_parent? (by omega : node < context.tree.root)
        obtain ⟨hdeeper, hparentLt, hchild⟩ := Tree.parent?_spec hfound
        calc context.share [node] symbol
            ≤ context.share (context.tree.children parent) symbol :=
              share_le_of_sublist (List.singleton_sublist.mpr hchild) symbol
          _ ≤ context.share [parent] symbol := h.share_children_le hparentLt symbol
          _ ≤ context.limit symbol := ih _ (by omega) hparentLt rfl

/-- The scope that a node opens has the hoisting scope of the scope around it or is one itself. -/
theorem hoisting_le_of_parent {scope parent : Nat}
    (haround : (context.graph.scope scope).parent = some parent) :
    (context.graph.scope parent).hoisting ≤ (context.graph.scope scope).hoisting := by
  have hlt := scope_lt_of_parent haround
  have hbelow := h.graph.tabled.parent_lt haround
  have hinside := h.graph.tabled.hoisting_le (Nat.lt_trans hbelow hlt)
  rw [h.graph.tabled.hoisting_eq scope hlt, haround]
  dsimp only
  split
  · exact Nat.le_trans hinside (Nat.le_of_lt hbelow)
  · exact Nat.le_refl _

theorem body_lt {shape : FunctionShape} (hfunction : context.tree.function? node = some shape) :
    shape.body < context.tree.size := by
  have hlt := Tree.lt_size_of_function? hfunction
  exact Nat.lt_trans (h.sound.tree.child_lt hlt (Tree.body_mem_children hfunction)) hlt

theorem hoisting_of_function {shape : FunctionShape}
    (hfunction : context.tree.function? node = some shape) :
    (context.graph.scope (context.graph.scopeOf node)).hoisting = context.graph.scopeOf node := by
  have hkind := Tree.function?_eq_some_iff.mp hfunction
  obtain ⟨hlt, hopener⟩ := h.sound.graph.opened node (Tree.lt_size_of_function? hfunction)
    (by simp [hkind, NodeKind.opensScope])
  rw [h.graph.tabled.hoisting_eq _ hlt, hopener, hkind]
  split <;> rfl

end Hoists

end CheckContext

/-! ## Following in two ways, with a limit -/

namespace CheckM

open FrameStore

variable {α β : Type}

/-- The first outcome is that the depth is exceeded, or the outcomes are the same and the frames
at the end are as told. -/
def Accounted (told : FrameStore → Prop) (first second : Except Halt (α × CheckState)) : Prop :=
  first = .error .depthExceeded ∨
    second = first ∧ ∀ result next, first = .ok (result, next) → told next.frames

theorem Accounted.of_error {told : FrameStore → Prop} (halt : Halt) :
    Accounted (α := α) told (.error halt) (.error halt) :=
  .inr ⟨rfl, fun _ _ hended => by cases hended⟩

theorem Accounted.imp {told other : FrameStore → Prop} {first second : Except Halt (α × CheckState)}
    (h : Accounted told first second) (himplies : ∀ frames, told frames → other frames) :
    Accounted other first second :=
  h.imp_right fun ⟨hsame, hall⟩ => ⟨hsame, fun result next hended =>
    himplies next.frames (hall result next hended)⟩

/-- From a state with at least the frames of a store, in which a frame has room for what some
nodes declare, two ways to go on come to the same, with no more writes than that. -/
def Affords (context : CheckContext) (store : FrameStore) (frame : Nat) (nodes : List NodeId)
    (first second : CheckM α) : Prop :=
  ∀ state : CheckState, store.Extends state.frames → frame < state.frames.frames.size →
    state.frames.Limited context.graph context.limit →
    state.frames.Room context.graph context.limit frame (context.share nodes) →
    Accounted (Spends context.graph context.limit frame (context.share nodes) state.frames)
      (first context state) (second context state)

namespace Affords

variable {context : CheckContext} {store : FrameStore} {frame : Nat} {nodes more : List NodeId}
  {first second : CheckM α} {f g : α → CheckM β}

theorem mono (h : Affords context store frame nodes first second)
    (hle : ∀ symbol, context.share nodes symbol ≤ context.share more symbol) :
    Affords context store frame more first second :=
  fun state hgrows hlt hlimited hroom =>
    (h state hgrows hlt hlimited (hroom.mono hle)).imp fun _ hspent => hspent.mono hle

theorem of_still {computation : CheckM α} (hstill : Still computation) :
    Affords context store frame nodes computation computation := by
  refine fun state _ _ hlimited _ => .inr ⟨rfl, fun result next hended => ?_⟩
  rw [hstill context state result next hended]
  exact hlimited.refl_spends frame _

theorem pure (result : α) :
    Affords context store frame nodes (Pure.pure result) (Pure.pure result) :=
  of_still (.pure result)

theorem types (computation : TypeM α) : Affords context store frame nodes
    (CheckM.types computation) (CheckM.types computation) :=
  of_still (.types computation)

theorem joins (computation : Nat → JoinM α) : Affords context store frame nodes
    (CheckM.joins computation) (CheckM.joins computation) :=
  of_still (.joins computation)

/-- What two parts declare is written by one and then the other. -/
theorem append (h : Affords context store frame nodes first second)
    (hrest : ∀ result, Affords context store frame more (f result) (g result)) :
    Affords context store frame (nodes ++ more) (first >>= f) (second >>= g) := by
  intro state hgrows hlt hlimited hroom
  have hshares : context.share (nodes ++ more) = fun symbol =>
      context.share nodes symbol + context.share more symbol :=
    funext (context.share_append nodes more)
  rw [hshares] at hroom ⊢
  rw [bind_apply, bind_apply]
  rcases h state hgrows hlt hlimited (hroom.mono fun _ => Nat.le_add_right _ _) with
    hexceeded | ⟨hsame, hspent⟩
  · exact .inl (by rw [hexceeded]; rfl)
  · rw [hsame]
    cases hrun : first context state with
    | error halt => exact .of_error halt
    | ok pair =>
        obtain ⟨result, next⟩ := pair
        have hstep := hspent result next hrun
        exact (hrest result next (hgrows.trans hstep.grows)
          (Nat.lt_of_lt_of_le hlt hstep.grows.size_le)
          hstep.limited (hroom.left hlt hstep)).imp fun _ hlater => hstep.trans hlt hlater

theorem bind (h : Affords context store frame [] first second)
    (hrest : ∀ result, Affords context store frame nodes (f result) (g result)) :
    Affords context store frame nodes (first >>= f) (second >>= g) :=
  h.append hrest

theorem ite {c : Prop} [Decidable c] {first' second' : CheckM α}
    (h : Affords context store frame nodes first second)
    (h' : Affords context store frame nodes first' second') :
    Affords context store frame nodes (if c then first else first')
      (if c then second else second') := by
  split
  · exact h
  · exact h'

theorem tree_bind {f g : Tree → CheckM β}
    (h : Affords context store frame nodes (f context.tree) (g context.tree)) :
    Affords context store frame nodes (tree >>= f) (tree >>= g) := h

theorem graph_bind {f g : ScopeGraph → CheckM β}
    (h : Affords context store frame nodes (f context.graph) (g context.graph)) :
    Affords context store frame nodes (graph >>= f) (graph >>= g) := h

theorem read_bind {f g : CheckContext → CheckM β}
    (h : Affords context store frame nodes (f context) (g context)) :
    Affords context store frame nodes (read >>= f) (read >>= g) := h

/-- One step for each node writes what all of them declare. -/
theorem forM {f g : NodeId → CheckM Unit}
    (h : ∀ node ∈ nodes, Affords context store frame [node] (f node) (g node)) :
    Affords context store frame nodes (nodes.forM f) (nodes.forM g) := by
  induction nodes with
  | nil => exact .pure ()
  | cons node rest ih =>
      exact (h node List.mem_cons_self).append fun _ =>
        ih fun other hmem => h other (List.mem_cons_of_mem node hmem)

theorem optionForM {item : Option NodeId} {f g : NodeId → CheckM Unit}
    (h : ∀ node, item = some node → Affords context store frame [node] (f node) (g node)) :
    Affords context store frame item.toList (item.forM f) (item.forM g) := by
  cases item with
  | none => exact .pure ()
  | some node => exact h node rfl

theorem mapM {items : List α} {f g : α → CheckM β}
    (h : ∀ item, Affords context store frame [] (f item) (g item)) :
    Affords context store frame nodes (items.mapM f) (items.mapM g) := by
  suffices hnone : Affords context store frame [] (items.mapM f) (items.mapM g) from
    hnone.mono fun _ => Nat.zero_le _
  induction items with
  | nil =>
      rw [List.mapM_nil, List.mapM_nil]
      exact .pure []
  | cons item rest ih =>
      rw [List.mapM_cons, List.mapM_cons]
      exact (h item).bind fun _ => ih.bind fun _ => .pure _

theorem foldlM {items : List α} {f g : β → α → CheckM β}
    (h : ∀ b item, Affords context store frame [] (f b item) (g b item)) (start : β) :
    Affords context store frame [] (items.foldlM f start) (items.foldlM g start) := by
  induction items generalizing start with
  | nil => exact .pure start
  | cons item rest ih =>
      rw [List.foldlM_cons, List.foldlM_cons]
      exact (h start item).bind ih

/-! ### Frames -/

theorem frames {computation : FrameM α}
    (h : ∀ later : FrameStore, store.Extends later → frame < later.frames.size →
      later.Limited context.graph context.limit →
      later.Room context.graph context.limit frame (context.share nodes) →
      Spends context.graph context.limit frame (context.share nodes) later
        (computation.run later).2) :
    Affords context store frame nodes (CheckM.frames computation)
      (CheckM.frames computation) := by
  refine fun state hgrows hlt hlimited hroom => .inr ⟨rfl, fun result next hended => ?_⟩
  have hspent := h state.frames hgrows hlt hlimited hroom
  rwa [(run_of_frames hended).1] at hspent

theorem looks {computation : FrameM α} (h : ∀ later, (computation.run later).2 = later) :
    Affords context store frame nodes (CheckM.frames computation) (CheckM.frames computation) :=
  frames fun later _ _ hlimited _ => (h later).symm ▸ hlimited.refl_spends frame _

theorem update (current : FrameId) {change : Frame → Frame}
    (houtline : ∀ found, (change found).outline = found.outline)
    (holds : ∀ found symbol, Frame.holds found symbol → (change found).holds symbol)
    (hsame : ∀ found symbol, (change found).writes symbol = found.writes symbol) :
    Affords context store frame nodes (CheckM.frames (FrameM.update current change))
      (CheckM.frames (FrameM.update current change)) :=
  frames fun _ _ _ hlimited _ => hlimited.spends_modify current houtline holds hsame frame _

theorem bindName (current : FrameId) (symbol : SymbolId) (ty : Ty) :
    Affords context store frame nodes (CheckM.frames (FrameM.bind current symbol ty))
      (CheckM.frames (FrameM.bind current symbol ty)) :=
  update current (fun _ => rfl) (fun _ _ => FrameM.holds_set _) fun found =>
    found.writes_bind symbol ty

theorem frameOf (current : FrameId) : Affords context store frame nodes
    (CheckM.frames (FrameM.frameOf current)) (CheckM.frames (FrameM.frameOf current)) :=
  looks fun _ => rfl

theorem detectRecursion (current : FrameId) (callee : NodeId) :
    Affords context store frame nodes (CheckM.frames (FrameM.detectRecursion current callee))
      (CheckM.frames (FrameM.detectRecursion current callee)) := by
  refine frames fun later _ _ hlimited _ => ?_
  let calls := (later.callStack current).filter fun id => (later.frame id).isCall
  have hrun : (FrameM.detectRecursion current callee).run later =
      (if calls.any fun id => (later.frame id).node = callee then do
          calls.head?.forM fun innermost => FrameM.update innermost ({ · with recursive := true })
          return true
        else return false : FrameM Bool).run later := rfl
  rw [hrun]
  split
  · cases calls.head? with
    | none => exact hlimited.refl_spends frame _
    | some innermost =>
        change Spends _ _ _ _ later (later.modify innermost ({ · with recursive := true }))
        refine hlimited.spends_modify innermost ?_ ?_ ?_ frame _
        · exact fun _ => rfl
        · exact fun _ _ held => held
        · exact fun _ _ => rfl
  · exact hlimited.refl_spends frame _

theorem addReturned (current : FrameId) (ty : Ty) :
    Affords context store frame nodes (CheckM.frames (FrameM.addReturned current ty))
      (CheckM.frames (FrameM.addReturned current ty)) := by
  refine frames fun later _ _ hlimited _ => ?_
  rw [FrameM.addReturned,
    FrameM.run_bind_of_ok (rfl : (get : FrameM FrameStore).run later = (.ok later, later))]
  cases (later.lexicalChain current).find? fun id => (later.frame id).isCall with
  | none => exact hlimited.refl_spends frame _
  | some call =>
      change Spends _ _ _ _ later
        (later.modify call fun found => { found with returned := found.returned ++ [ty] })
      refine hlimited.spends_modify call ?_ ?_ ?_ frame _
      · exact fun _ => rfl
      · exact fun _ _ held => held
      · exact fun _ _ => rfl

theorem readName (tree : Tree) (graph : ScopeGraph) (current : FrameId) (place : NodeId)
    (symbol : SymbolId) : Affords context store frame nodes
      (CheckM.frames (FrameM.readName tree graph current place symbol))
      (CheckM.frames (FrameM.readName tree graph current place symbol)) := by
  refine looks fun later => ?_
  rw [FrameM.readName,
    FrameM.run_bind_of_ok (rfl : (get : FrameM FrameStore).run later = (.ok later, later))]
  cases FrameM.owner? later graph current symbol <;> rfl

end Affords

/-! ### New frames -/

variable {context : CheckContext} {state : CheckState} {store : FrameStore} {frame : Nat}
  {nodes inner : List NodeId} {computation : FrameM FrameId} {entered : Frame}
  {f g : FrameId → CheckM β}

theorem accounted_of_add
    (hrun : computation.run state.frames =
      (.ok state.frames.frames.size, state.frames.add entered))
    (hunset : entered.settings = [])
    (hlimited : (state.frames.add entered).Limited context.graph context.limit)
    (hroom : (state.frames.add entered).Room context.graph context.limit
      state.frames.frames.size (context.share inner))
    (hamong : ∀ outer < state.frames.frames.size,
      outer ∈ (state.frames.add entered).sameCall context.graph state.frames.frames.size →
        outer ∈ state.frames.sameCall context.graph frame ∧
          ∀ symbol, context.share inner symbol ≤ context.share nodes symbol)
    (hrest : Affords context (state.frames.add entered) state.frames.frames.size inner
      (f state.frames.frames.size) (g state.frames.frames.size)) :
    Accounted (Spends context.graph context.limit frame (context.share nodes) state.frames)
      ((frames computation >>= f) context state) ((frames computation >>= g) context state) := by
  let later : CheckState := { state with frames := state.frames.add entered }
  have hentering : frames computation context state = .ok (state.frames.frames.size, later) :=
    frames_of_run hrun
  rw [bind_apply, bind_apply, hentering]
  have hlt : state.frames.frames.size < later.frames.frames.size :=
    size_add state.frames entered ▸ Nat.lt_succ_self _
  exact (hrest later (.refl _) hlt hlimited hroom).imp fun last hspent =>
    hspent.of_add hunset hamong

/-- Going on in a new frame of the same call, in a scope that is not further out. -/
theorem accounted_of_inside (hlt : frame < state.frames.frames.size)
    (hlimited : state.frames.Limited context.graph context.limit)
    (hroom : state.frames.Room context.graph context.limit frame (context.share nodes))
    (hrun : computation.run state.frames =
      (.ok state.frames.frames.size, state.frames.add entered))
    (hunset : entered.settings = []) (hparent : entered.parentChain = some frame)
    (hscope : (state.frames.frame frame).scope ≤ entered.scope)
    (hoisting : (context.graph.scope (state.frames.frame frame).scope).hoisting ≤
      (context.graph.scope entered.scope).hoisting)
    (hwithin : ∀ symbol, context.share nodes symbol ≤ context.limit symbol)
    (hrest : Affords context (state.frames.add entered) state.frames.frames.size nodes
      (f state.frames.frames.size) (g state.frames.frames.size)) :
    Accounted (Spends context.graph context.limit frame (context.share nodes) state.frames)
      ((frames computation >>= f) context state) ((frames computation >>= g) context state) := by
  have hamong : ∀ outer ∈ (state.frames.add entered).sameCall context.graph
      state.frames.frames.size, outer = state.frames.frames.size ∨
        outer ∈ state.frames.sameCall context.graph frame :=
    fun outer hmem => mem_sameCall_of_inside hparent hoisting hmem
  have hlimitedLater := hlimited.add hunset fun outer _ hown => by
    rw [hparent] at hown
    cases hown
    exact hscope
  refine accounted_of_add hrun hunset hlimitedLater (hroom.add hunset hamong hlt hwithin) ?_ hrest
  exact fun outer houterLt hmem => ⟨(hamong outer hmem).resolve_left (Nat.ne_of_lt houterLt),
    fun _ => Nat.le_refl _⟩

namespace Affords

theorem enterGuard (hlt : frame < store.frames.size)
    (hwithin : ∀ symbol, context.share nodes symbol ≤ context.limit symbol)
    (h : ∀ (later : FrameStore) (guard : Nat), guard < later.frames.size →
      (later.frame guard).scope = (store.frame frame).scope →
        Affords context later guard nodes (f guard) (g guard)) :
    Affords context store frame nodes (CheckM.frames (FrameM.enterGuard frame) >>= f)
      (CheckM.frames (FrameM.enterGuard frame) >>= g) := by
  intro state hgrows hstateLt hlimited hroom
  let entered : Frame :=
    { node := (state.frames.frame frame).node, scope := (state.frames.frame frame).scope,
      parentFrame := some frame, parentChain := some frame, overlay := true }
  have hrun : (FrameM.enterGuard frame).run state.frames =
      (.ok state.frames.frames.size, state.frames.add entered) := rfl
  refine accounted_of_inside hstateLt hlimited hroom hrun rfl rfl (Nat.le_refl _) (Nat.le_refl _)
    hwithin (h _ _ ?_ ?_)
  · exact size_add state.frames entered ▸ Nat.lt_succ_self _
  · rw [frame_add_self]
    exact hgrows.scope hlt

/-- Going on in the frame of a call, which has room for what the function declares. -/
theorem enterCallee (hoists : context.Hoists) {site function : NodeId} {origin : FrameId}
    {shape : FunctionShape} (hfound : context.tree.function? function = some shape)
    (h : ∀ (later : FrameStore) (callee : Nat), callee < later.frames.size →
      (later.frame callee).scope = context.graph.scopeOf function →
        Affords context later callee [shape.body] (f callee) (g callee)) :
    Affords context store frame nodes
      (CheckM.frames (FrameM.enterCallee context.tree context.graph frame site function origin) >>=
        f)
      (CheckM.frames (FrameM.enterCallee context.tree context.graph frame site function origin) >>=
        g) := by
  intro state _ _ hlimited _
  rcases FrameM.run_enterCallee context.tree context.graph frame site function origin state.frames
    with ⟨fault, hrun⟩ | ⟨hinside, hrun⟩
  · have hends : CheckM.frames (FrameM.enterCallee context.tree context.graph frame site function
        origin) context state = .error (.fault fault) := by
      unfold CheckM.frames
      dsimp only
      rw [hrun]
    rw [bind_apply, bind_apply, hends]
    exact .of_error _
  · let entered : Frame := .ofCall context.graph frame site function origin
    have honly : ∀ outer ∈ (state.frames.add entered).sameCall context.graph
        state.frames.frames.size, outer = state.frames.frames.size := by
      refine fun outer hmem => hlimited.eq_of_mem_sameCall (fun around _ hown => ?_) hmem
      cases hown
      exact (hoists.hoisting_of_function hfound).symm ▸ hinside
    have hlimitedLater := hlimited.add (rfl : entered.settings = []) fun around _ hown => by
      cases hown
      exact Nat.le_of_lt hinside
    refine accounted_of_add hrun rfl hlimitedLater ?_ ?_ (h _ _ ?_ ?_)
    · intro outer hmem symbol hconst
      rw [honly outer hmem, writes_add_self rfl, Nat.zero_add]
      exact hoists.share_le_limit (hoists.body_lt hfound) symbol
    · exact fun outer houterLt hmem => absurd (honly outer hmem) (Nat.ne_of_lt houterLt)
    · exact size_add state.frames entered ▸ Nat.lt_succ_self _
    · rw [frame_add_self]
      rfl

end Affords

end CheckM

end ScriptCheck
