import ScriptCheck.Frame.Access
import ScriptCheck.Proofs.Scope.Graph

/-!
# The links of frames

Frames never lose a name and never change their links.  Along the lexical chain of a
frame lie the scopes around its own, so every name that is visible in a scope has a
place on the chain; along its call stack no function is called twice.
-/

namespace ScriptCheck

open ScopeGraph

/-- The function nodes of a tree. -/
def Tree.functions (tree : Tree) : List NodeId :=
  (List.range tree.size).filter fun node => (tree.function? node).isSome

theorem Tree.length_functions_le (tree : Tree) : tree.functions.length ≤ tree.size := by
  have hle := List.length_filter_le (fun node => (tree.function? node).isSome)
    (List.range tree.size)
  rwa [List.length_range] at hle

def NodeKind.isInvocation : NodeKind → Bool
  | call .. | newExpr .. => true
  | _ => false

def Frame.outline (frame : Frame) : Frame :=
  { frame with settings := [], returned := [], recursive := false }

namespace FrameStore

/-- A later store has all frames of an earlier one, with the names that they had. -/
structure Extends (before after : FrameStore) : Prop where
  size_le : before.frames.size ≤ after.frames.size
  outline : ∀ {id : Nat}, id < before.frames.size →
    (after.frame id).outline = (before.frame id).outline
  holds : ∀ {id : Nat} {symbol : SymbolId}, (before.frame id).holds symbol →
    (after.frame id).holds symbol

/-- The functions that are called where a frame is the current one, the innermost first. -/
def calls (store : FrameStore) (id : FrameId) : List NodeId :=
  ((store.callStack id).filter fun frame => (store.frame frame).isCall).map
    fun frame => (store.frame frame).node

structure IsRoot (tree : Tree) (graph : ScopeGraph) (globals : List String) (frame : Frame) :
    Prop where
  scope : frame.scope = graph.scopeOf tree.root
  parentChain : frame.parentChain = none
  parentFrame : frame.parentFrame = none
  overlay : frame.overlay = false
  caller : frame.caller = none
  global : ∀ name ∈ globals, ∀ symbol, graph.local? globalScope name = some symbol →
    frame.holds symbol

/-- A frame other than the outermost fits the frames that it links to: a guard lies over a
frame of its scope, any other frame inside the frame of the scope around its own.  Only
calls lead away from the lexical chain, and they lead to a frame of the scope of the node that
calls.  The scope of a function has no frames but those of its calls. -/
structure IsLinked (tree : Tree) (graph : ScopeGraph) (store : FrameStore) (id : Nat) : Prop where
  chain : ∃ outer : Nat, outer < id ∧ (store.frame id).parentChain = some outer ∧
    if (store.frame id).overlay then (store.frame id).scope = (store.frame outer).scope
    else (graph.scope (store.frame id).scope).parent = some (store.frame outer).scope
  stack : ∃ entered : Nat, entered < id ∧ (store.frame id).parentFrame = some entered
  plain : (store.frame id).isCall = false →
    (store.frame id).parentFrame = (store.frame id).parentChain
  call : (store.frame id).isCall → (store.frame id).overlay = false ∧
    (store.frame id).node < tree.size ∧ (tree.function? (store.frame id).node).isSome ∧
      (store.frame id).scope = graph.scopeOf (store.frame id).node
  opener : (store.frame id).isCall = false → (store.frame id).overlay = false →
    ∃ opener : Nat, opener < tree.size ∧ (tree.kind opener).opensScope ∧
      tree.function? opener = none ∧ (store.frame id).scope = graph.scopeOf opener
  site : ∀ {site entered : Nat}, (store.frame id).caller = some site →
    (store.frame id).parentFrame = some entered → site < tree.size ∧
      (tree.kind site).isInvocation ∧ (store.frame entered).scope = graph.scopeOf site

/-- The frames of a program that is followed. -/
structure Lawful (tree : Tree) (graph : ScopeGraph) (globals : List String)
    (store : FrameStore) : Prop where
  pos : 0 < store.frames.size
  root : IsRoot tree graph globals (store.frame 0)
  linked : ∀ id : Nat, 0 < id → id < store.frames.size → IsLinked tree graph store id
  distinct : ∀ id : Nat, id < store.frames.size → (store.calls id).Nodup

variable {tree : Tree} {graph : ScopeGraph} {globals : List String}
  {store next last : FrameStore}

/-! ## Later stores -/

theorem frame_of_size_le {id : Nat} (h : store.frames.size ≤ id) : store.frame id = default := by
  simp [FrameStore.frame, Array.getElem?_eq_none h]

theorem lt_of_holds {id : Nat} {symbol : SymbolId} (h : (store.frame id).holds symbol) :
    id < store.frames.size := by
  by_cases hlt : id < store.frames.size
  · exact hlt
  · rw [frame_of_size_le (Nat.le_of_not_lt hlt)] at h
    cases h

namespace Extends

theorem refl (store : FrameStore) : store.Extends store :=
  ⟨Nat.le_refl _, fun _ => rfl, fun h => h⟩

theorem trans (h : store.Extends next) (hlast : next.Extends last) : store.Extends last where
  size_le := Nat.le_trans h.size_le hlast.size_le
  outline hid := (hlast.outline (Nat.lt_of_lt_of_le hid h.size_le)).trans (h.outline hid)
  holds hheld := hlast.holds (h.holds hheld)

variable {id : Nat}

theorem node (h : store.Extends next) (hid : id < store.frames.size) :
    (next.frame id).node = (store.frame id).node := by
  have hsame := congrArg Frame.node (h.outline hid)
  exact hsame

theorem scope (h : store.Extends next) (hid : id < store.frames.size) :
    (next.frame id).scope = (store.frame id).scope := by
  have hsame := congrArg Frame.scope (h.outline hid)
  exact hsame

theorem parentFrame (h : store.Extends next) (hid : id < store.frames.size) :
    (next.frame id).parentFrame = (store.frame id).parentFrame := by
  have hsame := congrArg Frame.parentFrame (h.outline hid)
  exact hsame

theorem parentChain (h : store.Extends next) (hid : id < store.frames.size) :
    (next.frame id).parentChain = (store.frame id).parentChain := by
  have hsame := congrArg Frame.parentChain (h.outline hid)
  exact hsame

theorem overlay (h : store.Extends next) (hid : id < store.frames.size) :
    (next.frame id).overlay = (store.frame id).overlay := by
  have hsame := congrArg Frame.overlay (h.outline hid)
  exact hsame

theorem caller (h : store.Extends next) (hid : id < store.frames.size) :
    (next.frame id).caller = (store.frame id).caller := by
  have hsame := congrArg Frame.caller (h.outline hid)
  exact hsame

theorem isCall (h : store.Extends next) (hid : id < store.frames.size) :
    (next.frame id).isCall = (store.frame id).isCall := by
  rw [Frame.isCall, h.caller hid, Frame.isCall]

end Extends

theorem extends_add (store : FrameStore) (frame : Frame) : store.Extends (store.add frame) where
  size_le := by simp [FrameStore.add]
  outline hid := by rw [frame_add_of_lt hid]
  holds hheld := by rwa [frame_add_of_lt (lt_of_holds hheld)]

theorem extends_modify (store : FrameStore) (id : FrameId) {f : Frame → Frame}
    (houtline : ∀ frame, (f frame).outline = frame.outline)
    (hholds : ∀ frame symbol, frame.holds symbol → (f frame).holds symbol) :
    store.Extends (store.modify id f) := by
  refine ⟨Nat.le_of_eq (size_modify store id f).symm, fun {other} hother => ?_,
    fun {other} {symbol} hheld => ?_⟩
  · by_cases heq : other = id
    · subst heq
      rw [frame_modify_self hother, houtline]
    · rw [frame_modify_of_ne heq]
  · by_cases heq : other = id
    · subst heq
      rw [frame_modify_self (lt_of_holds hheld)]
      exact hholds _ _ hheld
    · rwa [frame_modify_of_ne heq]

/-! ## Chains and stacks -/

theorem mem_callStack_le {id entered : Nat} (h : entered ∈ store.callStack id) : entered ≤ id := by
  induction id using Nat.strongRecOn with
  | ind id ih =>
      rw [callStack] at h
      split at h
      · cases List.mem_singleton.mp h
        exact Nat.le_refl _
      · split at h
        · rename_i hlt
          rcases List.mem_cons.mp h with rfl | h
          · exact Nat.le_refl _
          · exact Nat.le_of_lt (Nat.lt_of_le_of_lt (ih _ hlt h) hlt)
        · cases List.mem_singleton.mp h
          exact Nat.le_refl _

theorem mem_lexicalChain_le {id outer : Nat} (h : outer ∈ store.lexicalChain id) : outer ≤ id := by
  induction id using Nat.strongRecOn with
  | ind id ih =>
      rw [lexicalChain] at h
      split at h
      · cases List.mem_singleton.mp h
        exact Nat.le_refl _
      · split at h
        · rename_i hlt
          rcases List.mem_cons.mp h with rfl | h
          · exact Nat.le_refl _
          · exact Nat.le_of_lt (Nat.lt_of_le_of_lt (ih _ hlt h) hlt)
        · cases List.mem_singleton.mp h
          exact Nat.le_refl _

theorem Extends.callStack (h : store.Extends next) {id : Nat} (hid : id < store.frames.size) :
    next.callStack id = store.callStack id := by
  induction id using Nat.strongRecOn with
  | ind id ih =>
      rw [FrameStore.callStack, h.parentFrame hid, FrameStore.callStack]
      split
      · rfl
      · split
        · rename_i hlt
          rw [ih _ hlt (Nat.lt_trans hlt hid)]
        · rfl

theorem Extends.calls (h : store.Extends next) {id : Nat} (hid : id < store.frames.size) :
    next.calls id = store.calls id := by
  have hbelow : ∀ entered : Nat, entered ∈ store.callStack id → entered < store.frames.size :=
    fun entered hmem => Nat.lt_of_le_of_lt (mem_callStack_le hmem) hid
  unfold FrameStore.calls
  rw [h.callStack hid, List.filter_congr fun entered hmem => h.isCall (hbelow entered hmem)]
  exact List.map_congr_left fun entered hmem => h.node (hbelow entered (List.mem_filter.mp hmem).1)

/-- A frame and the calls that led to it, from those that led to the frame before it. -/
theorem calls_of_parentFrame {id entered : Nat} (hlt : entered < id)
    (h : (store.frame id).parentFrame = some entered) :
    store.calls id =
      (if (store.frame id).isCall then [(store.frame id).node] else []) ++ store.calls entered := by
  unfold calls
  rw [callStack, h]
  simp only [if_pos hlt, List.filter_cons]
  split <;> rfl

theorem calls_of_root (h : IsRoot tree graph globals (store.frame 0)) : store.calls 0 = [] := by
  unfold calls
  rw [callStack, h.parentFrame]
  simp [Frame.isCall, h.caller]

theorem lexicalChain_of_parentChain {id outer : Nat} (hlt : outer < id)
    (h : (store.frame id).parentChain = some outer) :
    store.lexicalChain id = id :: store.lexicalChain outer := by
  rw [lexicalChain, h]
  exact if_pos hlt

/-! ## Lawful stores -/

theorem Extends.isRoot (h : store.Extends next) (hpos : 0 < store.frames.size)
    (hroot : IsRoot tree graph globals (store.frame 0)) :
    IsRoot tree graph globals (next.frame 0) where
  scope := by rw [h.scope hpos, hroot.scope]
  parentChain := by rw [h.parentChain hpos, hroot.parentChain]
  parentFrame := by rw [h.parentFrame hpos, hroot.parentFrame]
  overlay := by rw [h.overlay hpos, hroot.overlay]
  caller := by rw [h.caller hpos, hroot.caller]
  global name hname symbol hsymbol := h.holds (hroot.global name hname symbol hsymbol)

theorem Extends.isLinked (h : store.Extends next) {id : Nat} (hid : id < store.frames.size)
    (hlinked : IsLinked tree graph store id) : IsLinked tree graph next id where
  chain := by
    obtain ⟨outer, hlt, hparent, hscope⟩ := hlinked.chain
    refine ⟨outer, hlt, by rw [h.parentChain hid, hparent], ?_⟩
    rwa [h.overlay hid, h.scope hid, h.scope (Nat.lt_trans hlt hid)]
  stack := by
    obtain ⟨entered, hlt, hparent⟩ := hlinked.stack
    exact ⟨entered, hlt, by rw [h.parentFrame hid, hparent]⟩
  plain := by
    rw [h.isCall hid, h.parentFrame hid, h.parentChain hid]
    exact hlinked.plain
  call := by
    rw [h.isCall hid, h.overlay hid, h.node hid, h.scope hid]
    exact hlinked.call
  opener := by
    rw [h.isCall hid, h.overlay hid, h.scope hid]
    exact hlinked.opener
  site := by
    intro site entered hcaller hentered
    rw [h.caller hid] at hcaller
    rw [h.parentFrame hid] at hentered
    obtain ⟨before, hlt, hbefore⟩ := hlinked.stack
    cases hentered.symm.trans hbefore
    rw [h.scope (Nat.lt_trans hlt hid)]
    exact hlinked.site hcaller hentered

/-- Changes of frames that are there keep a store lawful. -/
theorem Lawful.of_extends (h : Lawful tree graph globals store) (hextends : store.Extends next)
    (hsize : next.frames.size = store.frames.size) : Lawful tree graph globals next where
  pos := by
    rw [hsize]
    exact h.pos
  root := hextends.isRoot h.pos h.root
  linked id hpos hid := by
    rw [hsize] at hid
    exact hextends.isLinked hid (h.linked id hpos hid)
  distinct id hid := by
    rw [hsize] at hid
    rw [hextends.calls hid]
    exact h.distinct id hid

theorem Lawful.add (h : Lawful tree graph globals store) {frame : Frame}
    (hlinked : IsLinked tree graph (store.add frame) store.frames.size)
    (hdistinct : ((store.add frame).calls store.frames.size).Nodup) :
    Lawful tree graph globals (store.add frame) := by
  have hextends := extends_add store frame
  have hsize : (store.add frame).frames.size = store.frames.size + 1 := by simp [FrameStore.add]
  refine ⟨by omega, hextends.isRoot h.pos h.root, fun id hpos hid => ?_, fun id hid => ?_⟩
  · rcases Nat.lt_or_eq_of_le (Nat.le_of_lt_succ (hsize ▸ hid)) with hlt | rfl
    · exact hextends.isLinked hlt (h.linked id hpos hlt)
    · exact hlinked
  · rcases Nat.lt_or_eq_of_le (Nat.le_of_lt_succ (hsize ▸ hid)) with hlt | rfl
    · rw [hextends.calls hlt]
      exact h.distinct id hlt
    · exact hdistinct

theorem Lawful.call_isFunction (h : Lawful tree graph globals store) {id node : Nat}
    (hid : id < store.frames.size) (hcall : node ∈ store.calls id) :
    node < tree.size ∧ (tree.function? node).isSome := by
  induction id using Nat.strongRecOn with
  | ind id ih =>
      rcases Nat.eq_zero_or_pos id with rfl | hpos
      · rw [calls_of_root h.root] at hcall
        cases hcall
      · have hlinked := h.linked id hpos hid
        obtain ⟨entered, hlt, hparent⟩ := hlinked.stack
        rw [calls_of_parentFrame hlt hparent] at hcall
        rcases List.mem_append.mp hcall with hown | hrest
        · split at hown
          · rename_i hisCall
            cases List.mem_singleton.mp hown
            exact ⟨(hlinked.call hisCall).2.1, (hlinked.call hisCall).2.2.1⟩
          · cases hown
        · exact ih entered hlt (Nat.lt_trans hlt hid) hrest

/-- There are at most as many calls as the tree has functions. -/
theorem Lawful.length_calls_le (h : Lawful tree graph globals store) {id : Nat}
    (hid : id < store.frames.size) : (store.calls id).length ≤ tree.functions.length := by
  refine (h.distinct id hid).length_le_of_subset fun node hnode => ?_
  obtain ⟨hlt, hfunction⟩ := h.call_isFunction hid hnode
  exact List.mem_filter.mpr ⟨List.mem_range.mpr hlt, hfunction⟩

/-- The outermost frame has the symbols of the scope of the program and the global names, and
nothing else can be seen from there. -/
theorem IsRoot.holds_or_owns {frame : Frame} (h : IsRoot tree graph globals frame)
    (hgraph : graph.Describes tree globals) (hprogram : (tree.kind tree.root).opensScope)
    {symbol : SymbolId} (hvisible : graph.Visible globals frame.scope symbol) :
    frame.holds symbol ∨ frame.owns (graph.symbol symbol).scope := by
  have hparent : (graph.scope frame.scope).parent = some globalScope := by
    have hstands := hgraph.root
    unfold StandsIn IsInside at hstands
    rwa [if_pos hprogram, ← h.scope] at hstands
  rcases hvisible.within.eq_or_of_parent hparent with hown | houtside
  · exact .inr (by simp [Frame.owns, h.overlay, hown])
  · have hzero : (graph.symbol symbol).scope = globalScope :=
      Nat.le_zero.mp (houtside.le hgraph.regular.parent_lt)
    obtain ⟨name, hname, hlocal⟩ := hvisible.global hzero
    exact .inl (h.global name hname symbol hlocal)

theorem Lawful.exists_place (h : Lawful tree graph globals store)
    (hgraph : graph.Describes tree globals) (hprogram : (tree.kind tree.root).opensScope)
    {id : Nat} (hid : id < store.frames.size) {symbol : SymbolId}
    (hvisible : graph.Visible globals (store.frame id).scope symbol) :
    ∃ place ∈ store.lexicalChain id, (store.frame place).overlay = false ∧
      ((store.frame place).holds symbol ∨
        (store.frame place).owns (graph.symbol symbol).scope) := by
  induction id using Nat.strongRecOn with
  | ind id ih =>
      rcases Nat.eq_zero_or_pos id with rfl | hpos
      · have hself : 0 ∈ store.lexicalChain 0 := by
          rw [lexicalChain, h.root.parentChain]
          exact List.mem_singleton.mpr rfl
        exact ⟨0, hself, h.root.overlay, h.root.holds_or_owns hgraph hprogram hvisible⟩
      · obtain ⟨outer, hlt, hparent, hscope⟩ := (h.linked id hpos hid).chain
        have hchain := lexicalChain_of_parentChain hlt hparent
        have hrest : graph.Within (store.frame outer).scope (graph.symbol symbol).scope →
            ∃ place ∈ store.lexicalChain id, (store.frame place).overlay = false ∧
              ((store.frame place).holds symbol ∨
                (store.frame place).owns (graph.symbol symbol).scope) := by
          intro hwithin
          obtain ⟨place, hplace, hfound⟩ :=
            ih outer hlt (Nat.lt_trans hlt hid) ⟨hwithin, hvisible.global⟩
          exact ⟨place, hchain ▸ List.mem_cons_of_mem _ hplace, hfound⟩
        split at hscope
        · exact hrest (hscope ▸ hvisible.within)
        · rename_i hoverlay
          have hplain : (store.frame id).overlay = false := by simpa using hoverlay
          rcases hvisible.within.eq_or_of_parent hscope with hown | houtside
          · exact ⟨id, hchain ▸ List.mem_cons_self, hplain,
              .inr (by simp [Frame.owns, hplain, hown])⟩
          · exact hrest houtside

end FrameStore

end ScriptCheck
