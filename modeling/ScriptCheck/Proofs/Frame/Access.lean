import ScriptCheck.Proofs.Frame.Links

/-!
# Entering frames and using names without faults

Where the scopes of a graph describe a tree, entering a scope or a function and using a
visible name always succeeds and keeps the frames lawful.
-/

namespace ScriptCheck.FrameM

open ScopeGraph FrameStore

/-- A computation on frames ends without a fault, leaves a lawful store and gives what `Q`
says. -/
def Succeeds {α : Type} (tree : Tree) (graph : ScopeGraph) (globals : List String)
    (store : FrameStore) (computation : FrameM α) (Q : α → FrameStore → Prop) : Prop :=
  ∃ result next, computation.run store = (.ok result, next) ∧ store.Extends next ∧
    Lawful tree graph globals next ∧ Q result next

variable {tree : Tree} {graph : ScopeGraph} {globals : List String} {store : FrameStore}

theorem run_bind_of_ok {α β : Type} {computation : FrameM α} {f : α → FrameM β} {result : α}
    {next : FrameStore} (h : computation.run store = (.ok result, next)) :
    (computation >>= f).run store = (f result).run next := by
  change ExceptT.bindCont f (computation.run store).1 (computation.run store).2 = _
  rw [h]
  rfl

/-! ## Entering -/

structure Enters (tree : Tree) (graph : ScopeGraph) (store : FrameStore) (frame : Frame)
    (current outer : Nat) : Prop where
  current_lt : current < store.frames.size
  outer_lt : outer < store.frames.size
  parentFrame : frame.parentFrame = some current
  parentChain : frame.parentChain = some outer
  scope : if frame.overlay then frame.scope = (store.frame outer).scope
    else (graph.scope frame.scope).parent = some (store.frame outer).scope
  plain : frame.isCall = false → current = outer
  call : frame.isCall → frame.overlay = false ∧ frame.node < tree.size ∧
    (tree.function? frame.node).isSome ∧ frame.scope = graph.scopeOf frame.node ∧
      frame.node ∉ store.calls current
  opener : frame.isCall = false → frame.overlay = false → ∃ opener : Nat, opener < tree.size ∧
    (tree.kind opener).opensScope ∧ tree.function? opener = none ∧
      frame.scope = graph.scopeOf opener
  site : ∀ site : Nat, frame.caller = some site → site < tree.size ∧
    (tree.kind site).isInvocation ∧ (store.frame current).scope = graph.scopeOf site

theorem succeeds_enter (h : Lawful tree graph globals store) (frame : Frame) {current : Nat}
    (outer : Nat) (henters : Enters tree graph store frame current outer) :
    Succeeds tree graph globals store (enter frame) (fun id next =>
      id < next.frames.size ∧ next.frame id = frame ∧
        next.calls id = (if frame.isCall then [frame.node] else []) ++ store.calls current) := by
  have hextends := extends_add store frame
  have hnew : (store.add frame).frame store.frames.size = frame := frame_add_self store frame
  have hcalls : (store.add frame).calls store.frames.size =
      (if frame.isCall then [frame.node] else []) ++ store.calls current := by
    rw [calls_of_parentFrame henters.current_lt (by rw [hnew, henters.parentFrame]), hnew,
      hextends.calls henters.current_lt]
  refine ⟨store.frames.size, store.add frame, rfl, hextends, h.add ?_ ?_, ?_, hnew, hcalls⟩
  · refine ⟨⟨outer, henters.outer_lt, by rw [hnew, henters.parentChain], ?_⟩,
      ⟨current, henters.current_lt, by rw [hnew, henters.parentFrame]⟩, ?_, ?_, ?_, ?_⟩
    · rw [hnew, hextends.scope henters.outer_lt]
      exact henters.scope
    · rw [hnew, henters.parentFrame, henters.parentChain]
      exact fun hplain => congrArg some (henters.plain hplain)
    · rw [hnew]
      intro hcall
      obtain ⟨hoverlay, hlt, hfunction, hscope, -⟩ := henters.call hcall
      exact ⟨hoverlay, hlt, hfunction, hscope⟩
    · rw [hnew]
      exact henters.opener
    · intro site entered hcaller hentered
      rw [hnew] at hcaller hentered
      cases henters.parentFrame.symm.trans hentered
      rw [hextends.scope henters.current_lt]
      exact henters.site site hcaller
  · rw [hcalls]
    have hbefore := h.distinct current henters.current_lt
    split
    · rename_i hcall
      exact List.nodup_cons.mpr ⟨(henters.call hcall).2.2.2.2, hbefore⟩
    · exact hbefore
  · simp [FrameStore.add]

theorem succeeds_enterChild (h : Lawful tree graph globals store) {current node : Nat}
    (hcurrent : current < store.frames.size) (hnode : node < tree.size)
    (hfunction : tree.function? node = none)
    (hstands : graph.scopeOf node ≠ (store.frame current).scope →
      graph.StandsIn tree node (store.frame current).scope) :
    Succeeds tree graph globals store (enterChild graph current node) (fun inner next =>
      inner < next.frames.size ∧ (next.frame inner).scope = graph.scopeOf node ∧
        next.calls inner = store.calls current) := by
  let frame : Frame :=
    { node, scope := graph.scopeOf node, parentFrame := some current, parentChain := some current }
  have hrun : (enterChild graph current node).run store =
      (if graph.scopeOf node = (store.frame current).scope then pure current
        else enter frame : FrameM FrameId).run store := rfl
  by_cases hsame : graph.scopeOf node = (store.frame current).scope
  · refine ⟨current, store, ?_, .refl store, h, hcurrent, hsame.symm, rfl⟩
    rw [hrun, if_pos hsame]
    rfl
  · have hopens : (tree.kind node).opensScope ∧
        (graph.scope (graph.scopeOf node)).parent = some (store.frame current).scope := by
      have hinside := hstands hsame
      unfold StandsIn IsInside at hinside
      split at hinside
      · exact ⟨‹_›, hinside⟩
      · exact absurd hinside hsame
    obtain ⟨id, next, hentered, hextends, hlawful, hlt, hframe, hcalls⟩ :=
      succeeds_enter h frame current
        ⟨hcurrent, hcurrent, rfl, rfl, hopens.2, fun _ => rfl, fun hcall => (by cases hcall),
          fun _ _ => ⟨node, hnode, hopens.1, hfunction, rfl⟩, fun site hcaller => by cases hcaller⟩
    refine ⟨id, next, ?_, hextends, hlawful, hlt, by rw [hframe], hcalls⟩
    rw [hrun, if_neg hsame]
    exact hentered

/-- A function that is not called already can be entered from anywhere, and then is. -/
theorem succeeds_enterCallee (h : Lawful tree graph globals store)
    (hgraph : graph.Describes tree globals) {current origin callee site : Nat}
    (hcurrent : current < store.frames.size) (hsite : site < tree.size)
    (hinvocation : (tree.kind site).isInvocation)
    (hsiteScope : (store.frame current).scope = graph.scopeOf site)
    (horigin : origin < store.frames.size)
    (hcallee : callee < tree.size) (hfunction : (tree.function? callee).isSome)
    (hscope : (graph.scope (graph.scopeOf callee)).parent = some (store.frame origin).scope)
    (hfresh : callee ∉ store.calls current) :
    Succeeds tree graph globals store (enterCallee tree graph current site callee origin)
      (fun inner next => inner < next.frames.size ∧
        (next.frame inner).scope = graph.scopeOf callee ∧
          next.calls inner = callee :: store.calls current) := by
  let frame : Frame :=
    { node := callee, scope := graph.scopeOf callee, parentFrame := some current,
      parentChain := some origin, caller := some site }
  have hlt := hgraph.regular.parent_lt hscope
  obtain ⟨id, next, hentered, hextends, hlawful, hid, hframe, hcalls⟩ :=
    succeeds_enter h frame origin
      ⟨hcurrent, horigin, rfl, rfl, hscope, fun hplain => (by cases hplain),
        fun _ => ⟨rfl, hcallee, hfunction, rfl, hfresh⟩, fun hplain => (by cases hplain),
        fun other hother => by
          cases hother
          exact ⟨hsite, hinvocation, hsiteScope⟩⟩
  refine ⟨id, next, ?_, hextends, hlawful, hid, by rw [hframe], hcalls⟩
  change (if graph.scopeOf callee ≤ (store.frame origin).scope then throw _
    else enter frame : FrameM FrameId).run store = _
  rw [if_neg (Nat.not_le_of_lt hlt)]
  exact hentered

theorem succeeds_enterGuard (h : Lawful tree graph globals store) {current : Nat}
    (hcurrent : current < store.frames.size) :
    Succeeds tree graph globals store (enterGuard current) (fun inner next =>
      inner < next.frames.size ∧ (next.frame inner).scope = (store.frame current).scope ∧
        next.calls inner = store.calls current) := by
  let frame : Frame :=
    { node := (store.frame current).node, scope := (store.frame current).scope,
      parentFrame := some current, parentChain := some current, overlay := true }
  obtain ⟨id, next, hentered, hextends, hlawful, hid, hframe, hcalls⟩ :=
    succeeds_enter h frame current
      ⟨hcurrent, hcurrent, rfl, rfl, rfl, fun _ => rfl, fun hcall => (by cases hcall),
        fun _ hplain => (by cases hplain), fun site hcaller => by cases hcaller⟩
  exact ⟨id, next, hentered, hextends, hlawful, hid, by rw [hframe], hcalls⟩

/-! ## Names -/

theorem succeeds_readName (h : Lawful tree graph globals store)
    (hgraph : graph.Describes tree globals) (hprogram : (tree.kind tree.root).opensScope)
    {current : Nat} (hcurrent : current < store.frames.size) (place : NodeId) {symbol : SymbolId}
    (hvisible : graph.Visible globals (store.frame current).scope symbol) :
    Succeeds tree graph globals store (readName tree graph current place symbol)
      (fun _ _ => True) := by
  obtain ⟨owner, hmem, -, hplace⟩ := h.exists_place hgraph hprogram hcurrent hvisible
  cases howner : owner? store graph current symbol with
  | none =>
      rw [owner?, List.find?_eq_none] at howner
      have hnot := howner owner hmem
      simp only [Bool.or_eq_true] at hnot
      exact absurd hplace hnot
  | some found =>
      refine ⟨(store.frame found).get? symbol, store, ?_, .refl store, h, trivial⟩
      rw [readName, run_bind_of_ok (rfl : (get : FrameM FrameStore).run store = (.ok store, store)),
        howner]
      rfl

theorem holds_set {frame : Frame} {symbol other : SymbolId} (setting : Setting)
    (h : frame.holds other) : (frame.set symbol setting).holds other := by
  by_cases heq : other = symbol
  · subst heq
    simp [Frame.holds]
  · rwa [Frame.holds, Frame.get?_set_of_ne heq]

theorem extends_bind (store : FrameStore) (current : FrameId) (symbol : SymbolId) (ty : Ty) :
    store.Extends (store.modify current (·.bind symbol ty)) := by
  refine extends_modify store current ?_ ?_
  · exact fun _ => rfl
  · exact fun _ _ => holds_set _

theorem extends_write (store : FrameStore) (current : FrameId) (symbol : SymbolId) (ty : Ty) :
    store.Extends (store.modify current (·.write symbol ty)) := by
  refine extends_modify store current ?_ ?_
  · exact fun _ => rfl
  · exact fun _ _ => holds_set _

/-- A change of a frame that takes nothing away. -/
theorem succeeds_update (h : Lawful tree graph globals store) (id : FrameId) {f : Frame → Frame}
    (houtline : ∀ frame, (f frame).outline = frame.outline)
    (hholds : ∀ frame symbol, frame.holds symbol → (f frame).holds symbol) :
    Succeeds tree graph globals store (update id f) (fun _ _ => True) := by
  have hextends := extends_modify store id houtline hholds
  exact ⟨(), store.modify id f, rfl, hextends, h.of_extends hextends (size_modify store id f),
    trivial⟩

theorem succeeds_bind (h : Lawful tree graph globals store) (current : FrameId)
    (symbol : SymbolId) (ty : Ty) :
    Succeeds tree graph globals store (bind current symbol ty) (fun _ _ => True) := by
  refine succeeds_update h current ?_ ?_
  · exact fun _ => rfl
  · exact fun _ _ => holds_set _

/-- Writing along a chain finds a place if there is one that is no guard. -/
theorem run_writeAlong (scope : ScopeId) (symbol : SymbolId) (ty : Ty) (chain : List FrameId)
    (store : FrameStore) :
    ∃ found next, (writeAlong scope symbol ty chain).run store = (.ok found, next) ∧
      store.Extends next ∧ next.frames.size = store.frames.size ∧
        ((∃ id ∈ chain, id < store.frames.size ∧ (store.frame id).overlay = false ∧
          ((store.frame id).holds symbol ∨ (store.frame id).owns scope)) → found = true) := by
  induction chain generalizing store with
  | nil => exact ⟨false, store, rfl, .refl store, rfl, fun ⟨_, hmem, _⟩ => by cases hmem⟩
  | cons first rest ih =>
      have hrun : (writeAlong scope symbol ty (first :: rest)).run store =
          (if (store.frame first).holds symbol || (store.frame first).owns scope then do
              update first (·.write symbol ty)
              if (store.frame first).overlay then writeAlong scope symbol ty rest else return true
            else writeAlong scope symbol ty rest : FrameM Bool).run store := rfl
      rw [hrun]
      split
      · have hextends := extends_write store first symbol ty
        have hsize := size_modify store first (·.write symbol ty)
        cases hoverlay : (store.frame first).overlay with
        | false =>
            exact ⟨true, store.modify first (·.write symbol ty), rfl, hextends, hsize, fun _ => rfl⟩
        | true =>
            obtain ⟨found, next, hrest, hnext, hnextSize, hfound⟩ :=
              ih (store.modify first (·.write symbol ty))
            refine ⟨found, next, hrest, hextends.trans hnext, hnextSize.trans hsize, ?_⟩
            rintro ⟨id, hmem, hlt, hplain, hplace⟩
            rcases List.mem_cons.mp hmem with rfl | hmem
            · rw [hoverlay] at hplain
              cases hplain
            · refine hfound ⟨id, hmem, hsize ▸ hlt, by rw [hextends.overlay hlt, hplain], ?_⟩
              refine hplace.imp hextends.holds fun howns => ?_
              rwa [Frame.owns, hextends.scope hlt, hextends.overlay hlt]
      · rename_i hnone
        obtain ⟨found, next, hrest, hnext, hnextSize, hfound⟩ := ih store
        refine ⟨found, next, hrest, hnext, hnextSize, ?_⟩
        rintro ⟨id, hmem, hlt, hplain, hplace⟩
        rcases List.mem_cons.mp hmem with rfl | hmem
        · simp only [Bool.or_eq_true] at hnone
          exact absurd hplace hnone
        · exact hfound ⟨id, hmem, hlt, hplain, hplace⟩

theorem succeeds_writeName (h : Lawful tree graph globals store)
    (hgraph : graph.Describes tree globals) (hprogram : (tree.kind tree.root).opensScope)
    {current : Nat} (hcurrent : current < store.frames.size) (place : NodeId) {symbol : SymbolId}
    (hvisible : graph.Visible globals (store.frame current).scope symbol) (ty : Ty) :
    Succeeds tree graph globals store (writeName tree graph current place symbol ty)
      (fun _ _ => True) := by
  obtain ⟨owner, hmem, hoverlay, hplace⟩ := h.exists_place hgraph hprogram hcurrent hvisible
  obtain ⟨found, next, hrun, hextends, hsize, hfound⟩ :=
    run_writeAlong (graph.symbol symbol).scope symbol ty (store.lexicalChain current) store
  have hlt := Nat.lt_of_le_of_lt (mem_lexicalChain_le hmem) hcurrent
  cases hfound ⟨owner, hmem, hlt, hoverlay, hplace⟩
  refine ⟨(), next, ?_, hextends, h.of_extends hextends hsize, trivial⟩
  have hwrite := run_bind_of_ok (f := fun found => if found then pure () else
    missing tree graph place symbol) hrun
  exact hwrite

/-! ## Calls -/

/-- A function that is not found on the call stack is not called already. -/
theorem succeeds_detectRecursion (h : Lawful tree graph globals store) (current : FrameId)
    (callee : NodeId) :
    Succeeds tree graph globals store (detectRecursion current callee) (fun found _ =>
      found = false → callee ∉ store.calls current) := by
  let calls := (store.callStack current).filter fun id => (store.frame id).isCall
  have hrun : (detectRecursion current callee).run store =
      (if calls.any fun id => (store.frame id).node = callee then do
          calls.head?.forM fun innermost => update innermost ({ · with recursive := true })
          return true
        else return false : FrameM Bool).run store := rfl
  unfold Succeeds
  rw [hrun]
  split
  · cases calls.head? with
    | none => exact ⟨true, store, rfl, .refl store, h, fun hfalse => by cases hfalse⟩
    | some innermost =>
        have hmarked : Succeeds tree graph globals store
            (update innermost ({ · with recursive := true })) (fun _ _ => True) := by
          refine succeeds_update h innermost ?_ ?_
          · exact fun _ => rfl
          · exact fun _ _ hheld => hheld
        obtain ⟨_, next, hupdate, hextends, hlawful, -⟩ := hmarked
        exact ⟨true, next, run_bind_of_ok hupdate, hextends, hlawful, fun hfalse => by cases hfalse⟩
  · rename_i hnone
    refine ⟨false, store, rfl, .refl store, h, fun _ hcalled => ?_⟩
    obtain ⟨id, hmem, hnode⟩ := List.mem_map.mp hcalled
    exact hnone (List.any_eq_true.mpr ⟨id, hmem, by simpa using hnode⟩)

/-- A type is not added only where no function is around. -/
theorem succeeds_addReturned (h : Lawful tree graph globals store) (current : FrameId) (ty : Ty) :
    Succeeds tree graph globals store (addReturned current ty) (fun added next => added = false →
      (next.lexicalChain current).find? (fun id => (next.frame id).isCall) = none) := by
  unfold Succeeds
  rw [addReturned, run_bind_of_ok (rfl : (get : FrameM FrameStore).run store = (.ok store, store))]
  cases hfound : (store.lexicalChain current).find? fun id => (store.frame id).isCall with
  | none => exact ⟨false, store, rfl, .refl store, h, fun _ => hfound⟩
  | some call =>
      have hadded : Succeeds tree graph globals store
          (update call fun frame => { frame with returned := frame.returned ++ [ty] })
          (fun _ _ => True) := by
        refine succeeds_update h call ?_ ?_
        · exact fun _ => rfl
        · exact fun _ _ hheld => hheld
      obtain ⟨_, next, hupdate, hextends, hlawful, -⟩ := hadded
      exact ⟨true, next, run_bind_of_ok hupdate, hextends, hlawful, fun hfalse => by cases hfalse⟩

theorem succeeds_frameOf (h : Lawful tree graph globals store) (id : FrameId) :
    Succeeds tree graph globals store (frameOf id) (fun _ _ => True) :=
  ⟨store.frame id, store, rfl, .refl store, h, trivial⟩

end ScriptCheck.FrameM
