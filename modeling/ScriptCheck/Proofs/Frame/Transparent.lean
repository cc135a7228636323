import ScriptCheck.Proofs.Frame.Written

/-!
# What a write changes

A write of a name changes the frame where the name belongs, as if no guards lay in between, and
those guards before it that had a type for the name.  All of them have the written type then,
all else is what it was, and the name reads as it was written.
-/

namespace ScriptCheck

namespace FrameStore

/-- Whether a frame has a type for a name or a place for it. -/
def takes (store : FrameStore) (scope : ScopeId) (symbol : SymbolId) (id : FrameId) : Bool :=
  (store.frame id).holds symbol || (store.frame id).owns scope

/-- The frame where a name belongs, seen from a frame: the first of its lexical chain that takes
the name and is no guard. -/
def home? (store : FrameStore) (graph : ScopeGraph) (current : FrameId) (symbol : SymbolId) :
    Option FrameId :=
  (store.lexicalChain current).find? (store.endsIn (graph.symbol symbol).scope symbol)

/-- The guards before the frame where a name belongs that have a type for the name. -/
def shadows (store : FrameStore) (graph : ScopeGraph) (current : FrameId) (symbol : SymbolId) :
    List FrameId :=
  ((store.lexicalChain current).takeWhile fun id =>
    !store.endsIn (graph.symbol symbol).scope symbol id).filter fun id =>
      (store.frame id).overlay && (store.frame id).holds symbol

/-- The frames along a chain in which a write of a name sets it. -/
def setAlong (store : FrameStore) (scope : ScopeId) (symbol : SymbolId) :
    List FrameId → List FrameId
  | [] => []
  | id :: rest =>
      if store.takes scope symbol id then
        if (store.frame id).overlay then id :: store.setAlong scope symbol rest else [id]
      else store.setAlong scope symbol rest

variable {store next : FrameStore} {scope : ScopeId} {symbol : SymbolId} {chain : List FrameId}
  {id : FrameId}

theorem endsIn_eq (store : FrameStore) (scope : ScopeId) (symbol : SymbolId) (id : FrameId) :
    store.endsIn scope symbol id = (store.takes scope symbol id && !(store.frame id).overlay) :=
  rfl

/-- A guard takes the names that it has a type for. -/
theorem takes_of_overlay (hoverlay : (store.frame id).overlay) :
    store.takes scope symbol id = (store.frame id).holds symbol := by
  simp [takes, Frame.owns, hoverlay]

/-- To find where a name belongs, guards may be left out of the chain. -/
theorem find?_endsIn (store : FrameStore) (scope : ScopeId) (symbol : SymbolId)
    (chain : List FrameId) :
    chain.find? (store.endsIn scope symbol) =
      (chain.filter fun id => !(store.frame id).overlay).find? (store.takes scope symbol) := by
  rw [List.find?_filter]
  congr
  funext id
  rw [endsIn_eq, Bool.and_comm]
  simp

theorem mem_of_mem_setAlong (hmem : id ∈ store.setAlong scope symbol chain) : id ∈ chain := by
  induction chain with
  | nil => cases hmem
  | cons first rest ih =>
      rw [setAlong] at hmem
      grind

/-- A name is set where it belongs and in the guards that shadow it. -/
theorem mem_setAlong_iff {home : FrameId}
    (hfound : chain.find? (store.endsIn scope symbol) = some home) :
    id ∈ store.setAlong scope symbol chain ↔ id = home ∨
      id ∈ (chain.takeWhile fun id => !store.endsIn scope symbol id).filter fun id =>
        (store.frame id).overlay && (store.frame id).holds symbol := by
  induction chain with
  | nil => cases hfound
  | cons first rest ih =>
      rw [setAlong]
      cases hoverlay : (store.frame first).overlay with
      | true =>
          have hpasses : store.endsIn scope symbol first = false := by simp [endsIn_eq, hoverlay]
          rw [List.find?_cons_of_neg (by simp [hpasses])] at hfound
          rw [takes_of_overlay hoverlay, List.takeWhile_cons_of_pos (by simp [hpasses])]
          cases held : (store.frame first).holds symbol with
          | true => simp [hoverlay, held, ih hfound, or_left_comm]
          | false => simp [held, ih hfound]
      | false =>
          cases htaken : store.takes scope symbol first with
          | true =>
              have hends : store.endsIn scope symbol first =
                true := by simp [endsIn_eq, hoverlay, htaken]
              rw [List.find?_cons_of_pos hends] at hfound
              cases hfound
              simp [hends]
          | false =>
              have hpasses : store.endsIn scope symbol first = false := by simp [endsIn_eq, htaken]
              rw [List.find?_cons_of_neg (by simp [hpasses])] at hfound
              rw [List.takeWhile_cons_of_pos (by simp [hpasses])]
              simp [hoverlay, ih hfound]

/-- The first frame of a chain that takes a name is one in which a write sets it. -/
theorem mem_setAlong_of_find? (hfound : chain.find? (store.takes scope symbol) = some id) :
    id ∈ store.setAlong scope symbol chain := by
  induction chain with
  | nil => cases hfound
  | cons first rest ih =>
      rw [setAlong]
      by_cases htaken : store.takes scope symbol first
      · rw [List.find?_cons_of_pos htaken] at hfound
        cases hfound
        rw [if_pos htaken]
        split <;> exact List.mem_cons_self
      · rw [List.find?_cons_of_neg htaken] at hfound
        rw [if_neg htaken]
        exact ih hfound

theorem takes_of_mem_setAlong (hmem : id ∈ store.setAlong scope symbol chain) :
    store.takes scope symbol id := by
  induction chain with
  | nil => cases hmem
  | cons first rest ih =>
      rw [setAlong] at hmem
      grind

/-- Which frames are set does not hang on frames away from the chain. -/
theorem setAlong_congr (hsame : ∀ id ∈ chain, next.frame id = store.frame id) :
    next.setAlong scope symbol chain = store.setAlong scope symbol chain := by
  induction chain with
  | nil => rfl
  | cons first rest ih =>
      obtain ⟨hsameFirst, hsameRest⟩ := List.forall_mem_cons.mp hsame
      rw [setAlong, setAlong, takes, takes, hsameFirst, ih hsameRest]

end FrameStore

namespace FrameM

open FrameStore

variable {store next : FrameStore} {scope : ScopeId} {symbol : SymbolId} {chain : List FrameId}

/-- A write sets the name in the frames along the chain that take it, and changes nothing
else. -/
theorem frame_writeAlong (ty : Ty) (hdistinct : chain.Nodup)
    (hinside : ∀ id ∈ chain, id < store.frames.size) (id : FrameId) :
    ((writeAlong scope symbol ty chain).run store).2.frame id =
      if id ∈ store.setAlong scope symbol chain then (store.frame id).write symbol ty
      else store.frame id := by
  induction chain generalizing store with
  | nil => rfl
  | cons first rest ih =>
      obtain ⟨hapart, hdistinctRest⟩ := List.nodup_cons.mp hdistinct
      obtain ⟨hfirstInside, hrestInside⟩ := List.forall_mem_cons.mp hinside
      rw [writeAlong_cons_run, ← takes, setAlong]
      by_cases htaken : store.takes scope symbol first
      · rw [if_pos htaken, if_pos htaken]
        cases hoverlay : (store.frame first).overlay with
        | false =>
            simp only [Bool.false_eq_true, if_false, List.mem_singleton, frame_modify]
            grind
        | true =>
            -- the guard is written once: the rest of the chain does not lead back to it
            have hframes (other : FrameId) (hdiffer : other ≠ first) :
                (store.modify first (·.write symbol ty)).frame other = store.frame other :=
              frame_modify_of_ne hdiffer _ store
            have hsame : (store.modify first (·.write symbol ty)).setAlong scope symbol rest =
                store.setAlong scope symbol rest :=
              setAlong_congr fun other hmem => hframes other fun heq => hapart (heq ▸ hmem)
            have hfirstOut : first ∉ store.setAlong scope symbol rest := fun hmem =>
              hapart (mem_of_mem_setAlong hmem)
            rw [if_pos rfl, if_pos rfl, ih hdistinctRest (by simpa using hrestInside), hsame]
            by_cases heq : id = first
            · subst heq
              rw [if_neg hfirstOut, if_pos List.mem_cons_self, frame_modify_self hfirstInside]
            · rw [hframes id heq]
              simp only [List.mem_cons, heq, false_or]
      · rw [if_neg htaken, if_neg htaken, ih hdistinctRest hrestInside]

/-- A write finds a place if some frame along the chain takes the name and is no guard. -/
theorem run_writeAlong_fst (scope : ScopeId) (symbol : SymbolId) (ty : Ty)
    (chain : List FrameId) (store : FrameStore) :
    ((writeAlong scope symbol ty chain).run store).1 =
      .ok (chain.find? (store.endsIn scope symbol)).isSome := by
  induction chain generalizing store with
  | nil => rfl
  | cons first rest ih =>
      rw [writeAlong_cons_run, ← takes]
      by_cases htaken : store.takes scope symbol first
      · rw [if_pos htaken]
        cases hoverlay : (store.frame first).overlay with
        | false => simp [endsIn_eq, htaken, hoverlay]
        | true =>
            have hsame : (store.modify first (·.write symbol ty)).endsIn scope symbol
                = store.endsIn scope symbol :=
              funext (endsIn_modify_write hoverlay scope symbol ty)
            rw [if_pos rfl, ih, hsame]
            simp [endsIn_eq, hoverlay]
      · rw [if_neg htaken, ih]
        simp [endsIn_eq, htaken]

/-- A write ends well exactly where the name belongs into some frame. -/
theorem writeName_run_fst_eq_ok_iff (tree : Tree) (graph : ScopeGraph) (store : FrameStore)
    (current : FrameId) (place : NodeId) (symbol : SymbolId) (ty : Ty) :
    ((writeName tree graph current place symbol ty).run store).1 = .ok () ↔
      (store.home? graph current symbol).isSome := by
  have hfst := run_writeAlong_fst (graph.symbol symbol).scope symbol ty
    (store.lexicalChain current) store
  obtain ⟨found, after, halong, -⟩ :=
    run_writeAlong (graph.symbol symbol).scope symbol ty (store.lexicalChain current) store
  have hrest := run_bind_of_ok (f := fun found => if found then pure () else
    missing tree graph place symbol) halong
  have hwhole : (writeName tree graph current place symbol ty).run store = _ := hrest
  rw [halong] at hfst
  cases hfst
  rw [hwhole, home?]
  cases (store.lexicalChain current).find? (store.endsIn (graph.symbol symbol).scope symbol) with
  | none => exact ⟨fun hok => (nomatch hok), fun hsome => (nomatch hsome)⟩
  | some home => exact ⟨fun _ => rfl, fun _ => rfl⟩

theorem readName_run_of_find? {tree : Tree} {graph : ScopeGraph} {current first : FrameId}
    (hfound : (store.lexicalChain current).find?
      (store.takes (graph.symbol symbol).scope symbol) = some first) (place : NodeId) :
    (readName tree graph current place symbol).run store =
      (.ok ((store.frame first).get? symbol), store) := by
  have howner : owner? store graph current symbol = some first := hfound
  rw [readName, run_bind_of_ok (rfl : (get : FrameM FrameStore).run store = (.ok store, store)),
    howner]
  rfl

section ended

variable {tree : Tree} {graph : ScopeGraph} {current : FrameId} {place : NodeId} {ty : Ty}

/-- A write that ends well adds no frames and finds where the name belongs. -/
theorem extends_of_writeName
    (hended : (writeName tree graph current place symbol ty).run store = (.ok (), next)) :
    store.Extends next ∧ next.frames.size = store.frames.size ∧
      ((writeAlong (graph.symbol symbol).scope symbol ty (store.lexicalChain current)).run
        store).2 = next ∧
      ∃ home, store.home? graph current symbol = some home := by
  obtain ⟨wrote, last, halong, hgrows, hsize, -⟩ :=
    run_writeAlong (graph.symbol symbol).scope symbol ty (store.lexicalChain current) store
  have hafter := writeName_run_snd tree graph current place symbol ty store
  have hfound := (writeName_run_fst_eq_ok_iff tree graph store current place symbol ty).mp
    (by rw [hended])
  rw [hended, halong] at hafter
  subst hafter
  exact ⟨hgrows, hsize, by rw [halong], Option.isSome_iff_exists.mp hfound⟩

theorem frame_of_writeName (hlt : current < store.frames.size)
    (hended : (writeName tree graph current place symbol ty).run store = (.ok (), next))
    (id : FrameId) :
    next.frame id =
      if id ∈ store.setAlong (graph.symbol symbol).scope symbol (store.lexicalChain current)
      then (store.frame id).write symbol ty else store.frame id := by
  obtain ⟨-, -, halong, -⟩ := extends_of_writeName hended
  have hinside : ∀ id ∈ store.lexicalChain current, id < store.frames.size := fun id hmem =>
    Nat.lt_of_le_of_lt (mem_lexicalChain_le hmem) hlt
  rw [← halong]
  exact frame_writeAlong ty (store.nodup_lexicalChain current) hinside id

/-- The frames that take a name are the same after it is written. -/
theorem takes_of_writeName (hlt : current < store.frames.size)
    (hended : (writeName tree graph current place symbol ty).run store = (.ok (), next)) :
    next.takes (graph.symbol symbol).scope symbol =
      store.takes (graph.symbol symbol).scope symbol := by
  funext id
  rw [takes, frame_of_writeName hlt hended]
  split
  case isTrue hmem =>
    rw [takes_of_mem_setAlong hmem]
    simp [Frame.holds]
  case isFalse => rfl

theorem readName_of_writeName (hlt : current < store.frames.size)
    (hended : (writeName tree graph current place symbol ty).run store = (.ok (), next))
    (here : NodeId) :
    (readName tree graph current here symbol).run next = (.ok (some ty), next) := by
  obtain ⟨hgrows, -, -, home, hfound⟩ := extends_of_writeName hended
  have hends := List.find?_some hfound
  have htaken : ((store.lexicalChain current).find?
      (store.takes (graph.symbol symbol).scope symbol)).isSome :=
    List.find?_isSome.mpr
      ⟨home, List.mem_of_find?_eq_some hfound, (Bool.and_eq_true_iff.mp hends).1⟩
  obtain ⟨first, hfoundFirst⟩ := Option.isSome_iff_exists.mp htaken
  have hfoundNext : (next.lexicalChain current).find?
      (next.takes (graph.symbol symbol).scope symbol) = some first := by
    rw [hgrows.lexicalChain hlt, takes_of_writeName hlt hended]
    exact hfoundFirst
  rw [readName_run_of_find? hfoundNext here, frame_of_writeName hlt hended,
    if_pos (mem_setAlong_of_find? hfoundFirst), Frame.get?_write_self]

end ended

/-- A write that ends well changes the one frame that is no guard where the name belongs, the
first on the chain that takes it, whether guards are left out of the chain or not, and of the
guards those before it that had a type for the name.  There the name has the written type, all
else in all frames is what it was, and reading the name gives what was written. -/
theorem writeName_through_guards (tree : Tree) (graph : ScopeGraph) {store next : FrameStore}
    {current : FrameId} (hlt : current < store.frames.size) (place : NodeId) (symbol : SymbolId)
    (ty : Ty)
    (hended : (writeName tree graph current place symbol ty).run store = (.ok (), next)) :
    ∃ home, store.home? graph current symbol = some home ∧
      ((store.lexicalChain current).filter fun id => !(store.frame id).overlay).find?
        (store.takes (graph.symbol symbol).scope symbol) = some home ∧
      (store.frame home).overlay = false ∧
      (∀ id ∈ store.shadows graph current symbol, (store.frame id).overlay) ∧
      next.frames.size = store.frames.size ∧
      (∀ id, next.frame id = if id = home ∨ id ∈ store.shadows graph current symbol
        then (store.frame id).write symbol ty else store.frame id) ∧
      (∀ id other, (next.frame id).get? other =
        if other = symbol ∧ (id = home ∨ id ∈ store.shadows graph current symbol) then some ty
        else (store.frame id).get? other) ∧
      ∀ here, (readName tree graph current here symbol).run next = (.ok (some ty), next) := by
  obtain ⟨-, hsize, -, home, hfound⟩ := extends_of_writeName hended
  have hoverlay : (store.frame home).overlay = false := by
    have hends := List.find?_some hfound
    simpa using (Bool.and_eq_true_iff.mp hends).2
  have hframes (id : FrameId) : next.frame id =
      if id = home ∨ id ∈ store.shadows graph current symbol
      then (store.frame id).write symbol ty else store.frame id := by
    have hset : id ∈ store.setAlong (graph.symbol symbol).scope symbol
        (store.lexicalChain current) ↔ id = home ∨ id ∈ store.shadows graph current symbol :=
      mem_setAlong_iff hfound
    simp only [frame_of_writeName hlt hended, hset]
  have hbindings (id : FrameId) (other : SymbolId) : (next.frame id).get? other =
      if other = symbol ∧ (id = home ∨ id ∈ store.shadows graph current symbol) then some ty
      else (store.frame id).get? other := by
    rw [hframes]
    by_cases hchanged : id = home ∨ id ∈ store.shadows graph current symbol
    · by_cases hsame : other = symbol
      · subst hsame
        simp [hchanged]
      · simp [hchanged, hsame, Frame.get?_write_of_ne hsame]
    · simp [hchanged]
  refine ⟨home, hfound, ?_, hoverlay, fun id hmem => ?_, hsize, hframes, hbindings,
    readName_of_writeName hlt hended⟩
  · rw [← find?_endsIn]
    exact hfound
  · exact (Bool.and_eq_true_iff.mp (List.mem_filter.mp hmem).2).1

/-- A write through two guards over a call of a function that was made inside of a third.  The
middle one has no type for the name and stays as it is. -/
theorem writeName_through_guards_nested :
    let actions : List FrameAction := [.bind 1 0 (.plain 0), .callee 1 9 7 1, .guard 2, .guard 3,
      .bind 4 0 (.plain 1)]
    let store := actions.foldl (FrameAction.after FrameAction.callTree FrameAction.callGraph)
      FrameAction.guardedFrames
    let next := ((writeName FrameAction.callTree FrameAction.callGraph 4 9 0 (.plain 2)).run
      store).2
    store.home? FrameAction.callGraph 4 0 = some 0 ∧
      store.shadows FrameAction.callGraph 4 0 = [4, 1] ∧
      4 < store.frames.size ∧
      (writeName FrameAction.callTree FrameAction.callGraph 4 9 0 (.plain 2)).run store
        = (.ok (), next) ∧
      (∀ id other, (next.frame id).get? other =
        if other = 0 ∧ (id = 0 ∨ id ∈ [4, 1]) then some (.plain 2)
        else (store.frame id).get? other) ∧
      (readName FrameAction.callTree FrameAction.callGraph 4 9 0).run next
        = (.ok (some (.plain 2)), next) := by
  intro actions store next
  have home : store.home? FrameAction.callGraph 4 0 = some 0 := by decide +kernel
  have hshadows : store.shadows FrameAction.callGraph 4 0 = [4, 1] := by decide +kernel
  have hlt : 4 < store.frames.size := by decide +kernel
  have hended : (writeName FrameAction.callTree FrameAction.callGraph 4 9 0 (.plain 2)).run store
      = (.ok (), next) :=
    Prod.ext ((writeName_run_fst_eq_ok_iff ..).mpr (by rw [home]; rfl)) rfl
  obtain ⟨found, hisHome, -, -, -, -, -, hbindings, hreads⟩ := writeName_through_guards
    FrameAction.callTree FrameAction.callGraph hlt 9 0 (.plain 2) hended
  cases home.symm.trans hisHome
  exact ⟨home, hshadows, hlt, hended, hshadows ▸ hbindings, hreads 9⟩

end FrameM

end ScriptCheck
