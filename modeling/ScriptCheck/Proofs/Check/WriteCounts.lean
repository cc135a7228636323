import ScriptCheck.Proofs.Check.Written

/-!
# Runs write constants as often as they are declared

The rules afford what nodes declare at every depth of nesting, so a run does, from its first
frame on.  A constant has one value for each of its declarations, and in each frame it is
written once for each at most.  One that is declared twice has two values, and is written twice.
-/

namespace ScriptCheck

open ScopeGraph CheckM FrameStore

namespace Check

/-- In no frame is a constant written more often than it is declared. -/
def WrittenAsDeclared (tree : Tree) (graph : ScopeGraph) (globals : List String)
    (frames : FrameStore) : Prop :=
  ∀ id symbol, (graph.symbol symbol).mutable = false →
    frames.writes id symbol ≤ (graph.declarationsOf (tree.declarations graph globals) symbol).length

/-- A node of the program is about to be followed in a frame that is there, and all is lawful. -/
def Reached (context : CheckContext) (state : CheckState) (frame node : Nat) : Prop :=
  state.Lawful context ∧ frame < state.frames.frames.size ∧ node < context.tree.size

theorem passes_reached (context : CheckContext) : Evaluator.Passes context (.ofProperty Reached) :=
  fun hlawful hframeLt hnodeLt _ =>
    @decide_eq_true _ (Classical.propDecidable _) ⟨hlawful, hframeLt, hnodeLt⟩

variable {context : CheckContext} {state : CheckState} {frame node : Nat}
  {eval other : Evaluator}

/-! ## Statements -/

theorem accounted_entered (hoists : context.Hoists) (heval : eval.Affords context other)
    (hlawful : state.Lawful context) (h : context.Follows state.frames frame node)
    (hfunction : context.tree.function? node = none)
    (hlimited : state.frames.Limited context.graph context.limit)
    (hroom : state.frames.Room context.graph context.limit frame (context.share [node])) :
    Accounted (Spends context.graph context.limit frame (context.share [node]) state.frames)
      ((frames (FrameM.enterChild context.graph frame node) >>= fun inner =>
        statementInside eval inner node) context state)
      ((frames (FrameM.enterChild context.graph frame node) >>= fun inner =>
        statementInside other inner node) context state) := by
  let entered : Frame :=
    { node, scope := context.graph.scopeOf node, parentFrame := some frame,
      parentChain := some frame }
  have hrun : (FrameM.enterChild context.graph frame node).run state.frames =
      (if context.graph.scopeOf node = (state.frames.frame frame).scope then pure frame
        else FrameM.enter entered : FrameM FrameId).run state.frames := rfl
  by_cases hsame : context.graph.scopeOf node = (state.frames.frame frame).scope
  · rw [if_pos hsame] at hrun
    have hentering : frames (FrameM.enterChild context.graph frame node) context state =
        .ok (frame, state) := frames_of_run hrun
    have hchain := hlawful.frames.chainScopes_eq hoists.sound.graph hoists.sound.tree h.frame_lt
    rw [bind_apply, bind_apply, hentering]
    exact affords_statementInside hoists heval ⟨h.frame_lt, h.node_lt, hsame.symm, hchain⟩ state
      (.refl _) h.frame_lt hlimited hroom
  · rw [if_neg hsame] at hrun
    have hstands : context.graph.StandsIn context.tree node (state.frames.frame frame).scope :=
      h.stands.resolve_right fun ⟨hroot, hscope⟩ => hsame (hroot ▸ hscope.symm)
    have haround : (context.graph.scope entered.scope).parent =
        some (state.frames.frame frame).scope := by
      unfold StandsIn IsInside at hstands
      split at hstands
      · exact hstands
      · exact absurd hstands hsame
    have hinside : context.Scoped (state.frames.add entered) state.frames.frames.size node := by
      obtain ⟨inner, next, hends, -, hnextLawful, hinnerLt, hscope, -⟩ :=
        FrameM.succeeds_enterChild hlawful.frames h.frame_lt h.node_lt hfunction fun _ => hstands
      rw [hrun] at hends
      cases hends
      exact ⟨hinnerLt, h.node_lt, hscope,
        hnextLawful.chainScopes_eq hoists.sound.graph hoists.sound.tree hinnerLt⟩
    exact accounted_of_inside h.frame_lt hlimited hroom hrun rfl rfl
      (Nat.le_of_lt (hoists.sound.graph.regular.parent_lt haround))
      (hoists.hoisting_le_of_parent haround) (hoists.share_le_limit h.node_lt)
      (affords_statementInside hoists heval hinside)

theorem run_tree_bind {β : Type} (f : Tree → CheckM β) :
    (tree >>= f) context state = f context.tree context state := rfl

theorem statementRule_of_not_function (rules : Evaluator)
    (hfunction : context.tree.function? node = none) :
    statementRule rules frame node context state =
      (frames (FrameM.enterChild context.graph frame node) >>= fun inner =>
        statementInside rules inner node) context state := by
  rw [statementRule, run_tree_bind]
  change _ = (graph >>= fun scopes => frames (FrameM.enterChild scopes frame node) >>= fun inner =>
    statementInside rules inner node) context state
  refine congrFun (congrFun ?_ context) state
  split
  case h_1 shape hkind =>
    rw [Tree.function?, hkind] at hfunction
    cases hfunction
  case h_2 => rfl

theorem accounted_statementRule (hoists : context.Hoists) (heval : eval.Affords context other)
    (hlawful : state.Lawful context) (h : context.Follows state.frames frame node)
    (hlimited : state.frames.Limited context.graph context.limit)
    (hroom : state.frames.Room context.graph context.limit frame (context.share [node])) :
    Accounted (Spends context.graph context.limit frame (context.share [node]) state.frames)
      (statementRule eval frame node context state)
      (statementRule other frame node context state) := by
  cases hfunction : context.tree.function? node with
  | none =>
      rw [statementRule_of_not_function eval hfunction,
        statementRule_of_not_function other hfunction]
      exact accounted_entered hoists heval hlawful h hfunction hlimited hroom
  | some shape =>
      have hkind := Tree.function?_eq_some_iff.mp hfunction
      have hstands : context.Stands state.frames frame node := by
        refine ⟨h.frame_lt, h.node_lt, h.stands.resolve_right fun ⟨hroot, _⟩ => ?_,
          hlawful.frames.chainScopes_eq hoists.sound.graph hoists.sound.tree h.frame_lt⟩
        obtain ⟨body, hprogram⟩ := hoists.sound.tree.program
        rw [hroot, hprogram] at hkind
        cases hkind
      have hafforded : Affords context state.frames frame [node] (statementRule eval frame node)
          (statementRule other frame node) := by
        refine .tree_bind ?_
        rw [hkind]
        dsimp only
        split
        · rename_i hdeclaration
          exact affords_declareFunction hoists hstands
            (by simpa [hkind, NodeKind.declaresOutside] using hdeclaration)
        · exact (heval.expression _).bind fun _ => .pure ()
      exact hafforded state (.refl _) h.frame_lt hlimited hroom

end Check

/-! ## Rules up to a depth -/

theorem Watch.ofProperty_iff {P : CheckContext → CheckState → FrameId → NodeId → Prop}
    {context : CheckContext} {state : CheckState} {frame : FrameId} {node : NodeId} :
    Watch.ofProperty P context state frame node = true ↔ P context state frame node :=
  @decide_eq_true_iff _ (Classical.propDecidable _)

/-- Where the limits hold, a test that holds then makes no difference. -/
theorem Evaluator.affords_watchedUpTo {context : CheckContext} (hoists : context.Hoists)
    {P : CheckContext → CheckState → FrameId → NodeId → Prop}
    (holds : ∀ {state : CheckState} {frame node}, state.frames.Limited context.graph context.limit →
      P context state frame node) (depth : Nat) :
    (watchedUpTo (.ofProperty Check.Reached) depth).Affords context
      (watchedUpTo (.ofProperty P) depth) := by
  induction depth with
  | zero => exact ⟨fun _ _ _ _ _ _ => .inl rfl, fun _ _ _ _ _ _ => .inl rfl⟩
  | succ depth ih =>
      constructor
      · intro store frame nodes node state hgrows hlt hlimited hroom
        dsimp only [watchedUpTo]
        rw [if_pos (Watch.ofProperty_iff.mpr (holds hlimited))]
        split
        · exact Check.affords_expressionRule hoists ih node state hgrows hlt hlimited hroom
        · exact .inl rfl
      · intro store frame node hfollows state hgrows hlt hlimited hroom
        dsimp only [watchedUpTo]
        rw [if_pos (Watch.ofProperty_iff.mpr (holds hlimited))]
        split
        · rename_i hreached
          obtain ⟨hlawful, -, -⟩ := Watch.ofProperty_iff.mp hreached
          exact Check.accounted_statementRule hoists ih hlawful (hfollows.of_extends hgrows)
            hlimited hroom
        · exact .inl rfl

/-! ## Whole programs -/

namespace Check

variable {context : CheckContext}

theorem affords_bindGlobals {store : FrameStore} {frame : Nat} {nodes : List NodeId}
    (current : FrameId) (names : List String) : Affords context store frame nodes
      (bindGlobals current names) (bindGlobals current names) := by
  induction names with
  | nil => exact .pure ()
  | cons name rest ih =>
      refine Affords.bind (.graph_bind ?_) fun _ => ih
      split
      · exact (Affords.types _).bind fun _ => .bindName _ _ _
      · exact .pure ()

def firstFrames (context : CheckContext) : FrameStore :=
  ⟨#[{ node := context.tree.root, scope := context.graph.scopeOf context.tree.root }]⟩

theorem frame_firstFrames (context : CheckContext) (id : Nat) :
    ((firstFrames context).frame id).parentChain = none ∧
      ((firstFrames context).frame id).settings = [] := by
  rcases Nat.eq_zero_or_pos id with rfl | hpos
  · exact ⟨rfl, rfl⟩
  · rw [frame_of_size_le hpos]
    exact ⟨rfl, rfl⟩

theorem writes_firstFrames (context : CheckContext) (id : Nat) (symbol : SymbolId) :
    (firstFrames context).writes id symbol = 0 := by
  rw [writes, Frame.writes_of_settings (frame_firstFrames context id).2]

theorem limited_firstFrames (context : CheckContext) :
    (firstFrames context).Limited context.graph context.limit where
  outwards {id outer} hmem := by
    rw [lexicalChain, (frame_firstFrames context id).1, List.mem_singleton] at hmem
    exact hmem ▸ Nat.le_refl _
  writes_le id symbol _ := by
    rw [writes_firstFrames]
    exact Nat.zero_le _

/-- A program is followed in its first frame, which has room for all that is declared. -/
theorem accounted_program (hoists : context.Hoists) {eval other : Evaluator}
    (heval : eval.Affords context other) (diagnostics : Diagnostics) :
    Accounted (fun last => last.Limited context.graph context.limit)
      (program eval context (start context.tree diagnostics))
      (program other context (start context.tree diagnostics)) := by
  let entered : CheckState :=
    { start context.tree diagnostics with frames := firstFrames context }
  have hroot : context.tree.root < context.tree.size := by
    rw [hoists.sound.tree.size_eq]
    exact Nat.lt_succ_self _
  have hfollows : context.Follows entered.frames 0 context.tree.root :=
    ⟨Nat.zero_lt_one, hroot, .inr ⟨rfl, rfl⟩⟩
  have hafforded : Affords context entered.frames 0 [context.tree.root]
      (bindGlobals 0 context.options.globals >>= fun _ =>
        eval.statement 0 context.tree.root >>= fun _ => pure 0 : CheckM FrameId)
      (bindGlobals 0 context.options.globals >>= fun _ =>
        other.statement 0 context.tree.root >>= fun _ => pure 0) :=
    (affords_bindGlobals _ _).bind fun _ => (heval.statement hfollows).append fun _ => .pure 0
  have hroom : entered.frames.Room context.graph context.limit 0
      (context.share [context.tree.root]) := by
    intro outer _ symbol _
    rw [writes_firstFrames, Nat.zero_add]
    exact Nat.le_refl _
  exact (hafforded entered (.refl _) Nat.zero_lt_one (limited_firstFrames context) hroom).imp
    fun _ hspent => hspent.limited

end Check

namespace Tree

variable {tree : Tree}

theorem runBy_eq (tree : Tree) (eval : Evaluator) (joinBound : Nat) (options : CheckOptions) :
    tree.runBy eval joinBound options =
      (Check.program eval (tree.context joinBound options)
        (Check.start tree (tree.resolved options).2)).map
          fun final => ⟨(tree.resolved options).1, final.1, final.2⟩ := by
  change (Check.program eval (tree.context joinBound options)
    (Check.start tree (tree.resolved options).2)).bind _ = _
  cases Check.program eval (tree.context joinBound options)
    (Check.start tree (tree.resolved options).2) <;> rfl

namespace WellFormed

theorem hoists (h : tree.WellFormed) (joinBound : Nat) (options : CheckOptions) :
    (tree.context joinBound options).Hoists where
  sound := h.sound joinBound options
  graph := isGraphOf_build h options.globals _
  declared := hoisting_le_of_declared? h options.globals _

/-- A symbol has as many declarations as nodes declare it, or more. -/
theorem limit_le (h : tree.WellFormed) (joinBound : Nat) (options : CheckOptions)
    (symbol : SymbolId) :
    let graph := (tree.resolved options).1
    (tree.context joinBound options).limit symbol ≤
      (graph.declarationsOf (tree.declarations graph options.globals) symbol).length := by
  intro graph
  let declarers := (tree.preorder tree.root).filter fun node =>
    graph.declared? node = some symbol
  have hcount : (tree.context joinBound options).limit symbol = declarers.length := by
    rw [CheckContext.limit, CheckContext.share, List.flatMap_singleton,
      List.countP_eq_length_filter]
    rfl
  have hnodes : declarers ⊆ (graph.declarationsOf (tree.declarations graph options.globals)
      symbol).map Declaration.node := by
    intro node hmem
    have hdeclared := of_decide_eq_true (List.mem_filter.mp hmem).2
    obtain ⟨declaration, hfound, hown, -, hsame⟩ :=
      exists_declaration_of_declared? h options.globals _ hdeclared
    exact List.mem_map.mpr ⟨declaration, List.mem_filter.mpr ⟨hfound, decide_eq_true hsame⟩, hown⟩
  rw [hcount, ← List.length_map Declaration.node]
  exact (h.nodup_preorder_root.filter _).length_le_of_subset hnodes

/-- Only references to symbols that may be assigned to store values. -/
theorem writes_of_constant (h : tree.WellFormed) (options : CheckOptions) {symbol : SymbolId} :
    let graph := (tree.resolved options).1
    (graph.symbol symbol).mutable = false → (graph.symbol symbol).writes =
      graph.initialisers tree (tree.declarations graph options.globals) symbol := by
  intro graph hconst
  have hassigns : tree.references.filterMap (graph.assigned? symbol) = [] := by
    refine List.filterMap_eq_nil_iff.mpr fun reference _ => ?_
    cases reference with
    | read node name => rfl
    | write node name value => simp [assigned?, hconst]
  have hwrites : (graph.symbol symbol).writes =
      graph.initialisers tree (tree.declarations graph options.globals) symbol ++
        tree.references.filterMap (graph.assigned? symbol) :=
    writes_build h options.globals _ symbol
  rw [hwrites, hassigns, List.append_nil]

/-- Watching that the limits hold changes nothing, and they hold at the end. -/
theorem runBy_limited (h : tree.WellFormed) {joinBound : Nat} {options : CheckOptions}
    {P : CheckContext → CheckState → FrameId → NodeId → Prop}
    (holds : ∀ {state : CheckState} {frame node},
      state.frames.Limited (tree.resolved options).1 (tree.context joinBound options).limit →
        P (tree.context joinBound options) state frame node)
    {depth : Nat} (hdeep : Evaluator.depthFor tree.size ≤ depth) :
    tree.runBy (.watchedUpTo (.ofProperty P) depth) joinBound options =
        tree.runWithin joinBound options ∧
      ∀ run, tree.runWithin joinBound options = .ok run →
        run.state.frames.Limited (tree.resolved options).1
          (tree.context joinBound options).limit := by
  let reached : Evaluator := .watchedUpTo (.ofProperty Check.Reached) depth
  obtain ⟨hends, hwatched⟩ : tree.Throughout joinBound options Check.Reached :=
    h.throughout (Check.passes_reached _)
  rw [← hwatched depth hdeep, runBy_eq] at hends ⊢
  rw [runBy_eq]
  have hoists := h.hoists joinBound options
  rcases Check.accounted_program hoists (Evaluator.affords_watchedUpTo hoists holds depth)
    (tree.resolved options).2 with hexceeded | ⟨hequal, hlimited⟩
  · exact absurd (congrArg _ hexceeded) hends
  · refine ⟨congrArg _ hequal, fun run hended => ?_⟩
    cases houtcome : Check.program reached (tree.context joinBound options)
        (Check.start tree (tree.resolved options).2) with
    | error halt =>
        rw [houtcome] at hended
        cases hended
    | ok final =>
        rw [houtcome] at hended
        cases hended
        exact hlimited final.1 final.2 houtcome

end WellFormed

/-- **Constants are written as often as they are declared.**  In the graph of a program that
could be read, the values of a symbol that may not be assigned to are those of its declarations,
each once and in their order.  While the program is followed, whatever the options, and at its
end, no frame was written to under such a symbol more often than the symbol is declared.  So a
constant that is declared once has one value at most and is written once in a frame at most. -/
theorem constants_written_as_declared {tokens : List Token} {file : String}
    (h : Tree.ofTokens tokens file = .ok tree) (joinBound : Nat) (options : CheckOptions) :
    let graph := (tree.resolved options).1
    (∀ symbol, (graph.symbol symbol).mutable = false → (graph.symbol symbol).writes =
      graph.initialisers tree (tree.declarations graph options.globals) symbol) ∧
    tree.Throughout joinBound options (fun context state _ _ =>
      Check.WrittenAsDeclared context.tree context.graph context.options.globals state.frames) ∧
    ∀ run, tree.runWithin joinBound options = .ok run →
      Check.WrittenAsDeclared tree graph options.globals run.state.frames := by
  intro graph
  let P : CheckContext → CheckState → FrameId → NodeId → Prop := fun context state _ _ =>
    Check.WrittenAsDeclared context.tree context.graph context.options.globals state.frames
  have hwellFormed := Tree.wellFormed_of_ofTokens h
  have hoists := hwellFormed.hoists joinBound options
  have hkept : ∀ frames : FrameStore,
      frames.Limited graph (tree.context joinBound options).limit →
        Check.WrittenAsDeclared tree graph options.globals frames :=
    fun frames hlimited id symbol hconst => Nat.le_trans (hlimited.writes_le id symbol hconst)
      (hwellFormed.limit_le joinBound options symbol)
  have holds : ∀ {state : CheckState} {frame node},
      state.frames.Limited graph (tree.context joinBound options).limit →
        P (tree.context joinBound options) state frame node := fun hlimited => hkept _ hlimited
  have hends : tree.Throughout joinBound options Check.Reached :=
    hwellFormed.throughout (Check.passes_reached _)
  exact ⟨fun _ => hwellFormed.writes_of_constant options,
    ⟨hends.1, fun _ hdeep => (hwellFormed.runBy_limited holds hdeep).1⟩,
    fun run hended => hkept _ ((hwellFormed.runBy_limited holds (Nat.le_refl _)).2 run hended)⟩

end Tree

/-- How often a name of a scope was written in each frame of a run. -/
def Run.writeCounts (run : Run) (scope : ScopeId) (name : String) : Option (List Nat) :=
  (run.graph.local? scope name).map fun symbol =>
    (List.range run.state.frames.frames.size).map fun id => run.state.frames.writes id symbol

def constantsOfCalls : String :=
  "const a = 1; function f() { const b = a; } f(); f();"

/-- In each of the two calls the constant of the function is written once. -/
theorem Tree.constants_written_as_declared_constantsOfCalls :
    ∃ tokens tree run, Tree.ofTokens tokens "" = .ok tree ∧ tree.runWithin 8 {} = .ok run ∧
      run.writeCounts 1 "a" = some [1, 0, 0, 0, 0] ∧
      run.writeCounts 3 "b" = some [0, 0, 1, 0, 1] ∧
      (∀ symbol, ((tree.resolved {}).1.symbol symbol).mutable = false →
        ((tree.resolved {}).1.symbol symbol).writes = (tree.resolved {}).1.initialisers tree
          (tree.declarations (tree.resolved {}).1 defaultGlobals) symbol) ∧
      tree.Throughout 8 {} (fun context state _ _ =>
        Check.WrittenAsDeclared context.tree context.graph context.options.globals
          state.frames) ∧
      Check.WrittenAsDeclared tree (tree.resolved {}).1 defaultGlobals run.state.frames := by
  let tokens := (Lexer.tokenize constantsOfCalls).toOption.getD []
  have hcounts : ((Tree.ofTokens tokens "").toOption.any fun tree =>
      (tree.runWithin 8 {}).toOption.any fun run =>
        decide (run.writeCounts 1 "a" = some [1, 0, 0, 0, 0] ∧
          run.writeCounts 3 "b" = some [0, 0, 1, 0, 1])) = true := by
    decide +kernel
  cases hread : Tree.ofTokens tokens "" with
  | error halt =>
      rw [hread] at hcounts
      cases hcounts
  | ok tree =>
      rw [hread] at hcounts
      obtain ⟨hvalues, hthroughout, hatEnd⟩ := Tree.constants_written_as_declared hread 8 {}
      cases hended : tree.runWithin 8 {} with
      | error halt => simp [hended, Except.toOption] at hcounts
      | ok run =>
          obtain ⟨houter, hinner⟩ : run.writeCounts 1 "a" = some [1, 0, 0, 0, 0] ∧
              run.writeCounts 3 "b" = some [0, 0, 1, 0, 1] := by
            simpa [hended, Except.toOption] using hcounts
          exact ⟨tokens, tree, run, hread, hended, houter, hinner, hvalues, hthroughout,
            hatEnd run hended⟩

/-- A constant that is declared twice. -/
def repeatedConstant : String := "const a = 1; const a = 2;"

/-- A constant that is declared twice has two values, and is written twice in one frame. -/
theorem Tree.repeatedConstant_written_twice :
    ∃ tree run symbol, Tree.ofSource repeatedConstant "" = .ok tree ∧
      tree.runWithin 8 {} = .ok run ∧ (run.graph.symbol symbol).mutable = false ∧
      (run.graph.symbol symbol).writes = [0, 3] ∧
      run.state.frames.writes run.root symbol = 2 := by
  have htwice : ((Tree.ofSource repeatedConstant "").toOption.any fun tree =>
      (tree.runWithin 8 {}).toOption.any fun run =>
        decide ((run.graph.symbol 18).mutable = false ∧
          (run.graph.symbol 18).writes = [0, 3] ∧
            run.state.frames.writes run.root 18 = 2)) = true := by
    decide +kernel
  cases hread : Tree.ofSource repeatedConstant "" with
  | error halt =>
      rw [hread] at htwice
      cases htwice
  | ok tree =>
      rw [hread] at htwice
      cases hended : tree.runWithin 8 {} with
      | error halt => simp [hended, Except.toOption] at htwice
      | ok run =>
          refine ⟨tree, run, 18, rfl, hended, ?_⟩
          simpa [hended, Except.toOption] using htwice

end ScriptCheck
