import ScriptCheck.Check.Statement
import ScriptCheck.Proofs.Check.Expression

/-!
# Statements without faults

Every statement of a tree can be followed in a frame of the scope around it, given that
the nodes below it can.
-/

namespace ScriptCheck.Check

open CheckM Ty ScopeGraph

variable {context : CheckContext} {state next : CheckState} {depth frame node : Nat}
  {eval other : Evaluator}

/-! ## Narrowing -/

/-- The names that a condition tests are visible where the condition stands. -/
theorem visible_of_guardOf? (hsound : context.Sound) {left right : Nat}
    (hleft : Places context state depth frame left .expression)
    (hright : Places context state depth frame right .expression) {symbol : SymbolId} {kind : Kind}
    (h : guardOf? context.tree context.graph left right = some (symbol, kind)) :
    context.graph.Visible context.options.globals (state.frames.frame frame).scope symbol := by
  unfold guardOf? at h
  split at h
  rename_i tested literal hpair
  have htested : Places context state depth frame tested .expression := by
    split at hpair
    · cases hpair
      exact hright
    · cases hpair
      exact hleft
  split at h
  · rename_i argument name hunary _
    have hargument : Places context state depth frame argument .expression :=
      (htested.inside (by rw [hunary]; rfl)).part hsound
        (by rw [hunary]; exact List.mem_singleton.mpr rfl)
    split at h
    · rename_i hidentifier _ hresolved
      have hinside := hargument.inside (by rw [hidentifier]; rfl)
      split at h
      · cases h
        rw [hinside.scope]
        exact hsound.graph.resolves argument symbol hresolved
      · cases h
    · cases h
  · cases h

theorem visible_of_guards (hsound : context.Sound) {test : Nat} (limit : Nat)
    (htest : Places context state depth frame test .expression) {symbol : SymbolId} {kind : Kind}
    (h : (symbol, kind) ∈ guards context.tree context.graph limit test) :
    context.graph.Visible context.options.globals (state.frames.frame frame).scope symbol := by
  induction limit generalizing test with
  | zero => cases h
  | succ limit ih =>
      unfold guards at h
      split at h
      · rename_i left right hkind
        have hinside := htest.inside (by rw [hkind]; rfl)
        rcases List.mem_append.mp h with h | h
        · exact ih (hinside.part hsound (by rw [hkind]; exact List.mem_cons_self)) h
        · exact ih (hinside.part hsound
            (by rw [hkind]; exact List.mem_cons_of_mem _ List.mem_cons_self)) h
      · rename_i left right hkind
        have hinside := htest.inside (by rw [hkind]; rfl)
        exact visible_of_guardOf? hsound
          (hinside.part hsound (by rw [hkind]; exact List.mem_cons_self))
          (hinside.part hsound (by rw [hkind]; exact List.mem_cons_of_mem _ List.mem_cons_self))
          (Option.mem_toList.mp h)
      · rename_i left right hkind
        have hinside := htest.inside (by rw [hkind]; rfl)
        exact visible_of_guardOf? hsound
          (hinside.part hsound (by rw [hkind]; exact List.mem_cons_self))
          (hinside.part hsound (by rw [hkind]; exact List.mem_cons_of_mem _ List.mem_cons_self))
          (Option.mem_toList.mp h)
      · cases h

theorem agree_narrowNames (hsound : context.Sound) (hframe : frame < state.frames.frames.size)
    (test : NodeId) (found : List (SymbolId × Kind))
    (hvisible : ∀ symbol kind, (symbol, kind) ∈ found →
      context.graph.Visible context.options.globals (state.frames.frame frame).scope symbol) :
    Agree context state (narrowNames frame test found) (narrowNames frame test found)
      (fun _ _ => True) := by
  induction found generalizing state with
  | nil => exact .pure trivial
  | cons guard rest ih =>
      obtain ⟨symbol, kind⟩ := guard
      refine .tree_bind (.graph_bind ?_)
      refine (agree_frames fun hlawful => FrameM.succeeds_readName hlawful hsound.graph
        hsound.tree.opensScope_root hframe test (hvisible symbol kind List.mem_cons_self)).bind
          fun current read hread _ => ?_
      extract_lets narrows
      have hnarrows : ∀ ty state', state.frames.Extends state'.frames →
          Agree context state' (narrows ty) (narrows ty) (fun _ _ => True) := by
        intro ty state' hstate'
        refine (agree_joins fun bound => grows_narrow _ bound ty kind).bind
          fun _ joined hjoined _ => ?_
        refine (agree_bind frame symbol _).bind fun _ last hlast _ => ?_
        have hextends := (hstate'.trans hjoined).trans hlast
        refine ih (Nat.lt_of_lt_of_le hframe hextends.size_le) fun symbol kind hmem => ?_
        rw [hextends.scope hframe]
        exact hvisible symbol kind (List.mem_cons_of_mem _ hmem)
      split
      · exact hnarrows _ read hread
      · exact (agree_types_of_grows (grows_unknown _)).bind fun _ next hnext _ =>
          hnarrows _ next (hread.trans hnext)

theorem agree_branchFrame (hsound : context.Sound) (hframe : frame < state.frames.frames.size)
    (test : NodeId) (found : List (SymbolId × Kind))
    (hvisible : ∀ symbol kind, (symbol, kind) ∈ found →
      context.graph.Visible context.options.globals (state.frames.frame frame).scope symbol) :
    Agree context state (branchFrame frame test found) (branchFrame frame test found)
      (fun branch next => branch < next.frames.frames.size ∧
        (next.frames.frame branch).scope = (state.frames.frame frame).scope ∧
          next.frames.calls branch = state.frames.calls frame) := by
  unfold branchFrame
  split
  · exact .pure ⟨hframe, rfl, rfl⟩
  · refine (agree_frames fun hlawful => FrameM.succeeds_enterGuard hlawful hframe).bind
      fun guarded entered _ hentered => ?_
    obtain ⟨hlt, hscope, hcalls⟩ := hentered
    refine (agree_narrowNames hsound hlt test found fun symbol kind hmem => ?_).bind
      fun _ last hlast _ => ?_
    · rw [hscope]
      exact hvisible symbol kind hmem
    · refine .pure ⟨Nat.lt_of_lt_of_le hlt hlast.size_le, ?_, ?_⟩
      · rw [hlast.scope hlt, hscope]
      · rw [hlast.calls hlt, hcalls]

/-- One step for a node that may be missing. -/
theorem agree_option {α : Type} {item : Option α} {f g : α → CheckM Unit}
    (h : ∀ a, item = some a → Agree context state (f a) (g a) (fun _ _ => True)) :
    Agree context state (item.forM f) (item.forM g) (fun _ _ => True) := by
  cases item with
  | none => exact .pure trivial
  | some a => exact h a rfl

theorem agree_ifStatement (hsound : context.Sound) (heval : eval.Agrees context depth other)
    {test consequent : Nat} {alternate : Option NodeId}
    (htest : Places context state depth frame test .expression)
    (hconsequent : Places context state depth frame consequent .statement)
    (halternate : ∀ node, alternate = some node →
      Places context state depth frame node .statement) :
    Agree context state (ifStatement eval frame test consequent alternate)
      (ifStatement other frame test consequent alternate) (fun _ _ => True) := by
  refine .tree_bind (.graph_bind ?_)
  refine (heval.expression_of_places htest).bind fun ty tested htested _ => ?_
  refine (agree_outcome? ty).bind fun outcome known hknown _ => ?_
  have hextends := htested.trans hknown
  have hrest : ∀ state', state.frames.Extends state'.frames → Agree context state'
      (if outcome ≠ some true then alternate.forM (eval.statement frame) else pure ())
      (if outcome ≠ some true then alternate.forM (other.statement frame) else pure ())
      (fun _ _ => True) := by
    intro state' hstate'
    refine .ite (fun _ => ?_) fun _ => .pure trivial
    exact agree_option fun node hnode =>
      heval.statement_of_places ((halternate node hnode).later hstate')
  refine .ite (fun _ => ?_) fun _ => hrest known hextends
  have htest := htest.later hextends
  refine (agree_branchFrame hsound htest.fits.frame_lt test _ fun symbol kind hmem =>
    visible_of_guards hsound _ htest hmem).bind fun branch entered hentered hbranch => ?_
  obtain ⟨hlt, hscope, hcalls⟩ := hbranch
  have hfits := (hconsequent.later hextends).fits.move hlt hscope hcalls
  refine (heval.statement_of_places ⟨hfits, hconsequent.suits⟩).bind fun _ last hlast _ => ?_
  exact hrest last ((hextends.trans hentered).trans hlast)

/-! ## Declarations -/

theorem visible_of_declared (hsound : context.Sound) (hfits : Fits context state depth frame node)
    (houtside : (context.tree.kind node).declaresOutside) {symbol : SymbolId}
    (hsymbol : context.graph.declared? node = some symbol) :
    context.graph.Visible context.options.globals (state.frames.frame frame).scope symbol :=
  (hsound.graph.declares node hfits.node_lt houtside _ hfits.stands).visible hsymbol

theorem agree_declareFunction (hsound : context.Sound) (hfits : Fits context state depth frame node)
    {shape : FunctionShape} (hkind : context.tree.kind node = .function shape)
    (hdeclaration : shape.kind = .declaration) :
    Agree context state (declareFunction frame node) (declareFunction frame node)
      (fun _ _ => True) := by
  refine (agree_closure hfits hkind).bind fun function next hnext _ => .graph_bind ?_
  have hfits := hfits.later hnext
  split
  · rename_i symbol hsymbol
    refine agree_writeName hsound hfits.frame_lt node
      (visible_of_declared hsound hfits ?_ hsymbol) _
    rw [hkind]
    simpa [NodeKind.declaresOutside] using hdeclaration
  · exact .pure trivial

theorem agree_declarator (hsound : context.Sound) (heval : eval.Agrees context depth other)
    (kind : DeclarationKind) (hnode : Places context state depth frame node .declarator) :
    Agree context state (declarator eval frame kind node) (declarator other frame kind node)
      (fun _ _ => True) := by
  refine .tree_bind ?_
  cases hkind : context.tree.kind node with
  | declarator name init =>
      have houtside : (context.tree.kind node).declaresOutside := by
        rw [hkind]
        rfl
      refine .graph_bind ?_
      split
      · exact .pure trivial
      · rename_i symbol value hsymbol
        have hvalue : Places context state depth frame value .expression := by
          refine (hnode.inside (by rw [hkind]; rfl)).part hsound ?_
          rw [hkind]
          exact List.mem_singleton.mpr rfl
        refine (agree_initialiser heval hvalue).bind fun ty next hnext _ => ?_
        have hfits := hnode.fits.later hnext
        exact agree_writeName hsound hfits.frame_lt node
          (visible_of_declared hsound hfits houtside hsymbol) ty
      · exact .pure trivial
      · rename_i symbol hsymbol _
        refine (agree_types_of_grows (grows_undefined _)).bind fun ty next hnext _ => ?_
        have hfits := hnode.fits.later hnext
        exact agree_writeName hsound hfits.frame_lt node
          (visible_of_declared hsound hfits houtside hsymbol) ty
  | _ =>
      have hsuits := hnode.suits
      rw [hkind] at hsuits
      cases hsuits

theorem kind_of_isDeclaration {tree : Tree} {node : NodeId} (h : isDeclaration tree node) :
    ∃ shape, tree.kind node = .function shape ∧ shape.kind = .declaration := by
  unfold isDeclaration Tree.function? at h
  cases hkind : tree.kind node with
  | function shape =>
      rw [hkind] at h
      exact ⟨shape, rfl, by simpa using h⟩
  | _ =>
      rw [hkind] at h
      cases h

theorem agree_body (hsound : context.Sound) (heval : eval.Agrees context depth other)
    {statements : List NodeId}
    (hstatements : ∀ statement ∈ statements,
      Places context state depth frame statement .statement) :
    Agree context state (body eval frame statements) (body other frame statements)
      (fun _ _ => True) := by
  refine .tree_bind (Agree.bind (.forM fun statement hmem next hnext => ?_)
    fun _ declared hdeclared _ => .forM fun statement hmem next hnext => ?_)
  · obtain ⟨hmem, hdeclaration⟩ := List.mem_filter.mp hmem
    obtain ⟨shape, hkind, hshape⟩ := kind_of_isDeclaration hdeclaration
    exact agree_declareFunction hsound ((hstatements statement hmem).fits.later hnext) hkind hshape
  · obtain ⟨hmem, -⟩ := List.mem_filter.mp hmem
    exact heval.statement_of_places ((hstatements statement hmem).later (hdeclared.trans hnext))

/-! ## Loops and jumps -/

theorem agree_isKnownFalse (heval : eval.Agrees context depth other) {test : Nat}
    (htest : Places context state depth frame test .expression) :
    Agree context state (isKnownFalse eval frame test) (isKnownFalse other frame test)
      (fun _ _ => True) := by
  refine (heval.expression_of_places htest).bind fun ty _ _ _ => ?_
  exact (agree_outcome? ty).bind fun _ _ _ _ => .pure trivial

theorem agree_returnStatement (heval : eval.Agrees context depth other)
    (hmeets : context.Meets state.frames frame node) {argument : Option NodeId}
    (hkind : context.tree.kind node = .returnStmt argument)
    (hargument : ∀ node, argument = some node →
      Places context state depth frame node .expression) :
    Agree context state (returnStatement eval frame node argument)
      (returnStatement other frame node argument) (fun _ _ => True) := by
  have hrest : ∀ (ty : Ty) (state' : CheckState), state.frames.Extends state'.frames →
      Agree context state'
        (do if !(← frames (FrameM.addReturned frame ty)) then report frame node .unexpectedReturn)
        (do if !(← frames (FrameM.addReturned frame ty)) then report frame node .unexpectedReturn)
        (fun _ _ => True) := by
    intro ty state' hstate'
    refine (agree_frames fun hlawful => FrameM.succeeds_addReturned hlawful frame ty).bind
      fun added next hnext hadded => .ite (fun hnot => ?_) fun _ => .pure trivial
    refine agree_report (hmeets.later (hstate'.trans hnext)) fun _ => ⟨⟨argument, hkind⟩, hadded ?_⟩
    simpa using hnot
  cases argument with
  | none =>
      exact (agree_types_of_grows (grows_undefined _)).bind fun ty next hnext _ =>
        hrest ty next hnext
  | some argument =>
      exact (heval.expression_of_places (hargument argument rfl)).bind fun ty next hnext _ =>
        hrest ty next hnext

theorem agree_forStatement (heval : eval.Agrees context depth other)
    {init test update : Option NodeId} {body : Nat}
    (hinit : ∀ node, init = some node → Places context state depth frame node .initialiser)
    (htest : ∀ node, test = some node → Places context state depth frame node .expression)
    (hupdate : ∀ node, update = some node → Places context state depth frame node .expression)
    (hbody : Places context state depth frame body .statement) :
    Agree context state (forStatement eval frame init test update body)
      (forStatement other frame init test update body) (fun _ _ => True) := by
  unfold forStatement
  extract_lets round tested otherRound otherTested
  have hround : ∀ (skipped : Bool) (state' : CheckState), state.frames.Extends state'.frames →
      Agree context state' (round skipped) (otherRound skipped) (fun _ _ => True) := by
    intro skipped state' hstate'
    refine .ite (fun _ => ?_) fun _ => .pure trivial
    refine (heval.statement_of_places (hbody.later hstate')).bind fun _ next hnext _ => ?_
    cases update with
    | none => exact .pure trivial
    | some update =>
        exact (heval.expression_of_places ((hupdate update rfl).later (hstate'.trans hnext))).bind
          fun _ _ _ _ => .pure trivial
  have htested : ∀ state' : CheckState, state.frames.Extends state'.frames →
      Agree context state' (tested ()) (otherTested ()) (fun _ _ => True) := by
    intro state' hstate'
    cases test with
    | none => exact hround false state' hstate'
    | some test =>
        exact (agree_isKnownFalse heval ((htest test rfl).later hstate')).bind
          fun skipped next hnext _ => hround skipped next (hstate'.trans hnext)
  cases init with
  | none => exact htested state (.refl _)
  | some init =>
      have hplaces := hinit init rfl
      have hsuits := hplaces.suits
      refine .tree_bind ?_
      cases hkind : context.tree.kind init with
      | declaration kind declarators =>
          exact (heval.statement hplaces.fits (by rw [hkind]; rfl)).bind fun _ next hnext _ =>
            htested next hnext
      | _ =>
          rw [hkind] at hsuits
          exact (heval.expression hplaces.fits (by rw [hkind]; exact hsuits)).bind
            fun _ next hnext _ => htested next hnext

theorem agree_catchClause (heval : eval.Agrees context depth other) (param : Option NodeId)
    {body : Nat} (hbody : Places context state depth frame body .statement) :
    Agree context state (catchClause eval frame param body) (catchClause other frame param body)
      (fun _ _ => True) := by
  refine .graph_bind ?_
  cases param.bind context.graph.declared? with
  | none => exact heval.statement_of_places hbody
  | some symbol =>
      refine (agree_types_of_grows (grows_unknown _)).bind fun ty next hnext _ => ?_
      refine (agree_bind frame symbol ty).bind fun _ last hlast _ => ?_
      exact heval.statement_of_places (hbody.later (hnext.trans hlast))

/-! ## The rule -/

theorem agree_statementInside (hsound : context.Sound) (heval : eval.Agrees context depth other)
    (hinside : Inside context state depth frame node)
    (hfollowed : (context.tree.kind node).isFollowed)
    (hfunction : ∀ shape, context.tree.kind node ≠ .function shape) :
    Agree context state (statementInside eval frame node) (statementInside other frame node)
      (fun _ _ => True) := by
  refine .tree_bind ?_
  generalize hkind : context.tree.kind node = kind at hfollowed hfunction
  have hpart : ∀ {part : Nat} {sort : Part}, (part, sort) ∈ kind.parts →
      Places context state depth frame part sort := by
    intro part sort hmem
    exact hinside.part hsound (by rw [hkind]; exact hmem)
  cases kind with
  | program statements | block statements =>
      exact agree_body hsound heval fun statement hmem => hpart (List.mem_map_of_mem hmem)
  | empty | breakStmt | continueStmt => exact .pure trivial
  | expressionStmt expr =>
      exact (heval.expression_of_places (hpart List.mem_cons_self)).bind fun _ _ _ _ =>
        .pure trivial
  | declaration kind declarators =>
      refine .forM fun declarator hmem next hnext => ?_
      exact agree_declarator hsound heval kind ((hpart (List.mem_map_of_mem hmem)).later hnext)
  | ifStmt test consequent alternate =>
      refine agree_ifStatement hsound heval (hpart List.mem_cons_self)
        (hpart (List.mem_cons_of_mem _ List.mem_cons_self)) ?_
      rintro node rfl
      exact hpart (List.mem_append_right _ (List.mem_singleton.mpr rfl))
  | returnStmt argument =>
      refine agree_returnStatement heval (hinside.meets (by rw [hkind]; rfl)) hkind ?_
      rintro node rfl
      exact hpart (List.mem_singleton.mpr rfl)
  | whileStmt test body =>
      refine (agree_isKnownFalse heval (hpart List.mem_cons_self)).bind fun _ next hnext _ => ?_
      refine .ite (fun _ => ?_) fun _ => .pure trivial
      exact heval.statement_of_places
        ((hpart (List.mem_cons_of_mem _ List.mem_cons_self)).later hnext)
  | forStmt init test update body =>
      refine agree_forStatement heval ?_ ?_ ?_ ?_
      · rintro node rfl
        exact hpart (by simp [NodeKind.parts])
      · rintro node rfl
        exact hpart (by simp [NodeKind.parts])
      · rintro node rfl
        exact hpart (by simp [NodeKind.parts])
      · exact hpart (by simp [NodeKind.parts])
  | tryStmt body handler finalizer =>
      refine (heval.statement_of_places (hpart List.mem_cons_self)).bind fun _ tried htried _ => ?_
      refine (agree_option fun handler hhandler => ?_).bind fun _ handled hhandled _ => ?_
      · subst hhandler
        have hplaces : Places context state depth frame handler .handler :=
          hpart (by simp [NodeKind.parts])
        refine heval.statement (hplaces.later htried).fits ?_
        have hsuits := hplaces.suits
        generalize context.tree.kind handler = kind at hsuits ⊢
        cases kind with
        | catchClause param body => rfl
        | _ => cases hsuits
      · refine agree_option fun finalizer hfinalizer => ?_
        subst hfinalizer
        have hplaces : Places context state depth frame finalizer .statement :=
          hpart (by simp [NodeKind.parts])
        exact heval.statement_of_places (hplaces.later (htried.trans hhandled))
  | catchClause param body =>
      exact agree_catchClause heval param (hpart (List.mem_append_right _ List.mem_cons_self))
  | throwStmt argument =>
      exact (heval.expression_of_places (hpart List.mem_cons_self)).bind fun _ _ _ _ =>
        .pure trivial
  | function shape => exact absurd rfl (hfunction shape)
  | _ => cases hfollowed

theorem agree_entered (hsound : context.Sound) (heval : eval.Agrees context depth other)
    (hframe : frame < state.frames.frames.size) (hnode : node < context.tree.size)
    (hstands : context.graph.scopeOf node ≠ (state.frames.frame frame).scope →
      context.graph.StandsIn context.tree node (state.frames.frame frame).scope)
    (hnesting : nesting context.tree.size (state.frames.calls frame).length node ≤ depth)
    (hfollowed : (context.tree.kind node).isFollowed)
    (hfunction : ∀ shape, context.tree.kind node ≠ .function shape) :
    Agree context state (statementRule eval frame node) (statementRule other frame node)
      (fun _ _ => True) := by
  refine .tree_bind ?_
  split
  · rename_i shape hkind
    exact absurd hkind (hfunction shape)
  · refine .graph_bind ?_
    refine (agree_frames fun hlawful => FrameM.succeeds_enterChild hlawful hframe hnode
      (Tree.function?_eq_none_iff.mpr hfunction) hstands).bind fun inner entered _ hentered => ?_
    obtain ⟨hlt, hscope, hcalls⟩ := hentered
    refine agree_statementInside hsound heval ⟨hlt, hnode, hscope, ?_⟩ hfollowed hfunction
    rw [hcalls]
    exact hnesting

theorem agree_statementRule (hsound : context.Sound) (heval : eval.Agrees context depth other)
    (hfits : Fits context state (depth + 1) frame node)
    (hfollowed : (context.tree.kind node).isFollowed) :
    Agree context state (statementRule eval frame node) (statementRule other frame node)
      (fun _ _ => True) := by
  cases hkind : context.tree.kind node with
  | function shape =>
      have hdeclaration : shape.kind = .declaration := by
        rw [hkind] at hfollowed
        simpa [NodeKind.isFollowed, NodeKind.isStatement] using hfollowed
      refine .tree_bind ?_
      rw [hkind]
      dsimp only
      rw [if_pos hdeclaration, if_pos hdeclaration]
      exact agree_declareFunction hsound hfits hkind hdeclaration
  | _ =>
      refine agree_entered hsound heval hfits.frame_lt hfits.node_lt (fun _ => hfits.stands)
        (Nat.le_of_lt_succ hfits.nesting_lt) hfollowed fun shape hshape => ?_
      rw [hkind] at hshape
      cases hshape

end ScriptCheck.Check
