import ScriptCheck.Check.Program
import ScriptCheck.Proofs.Check.Statement
import ScriptCheck.Proofs.Grammar.Layout
import ScriptCheck.Proofs.Scope.Walk

/-!
# Whole programs

The rules agree with themselves up to every depth that the size of a program asks for,
also when each step is watched.  So a program that the grammar reads is followed to its
end: no fault arises, the depth suffices, and no function is entered while it is called.
-/

namespace ScriptCheck

open CheckM ScopeGraph

abbrev Watch := CheckContext → CheckState → FrameId → NodeId → Bool

namespace Evaluator

/-- The rules up to a depth of nesting, where a test is made before each node is followed.
Nothing catches the end of a run, so a test that fails anywhere shows in the result. -/
def watchedUpTo (watch : Watch) : Nat → Evaluator
  | 0 =>
      { expression := fun _ _ => throw .depthExceeded
        statement := fun _ _ => throw .depthExceeded }
  | depth + 1 =>
      { expression := fun frame node context state =>
          if watch context state frame node then
            Check.expressionRule (watchedUpTo watch depth) frame node context state
          else throw .depthExceeded
        statement := fun frame node context state =>
          if watch context state frame node then
            Check.statementRule (watchedUpTo watch depth) frame node context state
          else throw .depthExceeded }

/-- A test holds whenever a node is followed in a frame of the scope around or inside it. -/
def Passes (context : CheckContext) (watch : Watch) : Prop :=
  ∀ {state : CheckState} {frame node : Nat}, state.Lawful context →
    frame < state.frames.frames.size → node < context.tree.size →
      context.graph.StandsIn context.tree node (state.frames.frame frame).scope ∨
        (state.frames.frame frame).scope = context.graph.scopeOf node →
          watch context state frame node

theorem Passes.of_fits {context : CheckContext} {watch : Watch} (h : Passes context watch)
    {state : CheckState} {depth frame node : Nat} (hlawful : state.Lawful context)
    (hfits : Fits context state depth frame node) : watch context state frame node :=
  h hlawful hfits.frame_lt hfits.node_lt (.inl hfits.stands)

theorem agree_of_eq {α : Type} {context : CheckContext} {state : CheckState}
    {first second first' second' : CheckM α} {Q : α → CheckState → Prop}
    (hfirst : first' context state = first context state)
    (hsecond : second' context state = second context state)
    (h : Agree context state first second Q) : Agree context state first' second' Q := by
  unfold Agree at h ⊢
  rwa [hfirst, hsecond]

/-- Down to a depth the rules up to a larger depth do the same, watched or not. -/
theorem agrees_watchedUpTo {context : CheckContext} (hsound : context.Sound) {watch : Watch}
    (hwatch : Passes context watch) {depth first second : Nat} (hfirst : depth ≤ first)
    (hsecond : depth ≤ second) :
    (upTo first).Agrees context depth (watchedUpTo watch second) := by
  induction depth generalizing first second with
  | zero =>
      exact ⟨fun hfits => absurd hfits.nesting_lt (Nat.not_lt_zero _),
        fun hfits => absurd hfits.nesting_lt (Nat.not_lt_zero _)⟩
  | succ depth ih =>
      obtain ⟨first, rfl⟩ : ∃ rest, first = rest + 1 := ⟨first - 1, by omega⟩
      obtain ⟨second, rfl⟩ : ∃ rest, second = rest + 1 := ⟨second - 1, by omega⟩
      have hrest := @ih first second (by omega) (by omega)
      refine ⟨fun hfits hkind => .of_lawful fun hlawful => ?_,
        fun hfits hkind => .of_lawful fun hlawful => ?_⟩
      · exact agree_of_eq rfl (if_pos (hwatch.of_fits hlawful hfits))
          (Check.agree_expressionRule hsound hrest hfits hkind)
      · exact agree_of_eq rfl (if_pos (hwatch.of_fits hlawful hfits))
          (Check.agree_statementRule hsound hrest hfits hkind)

end Evaluator

namespace Check

variable {context : CheckContext} {state : CheckState}

/-! ## The beginning -/

/-- Only the outermost frame is there, and no functions. -/
structure Begun (context : CheckContext) (state : CheckState) : Prop where
  size : state.frames.frames.size = 1
  root : FrameStore.IsRoot context.tree context.graph [] (state.frames.frame 0)
  callable : ∀ id, (state.types.shape id).callable = none

theorem grows_globalType (store : TypeStore) (name : String) :
    (globalType name).GrowsFrom (fun _ => False) store := by
  unfold globalType
  split
  · exact Ty.grows_undefined store
  · exact Ty.grows_ofValue store _
  · exact Ty.grows_ofValue store _
  · exact Ty.grows_unknown store

theorem Begun.bind (h : Begun context state) {types : TypeStore}
    (hgrows : state.types.Grows (fun _ => False) types) (symbol : SymbolId) (ty : Ty) :
    Begun context { state with types, frames := state.frames.modify 0 (·.bind symbol ty) } := by
  have hextends := FrameM.extends_bind state.frames 0 symbol ty
  refine ⟨?_, hextends.isRoot (by rw [h.size]; exact Nat.zero_lt_one) h.root, fun id => ?_⟩
  · dsimp only
    rw [FrameStore.size_modify, h.size]
  · cases hcallable : (types.shape id).callable with
    | none => rfl
    | some callable =>
        rcases hgrows.callable hcallable with hfalse | ⟨old, hold⟩
        · exact hfalse.elim
        · rw [h.callable old] at hold
          cases hold

theorem graph_bind_apply {α : Type} (f : ScopeGraph → CheckM α) (context : CheckContext)
    (state : CheckState) : (graph >>= f) context state = f context.graph context state := rfl

/-- Binding the global names gives each of them a type. -/
theorem run_bindGlobals (names : List String) (h : Begun context state) :
    ∃ next, bindGlobals 0 names context state = .ok ((), next) ∧ Begun context next ∧
      state.frames.Extends next.frames ∧ next.diagnostics = state.diagnostics ∧
        ∀ name ∈ names, ∀ symbol, context.graph.local? globalScope name = some symbol →
          (next.frames.frame 0).holds symbol := by
  induction names generalizing state with
  | nil => exact ⟨state, rfl, h, .refl _, rfl, fun name hname => by cases hname⟩
  | cons name rest ih =>
      rw [bindGlobals, List.forM, bind_assoc, graph_bind_apply]
      cases hlocal : context.graph.local? globalScope name with
      | none =>
          obtain ⟨next, hrun, hbegun, hextends, hquiet, hholds⟩ := ih h
          refine ⟨next, hrun, hbegun, hextends, hquiet, fun found hfound symbol hsymbol => ?_⟩
          rcases List.mem_cons.mp hfound with rfl | hfound
          · rw [hlocal] at hsymbol
            cases hsymbol
          · exact hholds found hfound symbol hsymbol
      | some symbol =>
          let result := (globalType name).run state.types
          have hgrows : state.types.Grows (fun _ => False) result.2 :=
            grows_globalType state.types name
          have hbound := h.bind hgrows symbol result.1
          have hfirst := FrameM.extends_bind state.frames 0 symbol result.1
          obtain ⟨next, hrun, hbegun, hextends, hquiet, hholds⟩ := ih hbound
          refine ⟨next, hrun, hbegun, hfirst.trans hextends, hquiet,
            fun found hfound other hother => ?_⟩
          rcases List.mem_cons.mp hfound with rfl | hfound
          · rw [hlocal] at hother
            cases hother
            refine hextends.holds ?_
            rw [FrameStore.frame_modify_self (by rw [h.size]; exact Nat.zero_lt_one)]
            simp [Frame.holds]
          · exact hholds found hfound other hother

theorem Begun.lawful (h : Begun context state)
    (hholds : ∀ name ∈ context.options.globals, ∀ symbol,
      context.graph.local? globalScope name = some symbol → (state.frames.frame 0).holds symbol) :
    state.Lawful context := by
  have hroot : FrameStore.IsRoot context.tree context.graph context.options.globals
      (state.frames.frame 0) :=
    ⟨h.root.scope, h.root.parentChain, h.root.parentFrame, h.root.overlay, h.root.caller, hholds⟩
  refine ⟨⟨by rw [h.size]; exact Nat.zero_lt_one, hroot, fun id hpos hlt => ?_, fun id hlt => ?_⟩,
    fun id callable hcallable => ?_⟩
  · rw [h.size] at hlt
    omega
  · rw [h.size] at hlt
    have hzero : id = 0 := by omega
    subst hzero
    rw [FrameStore.calls_of_root hroot]
    exact List.nodup_nil
  · rw [h.callable id] at hcallable
    cases hcallable

/-- The nesting below the program is within the depth for its size. -/
theorem nesting_root_lt {size root : Nat} (h : size = root + 1) :
    nesting size 0 root < Evaluator.depthFor size := by
  subst h
  change (root + 1) * (root + 2) + root < (root + 3) * (2 * (root + 1) + 4)
  calc (root + 1) * (root + 2) + root
      < (root + 1) * (root + 2) + (root + 2) := by omega
    _ = (root + 2) * (root + 2) := (Nat.succ_mul _ _).symm
    _ ≤ (root + 3) * (2 * (root + 1) + 4) := Nat.mul_le_mul (by omega) (by omega)

/-- The whole program is followed in its outermost frame. -/
theorem Begun.agree (h : Begun context state) (hsound : context.Sound) {watch : Watch}
    (hwatch : Evaluator.Passes context watch) {first second : Nat}
    (hfirst : Evaluator.depthFor context.tree.size ≤ first)
    (hsecond : Evaluator.depthFor context.tree.size ≤ second) :
    Agree context state ((Evaluator.upTo first).statement 0 context.tree.root)
      ((Evaluator.watchedUpTo watch second).statement 0 context.tree.root) (fun _ _ => True) := by
  have hsize := hsound.tree.size_eq
  have hnesting := nesting_root_lt hsize
  obtain ⟨body, hkind⟩ := hsound.tree.program
  have hframe : 0 < state.frames.frames.size := by
    rw [h.size]
    exact Nat.zero_lt_one
  have hscope := h.root.scope
  obtain ⟨first, rfl⟩ : ∃ rest, first = rest + 1 := ⟨first - 1, by omega⟩
  obtain ⟨second, rfl⟩ : ∃ rest, second = rest + 1 := ⟨second - 1, by omega⟩
  obtain ⟨depth, hdepth⟩ : ∃ rest, Evaluator.depthFor context.tree.size = rest + 1 :=
    ⟨Evaluator.depthFor context.tree.size - 1, by omega⟩
  have hrest : (Evaluator.upTo first).Agrees context depth (Evaluator.watchedUpTo watch second) :=
    Evaluator.agrees_watchedUpTo hsound hwatch (by omega) (by omega)
  refine .of_lawful fun hlawful => ?_
  refine Evaluator.agree_of_eq rfl (if_pos (hwatch hlawful hframe (by omega) (.inr hscope)))
    (agree_entered hsound hrest hframe (by omega) (fun hne => absurd hscope.symm hne) ?_ ?_ ?_)
  · rw [FrameStore.calls_of_root h.root]
    rw [hdepth] at hnesting
    exact Nat.le_of_lt_succ hnesting
  · rw [hkind]
    rfl
  · rw [hkind]
    exact fun shape hshape => by cases hshape

/-- The state in which a program begins. -/
def start (tree : Tree) (diagnostics : Diagnostics) : CheckState :=
  { types := {}, frames := {}, diagnostics, memo := Folding.Memo.empty tree }

/-- From its beginning, a program is followed in the same way by rules of any sufficient
depth, watched or not, and without faults. -/
theorem program_agree (hsound : context.Sound) {watch : Watch}
    (hwatch : Evaluator.Passes context watch) {first second : Nat}
    (hfirst : Evaluator.depthFor context.tree.size ≤ first)
    (hsecond : Evaluator.depthFor context.tree.size ≤ second) (diagnostics : Diagnostics) :
    program (.upTo first) context (start context.tree diagnostics) =
        program (.watchedUpTo watch second) context (start context.tree diagnostics) ∧
      match program (.upTo first) context (start context.tree diagnostics) with
      | .ok (_, final) =>
          final.Lawful context ∧ (start context.tree diagnostics).Reports context final
      | .error halt => halt = .joinExceeded := by
  let frame : Frame := { node := context.tree.root, scope :=
    context.graph.scopeOf context.tree.root }
  let entered : CheckState :=
    { start context.tree diagnostics with frames := ⟨#[frame]⟩ }
  have hentered : Begun context entered := by
    refine ⟨rfl, ⟨rfl, rfl, rfl, rfl, rfl, fun _ hname => by cases hname⟩, fun id => ?_⟩
    rw [TypeStore.shape_of_size_le (Nat.zero_le id)]
    rfl
  obtain ⟨begun, hbind, hbegun, -, hquiet, hholds⟩ :=
    run_bindGlobals context.options.globals hentered
  have hprogram : ∀ eval : Evaluator, program eval context (start context.tree diagnostics) =
      (eval.statement 0 context.tree.root >>= fun _ => pure 0 : CheckM FrameId) context begun := by
    intro eval
    change (bindGlobals 0 context.options.globals context entered).bind (fun next =>
      (eval.statement 0 context.tree.root >>= fun _ => pure 0 : CheckM FrameId) context next.2) = _
    rw [hbind]
    rfl
  rw [hprogram, hprogram]
  obtain ⟨hsame, hresult⟩ := ((hbegun.agree hsound hwatch hfirst hsecond).bind
    fun _ _ _ _ => .pure (Q := fun _ _ => True) trivial : Agree context begun
      ((Evaluator.upTo first).statement 0 context.tree.root >>= fun _ => pure 0 : CheckM FrameId)
      ((Evaluator.watchedUpTo watch second).statement 0 context.tree.root >>= fun _ => pure 0)
      (fun _ _ => True)) (hbegun.lawful hholds)
  refine ⟨hsame, ?_⟩
  generalize ((Evaluator.upTo first).statement 0 context.tree.root >>= fun _ => pure 0 :
    CheckM FrameId) context begun = outcome at hresult ⊢
  cases outcome with
  | ok pair => exact ⟨hresult.1, (CheckState.Reports.of_eq hquiet).trans hresult.2.2.1⟩
  | error halt => exact hresult

/-- Whether no function is called twice on the call stack of any frame, and hence no stack has
more calls than the tree has functions. -/
def callsDistinct : Watch := fun context state frame _ =>
  decide (frame < state.frames.frames.size) &&
    (List.range state.frames.frames.size).all fun id =>
      decide ((state.frames.calls id).Nodup ∧
        (state.frames.calls id).length ≤ context.tree.functions.length)

theorem passes_callsDistinct : Evaluator.Passes context callsDistinct := by
  intro state frame node hlawful hframe _ _
  unfold callsDistinct
  rw [Bool.and_eq_true, decide_eq_true_eq, List.all_eq_true]
  refine ⟨hframe, fun id hid => ?_⟩
  have hlt := List.mem_range.mp hid
  exact decide_eq_true ⟨hlawful.frames.distinct id hlt, hlawful.frames.length_calls_le hlt⟩

end Check

/-! ## Programs that the grammar reads -/

/-- Follows a program by given rules. -/
def Tree.runBy (eval : Evaluator) (joinBound : Nat) (tree : Tree) (options : CheckOptions) :
    Except Halt Run := do
  let (graph, diagnostics) :=
    ScopeGraph.build tree options.globals (.empty options.mergeDiagnostics)
  let context : CheckContext := { tree, graph, options, joinBound }
  let (root, state) ← (Check.program eval).run context |>.run (Check.start tree diagnostics)
  return ⟨graph, root, state⟩

theorem Tree.runWithin_eq_runBy (joinBound : Nat) (tree : Tree) (options : CheckOptions) :
    tree.runWithin joinBound options =
      tree.runBy (.upTo (Evaluator.depthFor tree.size)) joinBound options :=
  rfl

/-- The scope graph of a program, and what was found while it was built. -/
def Tree.resolved (tree : Tree) (options : CheckOptions) : ScopeGraph × Diagnostics :=
  ScopeGraph.build tree options.globals (.empty options.mergeDiagnostics)

/-- The context in which a program is followed. -/
def Tree.context (joinBound : Nat) (tree : Tree) (options : CheckOptions) : CheckContext where
  tree := tree
  graph := (ScopeGraph.build tree options.globals (.empty options.mergeDiagnostics)).1
  options := options
  joinBound := joinBound

theorem Tree.WellFormed.sound {tree : Tree} (h : tree.WellFormed) (joinBound : Nat)
    (options : CheckOptions) : (tree.context joinBound options).Sound :=
  ⟨h, ScopeGraph.describes_build h options.globals _⟩

/-- A program of the grammar is followed in the same way by rules of any sufficient depth,
watched or not; at its end all is lawful and all that was found are reports, unless a join
exceeds its bound. -/
theorem Tree.runBy_reports {tree : Tree} (h : tree.WellFormed) (joinBound : Nat)
    (options : CheckOptions) {watch : Watch}
    (hwatch : Evaluator.Passes (tree.context joinBound options) watch) {first second : Nat}
    (hfirst : Evaluator.depthFor tree.size ≤ first)
    (hsecond : Evaluator.depthFor tree.size ≤ second) :
    tree.runBy (.upTo first) joinBound options =
        tree.runBy (.watchedUpTo watch second) joinBound options ∧
      match tree.runBy (.upTo first) joinBound options with
      | .ok run =>
          run.state.Lawful (tree.context joinBound options) ∧
            (Check.start tree (tree.resolved options).2).Reports (tree.context joinBound options)
              run.state
      | .error halt => halt = .joinExceeded := by
  let context := tree.context joinBound options
  let built := tree.resolved options
  have hrun : ∀ eval : Evaluator, tree.runBy eval joinBound options =
      (Check.program eval context (Check.start tree built.2)).map
        fun final => ⟨built.1, final.1, final.2⟩ := by
    intro eval
    change (Check.program eval context (Check.start tree built.2)).bind _ = _
    cases Check.program eval context (Check.start tree built.2) <;> rfl
  obtain ⟨hsame, hresult⟩ := Check.program_agree (h.sound joinBound options) hwatch hfirst hsecond
    built.2
  rw [hrun, hrun]
  refine ⟨congrArg _ hsame, ?_⟩
  change match Check.program (.upTo first) context (Check.start tree built.2) with
    | .ok (_, final) =>
        final.Lawful context ∧ (Check.start tree built.2).Reports context final
    | .error halt => halt = .joinExceeded at hresult
  generalize Check.program (.upTo first) context (Check.start tree built.2) = outcome at hresult ⊢
  cases outcome with
  | ok pair => exact hresult
  | error halt => exact hresult

/-- A program of the grammar is followed in the same way by rules of any sufficient depth,
watched or not; at its end all is lawful, unless a join exceeds its bound. -/
theorem Tree.runBy_agree {tree : Tree} (h : tree.WellFormed) (joinBound : Nat)
    (options : CheckOptions) {watch : Watch}
    (hwatch : Evaluator.Passes (tree.context joinBound options) watch) {first second : Nat}
    (hfirst : Evaluator.depthFor tree.size ≤ first)
    (hsecond : Evaluator.depthFor tree.size ≤ second) :
    tree.runBy (.upTo first) joinBound options =
        tree.runBy (.watchedUpTo watch second) joinBound options ∧
      match tree.runBy (.upTo first) joinBound options with
      | .ok run => run.state.Lawful (tree.context joinBound options)
      | .error halt => halt = .joinExceeded := by
  obtain ⟨hsame, hresult⟩ := Tree.runBy_reports h joinBound options hwatch hfirst hsecond
  refine ⟨hsame, ?_⟩
  generalize tree.runBy (.upTo first) joinBound options = outcome at hresult ⊢
  cases outcome with
  | ok run => exact hresult.1
  | error halt => exact hresult

theorem Tree.wellFormed_of_ofSource {source file : String} {tree : Tree}
    (h : Tree.ofSource source file = .ok tree) : tree.WellFormed := by
  unfold Tree.ofSource at h
  cases htokens : Lexer.tokenize source with
  | error fault =>
      rw [htokens] at h
      cases h
  | ok tokens =>
      rw [htokens] at h
      exact Tree.wellFormed_of_ofTokens h

/-- Following a program that could be read never ends in a fault, whatever the options: it
ends with an answer, or a join of types exceeds the bound it is given. -/
theorem Tree.run_ok_or_joinExceeded {source file : String} {tree : Tree}
    (h : Tree.ofSource source file = .ok tree) (options : CheckOptions) :
    (∀ joinBound, (∃ run, tree.runWithin joinBound options = .ok run) ∨
      tree.runWithin joinBound options = .error .joinExceeded) ∧
    ((∃ diagnostics, tree.check options = .ok diagnostics) ∨
      tree.check options = .error .joinExceeded) ∧
    ∀ fault, checkSource source file options ≠ .error (.fault fault) := by
  have hrun : ∀ joinBound, (∃ run, tree.runWithin joinBound options = .ok run) ∨
      tree.runWithin joinBound options = .error .joinExceeded := by
    intro joinBound
    obtain ⟨-, hresult⟩ := Tree.runBy_agree (Tree.wellFormed_of_ofSource h) joinBound options
      Check.passes_callsDistinct (Nat.le_refl _) (Nat.le_refl _)
    rw [Tree.runWithin_eq_runBy]
    cases houtcome : tree.runBy (.upTo (Evaluator.depthFor tree.size)) joinBound options with
    | ok run => exact .inl ⟨run, rfl⟩
    | error halt =>
        rw [houtcome] at hresult
        exact .inr (congrArg Except.error hresult)
  have hcheck : (∃ diagnostics, tree.check options = .ok diagnostics) ∨
      tree.check options = .error .joinExceeded := by
    unfold Tree.check Tree.run
    rcases hrun defaultJoinBound with ⟨run, hok⟩ | hexceeded
    · rw [hok]
      exact .inl ⟨run.state.diagnostics, rfl⟩
    · rw [hexceeded]
      exact .inr rfl
  refine ⟨hrun, hcheck, fun fault hfault => ?_⟩
  have hsource : checkSource source file options = tree.check options := by
    unfold checkSource
    rw [h]
    rfl
  rw [hsource] at hfault
  rcases hcheck with ⟨diagnostics, hok⟩ | hexceeded
  · rw [hok] at hfault
    cases hfault
  · rw [hexceeded] at hfault
    cases hfault

theorem Tree.exists_ofSource (source file : String) (h : (Tree.ofSource source file).isOk) :
    ∃ tree, Tree.ofSource source file = .ok tree := by
  cases hsource : Tree.ofSource source file with
  | ok tree => exact ⟨tree, rfl⟩
  | error halt =>
      rw [hsource] at h
      cases h

/-- A closure that calls itself through a loop and a condition. -/
def selfApplication : String :=
  "var f = (g) => g(g); for (let h = f; h(f); h = f) if (typeof f === h) throw this; else return f;"

theorem Tree.run_ok_or_joinExceeded_selfApplication :
    ∃ tree, Tree.ofSource selfApplication "" = .ok tree ∧
      (∀ joinBound, (∃ run, tree.runWithin joinBound {} = .ok run) ∨
        tree.runWithin joinBound {} = .error .joinExceeded) ∧
      ((∃ diagnostics, tree.check {} = .ok diagnostics) ∨ tree.check {} = .error .joinExceeded) ∧
      ∀ fault, checkSource selfApplication "" {} ≠ .error (.fault fault) := by
  obtain ⟨tree, htree⟩ := Tree.exists_ofSource selfApplication "" (by decide +kernel)
  exact ⟨tree, htree, Tree.run_ok_or_joinExceeded htree {}⟩

/-- While a program that could be read is followed, no function is called twice on the call
stack of any frame, so that no stack has more calls than there are functions: watching this
at every node changes nothing.  Nor does any larger depth of nesting, and the depth is never
exceeded. -/
theorem Tree.calls_distinct_throughout {tokens : List Token} {file : String} {tree : Tree}
    (h : Tree.ofTokens tokens file = .ok tree) (joinBound : Nat) (options : CheckOptions)
    {depth : Nat} (hdepth : Evaluator.depthFor tree.size ≤ depth) :
    tree.runBy (.watchedUpTo Check.callsDistinct depth) joinBound options =
        tree.runWithin joinBound options ∧
      tree.runBy (.upTo depth) joinBound options = tree.runWithin joinBound options ∧
      tree.runWithin joinBound options ≠ .error .depthExceeded ∧
      ∀ run, tree.runWithin joinBound options = .ok run →
        ∀ id : Nat, id < run.state.frames.frames.size →
          (run.state.frames.calls id).Nodup ∧
            (run.state.frames.calls id).length ≤ tree.functions.length := by
  have hwellFormed := Tree.wellFormed_of_ofTokens h
  have hpasses : Evaluator.Passes (tree.context joinBound options) Check.callsDistinct :=
    Check.passes_callsDistinct
  obtain ⟨hwatched, hresult⟩ := Tree.runBy_agree hwellFormed joinBound options hpasses
    (Nat.le_refl _) hdepth
  obtain ⟨hdeeper, -⟩ := Tree.runBy_agree hwellFormed joinBound options hpasses hdepth hdepth
  rw [Tree.runWithin_eq_runBy]
  refine ⟨hwatched.symm, hdeeper.trans hwatched.symm, fun hexceeded => ?_, fun run hrun => ?_⟩
  · rw [hexceeded] at hresult
    cases hresult
  · rw [hrun] at hresult
    intro id hid
    exact ⟨hresult.frames.distinct id hid, hresult.frames.length_calls_le hid⟩

theorem Tree.calls_distinct_throughout_selfApplication :
    ∃ tokens tree, Tree.ofTokens tokens "" = .ok tree ∧ 0 < tree.functions.length ∧
      tree.runBy (.watchedUpTo Check.callsDistinct (Evaluator.depthFor tree.size + 1)) 8 {} =
          tree.runWithin 8 {} ∧
        tree.runBy (.upTo (Evaluator.depthFor tree.size + 1)) 8 {} = tree.runWithin 8 {} ∧
        tree.runWithin 8 {} ≠ .error .depthExceeded ∧
        ∀ run, tree.runWithin 8 {} = .ok run →
          ∀ id : Nat, id < run.state.frames.frames.size →
            (run.state.frames.calls id).Nodup ∧
              (run.state.frames.calls id).length ≤ tree.functions.length := by
  let tokens := (Lexer.tokenize selfApplication).toOption.getD []
  have hread : ((Tree.ofTokens tokens "").toOption.any
      fun tree => decide (0 < tree.functions.length)) = true := by decide +kernel
  cases htree : Tree.ofTokens tokens "" with
  | error halt =>
      rw [htree] at hread
      cases hread
  | ok tree =>
      rw [htree] at hread
      exact ⟨tokens, tree, htree, of_decide_eq_true hread,
        Tree.calls_distinct_throughout htree 8 {} (Nat.le_succ _)⟩

end ScriptCheck
