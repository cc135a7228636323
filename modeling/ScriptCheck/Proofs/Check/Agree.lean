import ScriptCheck.Check.Monad
import ScriptCheck.Proofs.Check.Follow
import ScriptCheck.Proofs.Frame.Access
import ScriptCheck.Proofs.Types.Growth

/-!
# Following a script in two ways at once

Two ways to follow a part of a script agree from a state when they do the same, keep
what is known about types and frames, and end early at most because a join of types
exceeds its bound.  What they report is reported at nodes, in frames of the scopes of these
nodes.  The rules below put such parts together.
-/

namespace ScriptCheck

open ScopeGraph

structure CheckContext.Sound (context : CheckContext) : Prop where
  tree : context.tree.WellFormed
  graph : context.graph.Describes context.tree context.options.globals

/-- What is called is a function of the tree, and was made in a frame of the scope around
it. -/
structure Callable.Lawful (context : CheckContext) (frames : FrameStore) (callable : Callable) :
    Prop where
  node_lt : callable.function < context.tree.size
  function : (context.tree.function? callable.function).isSome
  origin : ∀ origin : Nat, callable.origin = some origin → origin < frames.frames.size ∧
    (context.graph.scope (context.graph.scopeOf callable.function)).parent =
      some (frames.frame origin).scope

/-- Frames and types of a program that is followed. -/
structure CheckState.Lawful (context : CheckContext) (state : CheckState) : Prop where
  frames : state.frames.Lawful context.tree context.graph context.options.globals
  callable : ∀ id callable, (state.types.shape id).callable = some callable →
    callable.Lawful context state.frames

theorem Callable.Lawful.of_extends {context : CheckContext} {frames later : FrameStore}
    {callable : Callable} (h : callable.Lawful context frames) (hextends : frames.Extends later) :
    callable.Lawful context later := by
  refine ⟨h.node_lt, h.function, fun origin horigin => ?_⟩
  obtain ⟨hlt, hscope⟩ := h.origin origin horigin
  rw [hextends.scope hlt]
  exact ⟨Nat.lt_of_lt_of_le hlt hextends.size_le, hscope⟩

structure CheckContext.Meets (context : CheckContext) (frames : FrameStore) (frame node : Nat) :
    Prop where
  frame_lt : frame < frames.frames.size
  node_lt : node < context.tree.size
  opens : (context.tree.kind node).opensScope = false
  scope : (frames.frame frame).scope = context.graph.scopeOf node

theorem CheckContext.Meets.later {context : CheckContext} {frames after : FrameStore}
    {frame node : Nat} (h : context.Meets frames frame node) (hextends : frames.Extends after) :
    context.Meets after frame node where
  frame_lt := Nat.lt_of_lt_of_le h.frame_lt hextends.size_le
  node_lt := h.node_lt
  opens := h.opens
  scope := by rw [hextends.scope h.frame_lt, h.scope]

/-- A diagnostic reports a problem at a node, with the calls that led to a frame of the scope of
the node.  Only a `return` outside every call is unexpected. -/
def Diagnostic.IsReport (context : CheckContext) (found : Diagnostic) : Prop :=
  ∃ frames frame node problem,
    frames.Lawful context.tree context.graph context.options.globals ∧
      context.Meets frames frame node ∧
      found = .ofProblem (context.tree.start node).location problem
        (frames.trace context.tree frame node) ∧
      (problem = .unexpectedReturn →
        (∃ argument, context.tree.kind node = .returnStmt argument) ∧
          (frames.lexicalChain frame).find? (fun id => (frames.frame id).isCall) = none)

def CheckState.Reports (context : CheckContext) (state next : CheckState) : Prop :=
  ∃ found : List Diagnostic, next.diagnostics = found.foldl Diagnostics.report state.diagnostics ∧
    ∀ diagnostic ∈ found, diagnostic.IsReport context

namespace CheckState.Reports

variable {context : CheckContext} {state next last : CheckState}

theorem of_eq (h : next.diagnostics = state.diagnostics) : state.Reports context next :=
  ⟨[], h, fun _ hmem => by cases hmem⟩

theorem trans (h : state.Reports context next) (hlast : next.Reports context last) :
    state.Reports context last := by
  obtain ⟨found, hfound, hreports⟩ := h
  obtain ⟨more, hmore, hothers⟩ := hlast
  refine ⟨found ++ more, ?_, fun diagnostic hmem => ?_⟩
  · rw [hmore, hfound, List.foldl_append]
  · exact (List.mem_append.mp hmem).elim (hreports diagnostic) (hothers diagnostic)

end CheckState.Reports

namespace CheckM

/-- Two computations do the same from a lawful state, and lead to a lawful state with more
frames and reports in which `Q` holds, unless a join exceeds its bound. -/
def Agree {α : Type} (context : CheckContext) (state : CheckState) (first second : CheckM α)
    (Q : α → CheckState → Prop) : Prop :=
  state.Lawful context → first context state = second context state ∧
    match first context state with
    | .ok (result, next) =>
        next.Lawful context ∧ state.frames.Extends next.frames ∧ state.Reports context next ∧
          Q result next
    | .error halt => halt = .joinExceeded

variable {α β : Type} {context : CheckContext} {state : CheckState}

namespace Agree

variable {first second : CheckM α} {f g : α → CheckM β} {Q Q' : α → CheckState → Prop}
  {R : β → CheckState → Prop}

theorem pure {result : α} (h : Q result state) :
    Agree context state (Pure.pure result) (Pure.pure result) Q :=
  fun hlawful => ⟨rfl, hlawful, .refl _, .of_eq rfl, h⟩

theorem bind (h : Agree context state first second Q)
    (hrest : ∀ result next, state.frames.Extends next.frames → Q result next →
      Agree context next (f result) (g result) R) :
    Agree context state (first >>= f) (second >>= g) R := by
  intro hlawful
  obtain ⟨hsame, hresult⟩ := h hlawful
  rw [bind_apply, bind_apply, ← hsame]
  cases hrun : first context state with
  | error halt =>
      rw [hrun] at hresult
      exact ⟨rfl, hresult⟩
  | ok pair =>
      obtain ⟨result, next⟩ := pair
      rw [hrun] at hresult
      obtain ⟨hnext, hextends, hreports, hQ⟩ := hresult
      obtain ⟨hsameRest, hlast⟩ := hrest result next hextends hQ hnext
      refine ⟨hsameRest, ?_⟩
      change match f result context next with
        | .ok (result, last) =>
            last.Lawful context ∧ state.frames.Extends last.frames ∧ state.Reports context last ∧
              R result last
        | .error halt => halt = .joinExceeded
      split at hlast
      · exact ⟨hlast.1, hextends.trans hlast.2.1, hreports.trans hlast.2.2.1, hlast.2.2.2⟩
      · exact hlast

/-- What is known about the state may be used. -/
theorem of_lawful (h : state.Lawful context → Agree context state first second Q) :
    Agree context state first second Q :=
  fun hlawful => h hlawful hlawful

theorem ite {c : Prop} [Decidable c] {first' second' : CheckM α}
    (h : c → Agree context state first second Q)
    (h' : ¬ c → Agree context state first' second' Q) :
    Agree context state (if c then first else first') (if c then second else second') Q := by
  split
  · exact h ‹_›
  · exact h' ‹_›

theorem tree_bind {f g : Tree → CheckM β}
    (h : Agree context state (f context.tree) (g context.tree) R) :
    Agree context state (tree >>= f) (tree >>= g) R :=
  h

theorem graph_bind {f g : ScopeGraph → CheckM β}
    (h : Agree context state (f context.graph) (g context.graph) R) :
    Agree context state (graph >>= f) (graph >>= g) R :=
  h

theorem read_bind {f g : CheckContext → CheckM β}
    (h : Agree context state (f context) (g context) R) :
    Agree context state (read >>= f) (read >>= g) R :=
  h

/-- One step for each item, as long as each can be made from every later state. -/
theorem forM {items : List α} {f g : α → CheckM Unit}
    (h : ∀ item ∈ items, ∀ next, state.frames.Extends next.frames →
      Agree context next (f item) (g item) (fun _ _ => True)) :
    Agree context state (items.forM f) (items.forM g) (fun _ _ => True) := by
  induction items generalizing state with
  | nil => exact .pure trivial
  | cons item rest ih =>
      refine (h item List.mem_cons_self state (.refl _)).bind fun _ next hnext _ => ?_
      exact ih fun a ha after hafter =>
        h a (List.mem_cons_of_mem item ha) after (hnext.trans hafter)

theorem mapM {items : List α} {f g : α → CheckM β}
    (h : ∀ item ∈ items, ∀ next, state.frames.Extends next.frames →
      Agree context next (f item) (g item) (fun _ _ => True)) :
    Agree context state (items.mapM f) (items.mapM g) (fun _ _ => True) := by
  induction items generalizing state with
  | nil =>
      rw [List.mapM_nil, List.mapM_nil]
      exact .pure trivial
  | cons item rest ih =>
      rw [List.mapM_cons, List.mapM_cons]
      refine (h item List.mem_cons_self state (.refl _)).bind fun _ next hnext _ => ?_
      refine bind (ih fun a ha after hafter =>
        h a (List.mem_cons_of_mem item ha) after (hnext.trans hafter)) fun _ _ _ _ => ?_
      exact .pure trivial

theorem foldlM {items : List α} {f g : β → α → CheckM β} {start : β}
    (h : ∀ b, ∀ item ∈ items, ∀ next, state.frames.Extends next.frames →
      Agree context next (f b item) (g b item) (fun _ _ => True)) :
    Agree context state (items.foldlM f start) (items.foldlM g start) (fun _ _ => True) := by
  induction items generalizing state start with
  | nil => exact .pure trivial
  | cons item rest ih =>
      rw [List.foldlM_cons, List.foldlM_cons]
      refine (h start item List.mem_cons_self state (.refl _)).bind fun _ next hnext _ => ?_
      exact ih fun b a ha after hafter =>
        h b a (List.mem_cons_of_mem item ha) after (hnext.trans hafter)

end Agree

/-! ## Types -/

theorem lawful_of_grows {types : TypeStore} {made : Callable → Prop}
    (hgrows : state.types.Grows made types)
    (hmade : ∀ callable, made callable → callable.Lawful context state.frames)
    (h : state.Lawful context) : ({ state with types } : CheckState).Lawful context := by
  refine ⟨h.frames, fun id callable hcallable => ?_⟩
  rcases hgrows.callable hcallable with hnew | ⟨old, hold⟩
  · exact hmade callable hnew
  · exact h.callable old callable hold

/-- A computation on types that makes no functions but lawful ones. -/
theorem agree_types {made : Callable → Prop} {computation : TypeM α} {Q : α → Prop}
    (hgrows : computation.GrowsFrom made state.types)
    (hmade : ∀ callable, made callable → callable.Lawful context state.frames)
    (hQ : state.Lawful context → Q (computation state.types).1) :
    Agree context state (types computation) (types computation) (fun result _ => Q result) :=
  fun hlawful => ⟨rfl, lawful_of_grows hgrows hmade hlawful, .refl _, .of_eq rfl, hQ hlawful⟩

theorem agree_types_of_grows {computation : TypeM α}
    (hgrows : computation.GrowsFrom (fun _ => False) state.types) :
    Agree context state (types computation) (types computation) (fun _ _ => True) :=
  agree_types hgrows (fun _ hfalse => hfalse.elim) fun _ => trivial

theorem agree_joins {computation : Nat → JoinM α}
    (hgrows : ∀ bound, (computation bound).GrowsFrom (fun _ => False) state.types) :
    Agree context state (joins computation) (joins computation) (fun _ _ => True) := by
  intro hlawful
  refine ⟨rfl, ?_⟩
  cases hresult : computation context.joinBound state.types with
  | none =>
      rw [joins_eq_error hresult]
  | some pair =>
      have hnext := hgrows context.joinBound pair.1 pair.2 hresult
      rw [joins_eq_ok hresult]
      exact ⟨lawful_of_grows hnext (fun _ hfalse => hfalse.elim) hlawful, .refl _, .of_eq rfl,
        trivial⟩

/-! ## Frames, folding and reports -/

theorem agree_frames {computation : FrameM α} {Q : α → FrameStore → Prop}
    (h : state.frames.Lawful context.tree context.graph context.options.globals →
      FrameM.Succeeds context.tree context.graph context.options.globals state.frames
        computation Q) :
    Agree context state (frames computation) (frames computation)
      (fun result next => Q result next.frames) := by
  intro hlawful
  refine ⟨rfl, ?_⟩
  obtain ⟨result, next, hrun, hextends, hnext, hQ⟩ := h hlawful.frames
  rw [frames_of_run hrun]
  refine ⟨⟨hnext, fun id callable hcallable => ?_⟩, hextends, .of_eq rfl, hQ⟩
  exact (hlawful.callable id callable hcallable).of_extends hextends

theorem agree_tryFold (node : NodeId) :
    Agree context state (tryFold node) (tryFold node) (fun _ _ => True) :=
  fun hlawful => ⟨rfl, ⟨hlawful.frames, hlawful.callable⟩, .refl _, .of_eq rfl, trivial⟩

theorem agree_report {frame node : Nat} (hmeets : context.Meets state.frames frame node)
    {problem : Problem} (hproblem : problem = .unexpectedReturn →
      (∃ argument, context.tree.kind node = .returnStmt argument) ∧
        (state.frames.lexicalChain frame).find? (fun id => (state.frames.frame id).isCall) = none) :
    Agree context state (report frame node problem) (report frame node problem)
      (fun _ _ => True) := by
  intro hlawful
  refine ⟨rfl, ⟨hlawful.frames, hlawful.callable⟩, .refl _, ⟨[_], rfl, fun found hfound => ?_⟩,
    trivial⟩
  cases List.mem_singleton.mp hfound
  exact ⟨state.frames, frame, node, problem, hlawful.frames, hmeets, rfl, hproblem⟩

end CheckM

end ScriptCheck
