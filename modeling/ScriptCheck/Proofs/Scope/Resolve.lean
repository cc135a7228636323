import ScriptCheck.Proofs.Scope.Trail

/-!
# Resolving references

Resolving the references of a script one after the other changes neither scopes nor what was
declared.  So each is resolved as if it were the only one, and what is reported is the list of
what each by itself is reported for.
-/

namespace ScriptCheck

def Tree.nameAt (tree : Tree) (id : NodeId) : Option String :=
  match tree.kind id with
  | .identifier name => some name
  | .thisExpr => some "this"
  | _ => none

namespace Reference

/-- The node through which a reference is made. -/
def node : Reference → NodeId
  | read node _ => node
  | write node _ _ => node

/-- The name that is referred to. -/
def name : Reference → String
  | read _ name => name
  | write _ name _ => name

/-- The nodes that a reference is resolved at; of a written name only the write counts. -/
def marks (written : List NodeId) : Reference → List NodeId
  | read node _ => if written.contains node then [] else [node]
  | write node _ _ => [node]

end Reference

namespace ScopeGraph

def lookupAt? (graph : ScopeGraph) (tree : Tree) (id : NodeId) : Option SymbolId :=
  (tree.nameAt id).bind (graph.lookup? (graph.scopeOf id))

/-- What is wrong with reading a name that is resolved so. -/
def readProblems (node : NodeId) (name : String) : Option SymbolId → List (NodeId × Problem)
  | some _ => []
  | none => if name = "this" then [] else [(node, .unresolvedIdentifier name)]

/-- What is wrong with writing a name that is resolved so. -/
def writeProblems (graph : ScopeGraph) (node : NodeId) (name : String) :
    Option SymbolId → List (NodeId × Problem)
  | some symbol => if (graph.symbol symbol).mutable then [] else [(node, .assignToConstant name)]
  | none => [(node, .assignToUndeclared name)]

def problems (graph : ScopeGraph) (written : List NodeId) : Reference → List (NodeId × Problem)
  | .read node name =>
      if written.contains node then []
      else readProblems node name (graph.lookup? (graph.scopeOf node) name)
  | .write node name _ =>
      graph.writeProblems node name (graph.lookup? (graph.scopeOf node) name)

/-- A later graph differs at most in how nodes refer to symbols and in what is written. -/
structure SameNames (graph later : ScopeGraph) (tree : Tree) : Prop where
  tabled : later.Tabled tree
  scopes : later.scopes = graph.scopes
  nodeScopes : later.nodeScopes = graph.nodeScopes
  entries : later.entries = graph.entries
  isMutable : ∀ symbol, (later.symbol symbol).mutable = (graph.symbol symbol).mutable

namespace SameNames

variable {graph later last : ScopeGraph} {tree : Tree}

theorem refl (h : graph.Tabled tree) : graph.SameNames graph tree :=
    ⟨h, rfl, rfl, rfl, fun _ => rfl⟩

theorem trans (h : graph.SameNames later tree) (hlast : later.SameNames last tree) :
    graph.SameNames last tree :=
  ⟨hlast.tabled, hlast.scopes.trans h.scopes, hlast.nodeScopes.trans h.nodeScopes,
    hlast.entries.trans h.entries, fun symbol =>
      (hlast.isMutable symbol).trans (h.isMutable symbol)⟩

theorem scope_eq (h : graph.SameNames later tree) (scope : ScopeId) :
    later.scope scope = graph.scope scope := by
  simp only [ScopeGraph.scope, h.scopes]

theorem scopeOf_eq (h : graph.SameNames later tree) (id : NodeId) :
    later.scopeOf id = graph.scopeOf id := by
  simp only [scopeOf, h.nodeScopes]

theorem lookup?_eq (h : graph.SameNames later tree) (scope : ScopeId) (name : String) :
    later.lookup? scope name = graph.lookup? scope name := by
  induction scope using Nat.strongRecOn with
  | ind scope ih =>
      rw [lookup?, lookup?, local?, local?, h.scope_eq]
      cases (graph.scope scope).get? name with
      | some symbol => rfl
      | none =>
          dsimp only
          cases (graph.scope scope).parent with
          | none => rfl
          | some parent =>
              dsimp only
              split
              · rename_i hlt
                exact ih parent hlt
              · rfl

theorem lookupAt?_eq (h : graph.SameNames later tree) (id : NodeId) :
    later.lookupAt? tree id = graph.lookupAt? tree id := by
  unfold lookupAt?
  cases tree.nameAt id with
  | none => rfl
  | some name => exact (h.lookup?_eq _ name).trans (by rw [h.scopeOf_eq]; rfl)

end SameNames

end ScopeGraph

namespace ScopeBuilder

open ScopeGraph

variable {tree : Tree}

/-- A reference of a tree: its name is that of its node. -/
structure RefersIn (tree : Tree) (reference : Reference) : Prop where
  node_lt : reference.node < tree.size
  name_eq : tree.nameAt reference.node = some reference.name

/-- After some references are resolved: they refer to what is found from their scopes, nothing
else refers to a symbol, and their problems are reported. -/
structure Resolved (tree : Tree) (start : ScopeBuilder) (marked : List NodeId)
    (found : List (NodeId × Problem)) (builder : ScopeBuilder) : Prop where
  same : start.graph.SameNames builder.graph tree
  size_eq : builder.graph.resolutions.size = tree.size
  resolved : ∀ id, builder.graph.resolved? id =
    if id ∈ marked then start.graph.lookupAt? tree id else none
  diagnostics : builder.diagnostics = (found.map fun problem =>
    Diagnostic.ofProblem (tree.start problem.1).location problem.2 []).foldl Diagnostics.report
      start.diagnostics

namespace Resolved

variable {start builder : ScopeBuilder} {marked : List NodeId} {found : List (NodeId × Problem)}

/-- Reporting a problem of a reference that is resolved to nothing. -/
theorem report (h : Resolved tree start marked found builder) (node : NodeId) (problem : Problem) :
    Resolved tree start marked (found ++ [(node, problem)])
      (ScopeBuilder.report tree node problem builder).2 := by
  refine ⟨h.same, h.size_eq, h.resolved, ?_⟩
  change builder.diagnostics.report _ = _
  rw [h.diagnostics, List.map_append, List.foldl_append]
  rfl

/-- A node that refers to nothing is marked in vain. -/
theorem mark_none (h : Resolved tree start marked found builder) {node : NodeId}
    (hnode : start.graph.lookupAt? tree node = none) :
    Resolved tree start (marked ++ [node]) found builder := by
  refine ⟨h.same, h.size_eq, fun id => ?_, h.diagnostics⟩
  rw [h.resolved]
  by_cases heq : id = node
  · subst heq
    simp [hnode]
  · simp [heq]

theorem mark_some (h : Resolved tree start marked found builder) {node : NodeId}
    (hlt : node < tree.size) {symbol : SymbolId}
    (hnode : start.graph.lookupAt? tree node = some symbol) :
    Resolved tree start (marked ++ [node]) found (markResolved node symbol builder).2 := by
  have hsize : (markResolved node symbol builder).2.graph.resolutions.size =
      builder.graph.resolutions.size := Array.size_setIfInBounds
  refine ⟨h.same.trans ⟨h.same.tabled.of_eq rfl rfl h.same.tabled.isMutable, rfl, rfl, rfl,
    fun _ => rfl⟩, hsize.trans h.size_eq, fun id => ?_, h.diagnostics⟩
  have hresolved := h.resolved id
  change (builder.graph.resolutions.setIfInBounds node (some symbol)).getD id none = _
  unfold resolved? at hresolved
  by_cases heq : id = node
  · subst heq
    have hin : id < builder.graph.resolutions.size := by rw [h.size_eq]; exact hlt
    simp [hin, hnode]
  · have hne : ¬ node = id := fun h => heq h.symm
    simp only [Array.getD_eq_getD_getElem?, Array.getElem?_setIfInBounds, hne, if_false]
    rw [Array.getD_eq_getD_getElem?] at hresolved
    rw [hresolved]
    simp [heq]

theorem write (h : Resolved tree start marked found builder) (symbol : SymbolId) (value : NodeId) :
    Resolved tree start marked found (recordWrite symbol value builder).2 := by
  obtain ⟨hwrites, -⟩ := walks_recordWrite h.same.tabled symbol value
  refine ⟨h.same.trans ⟨hwrites.tabled, rfl, rfl, hwrites.entries, fun other => ?_⟩, h.size_eq,
    h.resolved, h.diagnostics⟩
  change ((builder.graph.symbols.modify symbol _).getD other default).mutable = _
  rw [Array.getD_eq_getD_getElem?, Array.getElem?_modify, ScopeGraph.symbol,
    Array.getD_eq_getD_getElem?]
  split
  · cases builder.graph.symbols[other]? <;> rfl
  · rfl

end Resolved

variable {start builder : ScopeBuilder} {marked : List NodeId} {found : List (NodeId × Problem)}

theorem RefersIn.lookupAt?_eq {reference : Reference} (h : RefersIn tree reference)
    (graph : ScopeGraph) :
    graph.lookupAt? tree reference.node =
      graph.lookup? (graph.scopeOf reference.node) reference.name := by
  rw [lookupAt?, h.name_eq]
  rfl

theorem Resolved.graph?_lookup (h : Resolved tree start marked found builder) (node : NodeId)
    (name : String) :
    graph? (fun graph => graph.lookup? (graph.scopeOf node) name) builder =
      (start.graph.lookup? (start.graph.scopeOf node) name, builder) := by
  rw [← h.same.scopeOf_eq, ← h.same.lookup?_eq]
  rfl

theorem Resolved.read (h : Resolved tree start marked found builder) {node : NodeId}
    {name : String} (href : RefersIn tree (.read node name)) :
    Resolved tree start (marked ++ [node])
      (found ++ readProblems node name (start.graph.lookup? (start.graph.scopeOf node) name))
      (resolveRead tree node name builder).2 := by
  have hnode : start.graph.lookupAt? tree node =
      start.graph.lookup? (start.graph.scopeOf node) name := href.lookupAt?_eq start.graph
  rw [resolveRead, bind_apply, h.graph?_lookup]
  cases hsymbol : start.graph.lookup? (start.graph.scopeOf node) name with
  | some symbol =>
      rw [readProblems, List.append_nil]
      exact h.mark_some href.node_lt (hnode.trans hsymbol)
  | none =>
      have hmarked := h.mark_none (hnode.trans hsymbol)
      rw [readProblems]
      dsimp only
      by_cases hthis : name = "this"
      · rw [if_pos hthis, if_pos hthis, List.append_nil]
        exact hmarked
      · rw [if_neg hthis, if_neg hthis]
        exact hmarked.report node (.unresolvedIdentifier name)

theorem Resolved.writeName (h : Resolved tree start marked found builder) {node : NodeId}
    {name : String} {value : NodeId} (href : RefersIn tree (.write node name value)) :
    Resolved tree start (marked ++ [node]) (found ++
        start.graph.writeProblems node name (start.graph.lookup? (start.graph.scopeOf node) name))
      (resolveWrite tree node name value builder).2 := by
  have hnode : start.graph.lookupAt? tree node =
      start.graph.lookup? (start.graph.scopeOf node) name := href.lookupAt?_eq start.graph
  rw [resolveWrite, bind_apply, h.graph?_lookup]
  cases hsymbol : start.graph.lookup? (start.graph.scopeOf node) name with
  | none => exact (h.mark_none (hnode.trans hsymbol)).report node (.assignToUndeclared name)
  | some symbol =>
      have hmarked : Resolved tree start (marked ++ [node]) found
          (markResolved node symbol builder).2 :=
        h.mark_some href.node_lt (hnode.trans hsymbol)
      change Resolved _ _ _ _ ((if (((markResolved node symbol builder).2.graph).symbol
        symbol).mutable
        then recordWrite symbol value else ScopeBuilder.report tree node (.assignToConstant name) :
          Build Unit) (markResolved node symbol builder).2).2
      rw [hmarked.same.isMutable symbol, writeProblems]
      by_cases hmutable : (start.graph.symbol symbol).mutable
      · rw [if_pos hmutable, if_pos hmutable, List.append_nil]
        exact hmarked.write symbol value
      · rw [if_neg hmutable, if_neg hmutable]
        exact hmarked.report node (.assignToConstant name)

theorem Resolved.resolve {references : List Reference}
    (hrefs : ∀ reference ∈ references, RefersIn tree reference)
    (h : Resolved tree start [] [] start) :
    Resolved tree start (references.flatMap (Reference.marks (targets references)))
      (references.flatMap (start.graph.problems (targets references)))
      (resolve tree references start).2 := by
  unfold ScopeBuilder.resolve
  generalize targets references = written
  have hall : ∀ (builder : ScopeBuilder) (marked : List NodeId) (found : List (NodeId × Problem)),
      Resolved tree start marked found builder →
      Resolved tree start (marked ++ references.flatMap (Reference.marks written))
        (found ++ references.flatMap (start.graph.problems written))
        ((references.forM fun
          | .read node name => if written.contains node then pure () else resolveRead tree node name
          | .write node name value => resolveWrite tree node name value : Build Unit)
                builder).2 := by
    induction references with
    | nil =>
        intro builder marked found h
        rw [List.flatMap_nil, List.flatMap_nil, List.append_nil, List.append_nil]
        exact h
    | cons reference rest ih =>
        intro builder marked found hbuilder
        have href := hrefs reference List.mem_cons_self
        have hrest := ih fun other hmem => hrefs other (List.mem_cons_of_mem _ hmem)
        rw [List.flatMap_cons, List.flatMap_cons, ← List.append_assoc, ← List.append_assoc]
        refine hrest _ _ _ ?_
        cases reference with
        | read node name =>
            change Resolved tree start (marked ++ if written.contains node then [] else [node])
              (found ++ if written.contains node then [] else readProblems node name _)
              ((if written.contains node then pure () else resolveRead tree node name) builder).2
            split
            · rw [List.append_nil, List.append_nil]
              exact hbuilder
            · exact hbuilder.read href
        | write node name value => exact hbuilder.writeName href
  exact hall start [] [] h

end ScopeBuilder

end ScriptCheck
