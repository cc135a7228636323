import ScriptCheck.Proofs.Scope.Resolve

/-!
# The whole scope graph of a tree

What is known of the graph that is built for a tree: its scopes were opened and its names
declared in preorder, of one name in one scope only the first declaration counts, and each
reference is resolved by itself.
-/

namespace ScriptCheck

def Tree.globalDeclaration (tree : Tree) (name : String) : Declaration :=
  ⟨ScopeGraph.globalScope, name, tree.root, .global⟩

/-- Everything that is declared in a tree, in the order in which it is met: the global names
and then what the nodes declare. -/
def Tree.declarations (tree : Tree) (graph : ScopeGraph) (globals : List String) :
    List Declaration :=
  globals.map tree.globalDeclaration ++
    (tree.preorder tree.root).flatMap fun id => tree.declarationsAt graph id (graph.scopeOf id)

/-- Everything that is referred to in a tree, in the order in which it is met. -/
def Tree.references (tree : Tree) : List Reference :=
  (tree.preorder tree.root).flatMap tree.referencesAt

namespace ScopeBuilder

open ScopeGraph

variable {tree : Tree}

theorem tabled_globalOnly (tree : Tree) : (globalOnly tree).Tabled tree := by
  have hscope : ∀ scope : Nat, ((globalOnly tree).scope scope).parent = none ∧
      ((globalOnly tree).scope scope).symbols = [] ∧
      ((globalOnly tree).scope scope).children = [] := by
    intro scope
    cases scope with
    | zero => exact ⟨rfl, rfl, rfl⟩
    | succ scope => exact ⟨rfl, rfl, rfl⟩
  constructor
  case parent_lt =>
    intro scope parent hparent
    rw [(hscope scope).1] at hparent
    cases hparent
  case children_eq =>
    intro scope
    simp [hscope]
  case hoisting_eq =>
    intro scope hlt
    obtain rfl : scope = 0 := Nat.lt_one_iff.mp hlt
    rfl
  case local?_eq_some_iff =>
    intro scope name symbol
    rw [local?, Scope.get?, (hscope scope).2.1]
    simp [Record.get?, entries, globalOnly, ScopeGraph.empty]
  case isMutable =>
    intro symbol hsymbol
    simp [globalOnly, ScopeGraph.empty] at hsymbol

def walked (tree : Tree) (globals : List String) (diagnostics : Diagnostics) : ScopeBuilder :=
  let opened : ScopeBuilder := ⟨globalOnly tree, [], diagnostics⟩
  let declared := (globals.forM (fun name => do
    let _ ← declare tree globalScope tree.root name .global) opened).2
  (visit tree (tree.size + 1) tree.root globalScope declared).2

theorem build_eq (tree : Tree) (globals : List String) (diagnostics : Diagnostics) :
    ScopeGraph.build tree globals diagnostics =
      let walked := walked tree globals diagnostics
      let last := (resolve tree walked.references.reverse walked).2
      (last.graph, last.diagnostics) := rfl

theorem getD_foldl_setIfInBounds {places : List (NodeId × ScopeId)}
    (hnodup : (places.map Prod.fst).Nodup) {scopes : Array ScopeId} {id : Nat} {scope : ScopeId}
    (hmem : (id, scope) ∈ places) (hid : id < scopes.size) :
    (places.foldl (fun scopes place => scopes.setIfInBounds place.1 place.2) scopes).getD id 0 =
      scope := by
  have hothers : ∀ (places : List (NodeId × ScopeId)) (scopes : Array ScopeId),
      id ∉ places.map Prod.fst →
      (places.foldl (fun scopes place => scopes.setIfInBounds place.1 place.2) scopes).getD id 0 =
        scopes.getD id 0 := by
    intro places
    induction places with
    | nil => exact fun _ _ => rfl
    | cons place rest ih =>
        intro scopes hnot
        rw [List.map_cons, List.mem_cons, not_or] at hnot
        rw [List.foldl_cons, ih _ hnot.2]
        have hne : ¬ place.1 = id := fun h => hnot.1 h.symm
        simp [hne]
  induction places generalizing scopes with
  | nil => cases hmem
  | cons place rest ih =>
      obtain ⟨hnot, hrest⟩ := List.nodup_cons.mp (List.map_cons ▸ hnodup)
      rw [List.foldl_cons]
      rcases List.mem_cons.mp hmem with rfl | hmem
      · rw [hothers rest _ hnot]
        simp [hid]
      · exact ih hrest hmem (by rw [Array.size_setIfInBounds]; exact hid)

theorem walks_declareGlobals {builder : ScopeBuilder} (h : builder.graph.Tabled tree)
    (hglobal : 0 < builder.graph.scopes.size) (globals : List String) :
    Walks tree { declared := globals.map tree.globalDeclaration } builder
      (globals.forM fun name => do
      let _ ← declare tree globalScope tree.root name .global) (fun _ _ => True) := by
  have hall : Walks tree { declared := globals.flatMap fun name => [tree.globalDeclaration name] }
      builder (globals.forM fun name => do
        let _ ← declare tree globalScope tree.root name .global) (fun _ _ => True) :=
    .forM h fun name _ next hnext hgrows =>
      (walks_declare hnext (Nat.lt_of_lt_of_le hglobal hgrows.scopes_le) tree.root name
        .global).bind_pure
  rwa [← List.map_eq_flatMap] at hall

def prepared (tree : Tree) (globals : List String) (diagnostics : Diagnostics) : ScopeBuilder :=
  (globals.forM (fun name => do
    let _ ← declare tree globalScope tree.root name .global) ⟨globalOnly tree, [], diagnostics⟩).2

theorem leaves_prepared (tree : Tree) (globals : List String) (diagnostics : Diagnostics) :
    Leaves tree { declared := globals.map tree.globalDeclaration }
      ⟨globalOnly tree, [], diagnostics⟩ (prepared tree globals diagnostics) := by
  let opened : ScopeBuilder := ⟨globalOnly tree, [], diagnostics⟩
  have hopened : opened.graph.Tabled tree := tabled_globalOnly tree
  exact (walks_declareGlobals hopened Nat.zero_lt_one globals).1

/-- The walk over a whole tree goes through all of its nodes in preorder. -/
theorem visits_walked (h : tree.WellFormed) (globals : List String) (diagnostics : Diagnostics) :
    Visits tree ((tree.preorder tree.root).map fun id =>
        (id, (walked tree globals diagnostics).graph.scopeOf id))
      (prepared tree globals diagnostics) (walked tree globals diagnostics) := by
  have hroot : tree.root < tree.size := by
    rw [h.size_eq]
    exact Nat.lt_succ_self _
  have hprepared := leaves_prepared tree globals diagnostics
  obtain ⟨places, hplaces, hvisits⟩ := exists_visits (tree.size + 1) tree.root
    hprepared.tabled (show globalScope < _ from
      Nat.lt_of_lt_of_le Nat.zero_lt_one hprepared.grows.scopes_le)
  change Visits tree places _ (walked tree globals diagnostics) at hvisits
  rw [h.preorderWithin_eq hroot (Nat.lt_succ_of_lt hroot)] at hplaces
  have hvisited := hvisits.leaves hprepared.tabled (.refl _)
  have hscopeOf : ∀ place ∈ places,
      (walked tree globals diagnostics).graph.scopeOf place.1 = place.2 := by
    intro place hplace
    have hmem : place.1 ∈ tree.preorder tree.root := hplaces ▸ List.mem_map_of_mem hplace
    have hnodeScopes : (prepared tree globals diagnostics).graph.nodeScopes.size = tree.size := by
      rw [hprepared.nodeScopes]
      exact Array.size_replicate
    rw [scopeOf, hvisited.nodeScopes]
    refine getD_foldl_setIfInBounds (hplaces ▸ h.nodup_preorder_root) hplace ?_
    rw [hnodeScopes]
    exact h.mem_preorder_root.mp hmem
  have hlist : (tree.preorder tree.root).map
      (fun id => (id, (walked tree globals diagnostics).graph.scopeOf id)) = places := by
    rw [← hplaces, List.map_map]
    refine (List.map_congr_left fun place hplace => ?_).trans (List.map_id places)
    exact Prod.ext rfl (hscopeOf place hplace)
  rw [hlist]
  exact hvisits

theorem leaves_walked (h : tree.WellFormed) (globals : List String) (diagnostics : Diagnostics) :
    let graph := (walked tree globals diagnostics).graph
    Leaves tree ({ declared := globals.map tree.globalDeclaration } ++
        .through tree graph ((tree.preorder tree.root).map fun id => (id, graph.scopeOf id)))
      ⟨globalOnly tree, [], diagnostics⟩ (walked tree globals diagnostics) := by
  have hprepared := leaves_prepared tree globals diagnostics
  exact hprepared.trans ((visits_walked h globals diagnostics).leaves hprepared.tabled (.refl _))

theorem refersIn_of_mem (h : tree.WellFormed) {reference : Reference}
    (hmem : reference ∈ tree.references) : RefersIn tree reference := by
  obtain ⟨id, hid, href⟩ := List.mem_flatMap.mp hmem
  have hlt := h.mem_preorder_root.mp hid
  unfold Tree.referencesAt at href
  split at href
  · rename_i name hkind
    cases List.mem_singleton.mp href
    exact ⟨hlt, by simp [Tree.nameAt, Reference.node, Reference.name, hkind]⟩
  · rename_i hkind
    cases List.mem_singleton.mp href
    exact ⟨hlt, by simp [Tree.nameAt, Reference.node, Reference.name, hkind]⟩
  · rename_i op target value hkind
    split at href
    · rename_i name htarget
      cases List.mem_singleton.mp href
      have hchild : target ∈ tree.children id := by simp [Tree.children, hkind, NodeKind.children]
      exact ⟨Nat.lt_trans (h.child_lt hlt hchild) hlt,
        by simp [Tree.nameAt, Reference.node, Reference.name, htarget]⟩
    · cases href
  · cases href

/-- A node that has a name refers by it: it is read, unless it is written. -/
theorem mem_marks_of_nameAt (h : tree.WellFormed) {id : NodeId} {name : String}
    (hname : tree.nameAt id = some name) :
    id ∈ tree.references.flatMap (Reference.marks (targets tree.references)) := by
  have hid : id < tree.size := by
    refine Nat.lt_of_not_le fun hle => ?_
    have hnode : tree.node id = default := by
      unfold Tree.size at hle
      simp [Tree.node, hle]
    rw [Tree.nameAt, Tree.kind, hnode] at hname
    cases hname
  have hread : Reference.read id name ∈ tree.references := by
    refine List.mem_flatMap.mpr ⟨id, h.mem_preorder_root.mpr hid, ?_⟩
    unfold Tree.nameAt at hname
    unfold Tree.referencesAt
    split at hname
    · rename_i hkind
      cases hname
      simp [hkind]
    · rename_i hkind
      cases hname
      simp [hkind]
    · cases hname
  by_cases hwritten : (targets tree.references).contains id
  · obtain ⟨reference, hmem, hnode⟩ := List.mem_filterMap.mp (List.contains_iff_mem.mp hwritten)
    refine List.mem_flatMap.mpr ⟨reference, hmem, ?_⟩
    cases reference with
    | read => cases hnode
    | write =>
        cases hnode
        exact List.mem_singleton.mpr rfl
  · refine List.mem_flatMap.mpr ⟨_, hread, ?_⟩
    rw [Reference.marks, if_neg hwritten]
    exact List.mem_singleton.mpr rfl

theorem references_walked (h : tree.WellFormed) (globals : List String)
    (diagnostics : Diagnostics) :
    (walked tree globals diagnostics).references.reverse = tree.references := by
  refine (leaves_walked h globals diagnostics).references.trans ?_
  change [] ++ ([] ++ (((tree.preorder tree.root).map fun id =>
    (id, (walked tree globals diagnostics).graph.scopeOf id)).map Prod.fst).flatMap
      tree.referencesAt) = tree.references
  simp [Tree.references, Function.comp_def]

/-- No reference is resolved before the walk is over. -/
theorem resolved_walked (h : tree.WellFormed) (globals : List String) (diagnostics : Diagnostics) :
    let start := walked tree globals diagnostics
    Resolved tree start [] [] start := by
  have hleaves := leaves_walked h globals diagnostics
  refine ⟨.refl hleaves.tabled, ?_, fun id => ?_, rfl⟩
  · rw [hleaves.resolutions]
    exact Array.size_replicate
  · rw [resolved?, hleaves.resolutions]
    change (Array.replicate tree.size none).getD id none = none
    rw [Array.getD_eq_getD_getElem?, Array.getElem?_replicate]
    split <;> rfl

theorem resolved_build (h : tree.WellFormed) (globals : List String) (diagnostics : Diagnostics) :
    let start := walked tree globals diagnostics
    Resolved tree start (tree.references.flatMap (Reference.marks (targets tree.references)))
      (tree.references.flatMap (start.graph.problems (targets tree.references)))
      (resolve tree start.references.reverse start).2 := by
  intro start
  rw [references_walked h]
  exact (resolved_walked h globals diagnostics).resolve fun reference hmem => refersIn_of_mem h hmem

end ScopeBuilder

namespace ScopeGraph

open ScopeBuilder

theorem SameNames.declarations_eq {graph later : ScopeGraph} {tree : Tree}
    (h : graph.SameNames later tree) (globals : List String) :
    tree.declarations later globals = tree.declarations graph globals := by
  unfold Tree.declarations Tree.declarationsAt Tree.variableDeclarations Tree.functionDeclarations
    FunctionShape.aroundDeclarations
  simp only [h.scopeOf_eq, h.scope_eq]

structure IsGraphOf (graph : ScopeGraph) (tree : Tree) (globals : List String) : Prop where
  tabled : graph.Tabled tree
  describes : graph.Describes tree globals
  nodes_eq : graph.scopes.toList.map Scope.node =
    tree.root :: (tree.preorder tree.root).filter fun id => (tree.kind id).opensScope
  entries_eq : graph.entries = (tree.declarations graph globals).foldl Declaration.enter []
  resolved?_eq : ∀ id, graph.resolved? id = graph.lookupAt? tree id

theorem isGraphOf_build {tree : Tree} (h : tree.WellFormed) (globals : List String)
    (diagnostics : Diagnostics) :
    (ScopeGraph.build tree globals diagnostics).1.IsGraphOf tree globals := by
  have hleaves := leaves_walked h globals diagnostics
  have hresolved := resolved_build h globals diagnostics
  have hsame := hresolved.same
  rw [build_eq]
  constructor
  case tabled => exact hsame.tabled
  case describes => exact describes_build h globals diagnostics
  case nodes_eq =>
    dsimp only
    rw [hsame.scopes, hleaves.nodes]
    change [tree.root] ++ ([] ++ (((tree.preorder tree.root).map fun id =>
      (id, (walked tree globals diagnostics).graph.scopeOf id)).map Prod.fst).filter
        fun id => (tree.kind id).opensScope) = _
    rw [List.map_map, List.nil_append, List.singleton_append]
    exact congrArg (fun nodes => tree.root :: nodes.filter fun id => (tree.kind id).opensScope)
      (List.map_id _)
  case entries_eq =>
    dsimp only
    rw [hsame.entries, hleaves.entries, hsame.declarations_eq]
    change (globals.map tree.globalDeclaration ++ ((tree.preorder tree.root).map fun id =>
      (id, (walked tree globals diagnostics).graph.scopeOf id)).flatMap fun place =>
        tree.declarationsAt (walked tree globals diagnostics).graph place.1 place.2).foldl _ [] = _
    rw [List.flatMap_map]
    rfl
  case resolved?_eq =>
    intro id
    dsimp only
    rw [hresolved.resolved, hsame.lookupAt?_eq]
    split
    · rfl
    · rename_i hnot
      cases hname : tree.nameAt id with
      | none => simp [lookupAt?, hname]
      | some name => exact absurd (mem_marks_of_nameAt h hname) hnot

end ScopeGraph

end ScriptCheck
