import ScriptCheck.Proofs.Scope.Writes

/-!
# Marked nodes

The walk over a tree marks every declarator and every function declaration with a symbol, and
no step takes a mark away.  The symbol is that of the only declaration at the node.
-/

namespace ScriptCheck

/-- The nodes with a value that the walk marks at a node: the declarators of a declaration, and
a function declaration itself. -/
def Tree.marksAt (tree : Tree) (id : NodeId) : List NodeId :=
  match tree.kind id with
  | .declaration _ declarators => declarators.filter fun id => Part.declarator.admits (tree.kind id)
  | .function shape =>
      match shape.kind, shape.name with
      | .declaration, some _ => [id]
      | _, _ => []
  | _ => []

/-- The nodes with a value that the walk over a tree marks, in the order in which they are met. -/
def Tree.marks (tree : Tree) : List NodeId :=
  (tree.preorder tree.root).flatMap tree.marksAt

namespace ScopeGraph

structure Marks (nodes : List NodeId) (graph later : ScopeGraph) : Prop where
  size_eq : later.declarations.size = graph.declarations.size
  kept : ∀ {node}, (graph.declared? node).isSome → (later.declared? node).isSome
  marked : ∀ node ∈ nodes, node < graph.declarations.size → (later.declared? node).isSome

namespace Marks

variable {graph later last : ScopeGraph} {nodes more : List NodeId}

theorem of_same (h : later.declarations = graph.declarations) : Marks [] graph later where
  size_eq := by rw [h]
  kept hmarked := by rwa [declared?, h]
  marked := by simp

theorem refl (graph : ScopeGraph) : Marks [] graph graph := of_same rfl

theorem trans (h : Marks nodes graph later) (hnext : Marks more later last) :
    Marks (nodes ++ more) graph last where
  size_eq := hnext.size_eq.trans h.size_eq
  kept hmarked := hnext.kept (h.kept hmarked)
  marked node hmem hlt := by
    rcases List.mem_append.mp hmem with hmem | hmem
    · exact hnext.kept (h.marked node hmem hlt)
    · exact hnext.marked node hmem (h.size_eq ▸ hlt)

theorem mono (h : Marks nodes graph later) (hsubset : more ⊆ nodes) : Marks more graph later :=
  ⟨h.size_eq, h.kept, fun node hmem => h.marked node (hsubset hmem)⟩

end Marks

end ScopeGraph

namespace ScopeBuilder

open ScopeGraph

variable {tree : Tree} {α β : Type} {nodes more : List NodeId}

/-! ## Single steps -/

/-- Running a step marks some nodes, whatever was done before. -/
def Marking (nodes : List NodeId) (step : Build α) : Prop :=
  ∀ builder : ScopeBuilder, Marks nodes builder.graph (step builder).2.graph

namespace Marking

variable {step : Build α} {f : α → Build β}

theorem of_same (h : ∀ builder, (step builder).2.graph.declarations = builder.graph.declarations) :
    Marking [] step := fun builder => .of_same (h builder)

theorem pure (a : α) : Marking [] (Pure.pure a : Build α) := of_same fun _ => rfl

theorem bind (h : Marking nodes step) (hrest : ∀ a, Marking more (f a)) :
    Marking (nodes ++ more) (step >>= f) :=
  fun builder => (h builder).trans (hrest _ _)

/-- A step that declares nothing may stand in front. -/
theorem quiet (hsame : ∀ builder, (step builder).2.graph.declarations = builder.graph.declarations)
    (hrest : ∀ a, Marking nodes (f a)) : Marking nodes (step >>= f) := (of_same hsame).bind hrest

theorem look {g : ScopeGraph → α} (h : ∀ a, Marking nodes (f a)) :
    Marking nodes (graph? g >>= f) := fun builder => h _ builder

theorem mono (h : Marking nodes step) (hsubset : more ⊆ nodes) : Marking more step :=
  fun builder => (h builder).mono hsubset

theorem forget (h : Marking nodes step) : Marking [] step := h.mono (List.nil_subset _)

theorem forM {f : α → Build Unit} {nodes : α → List NodeId} (heach : ∀ a, Marking (nodes a) (f a))
    (items : List α) : Marking (items.flatMap nodes) (items.forM f) := by
  induction items with
  | nil => exact .pure ()
  | cons item rest ih => exact (heach item).bind fun _ => ih

end Marking

theorem marking_setDeclared (node : NodeId) (symbol : SymbolId) :
    Marking [node] (modifyGraph fun graph =>
      { graph with declarations := graph.declarations.setIfInBounds node (some symbol) }) := by
  intro builder
  let graph := builder.graph
  change Marks [node] graph
    { graph with declarations := graph.declarations.setIfInBounds node (some symbol) }
  have hdeclared : ∀ other, ScopeGraph.declared?
      { graph with declarations := graph.declarations.setIfInBounds node (some symbol) } other =
        if node = other ∧ other < graph.declarations.size then some symbol
        else graph.declared? other := by
    intro other
    simp only [declared?, Array.getD_eq_getD_getElem?, Array.getElem?_setIfInBounds]
    grind
  constructor
  · exact Array.size_setIfInBounds
  · intro other hmarked
    rw [hdeclared]
    split
    · rfl
    · exact hmarked
  · intro other hmem hlt
    rw [hdeclared, if_pos ⟨(List.mem_singleton.mp hmem).symm, hlt⟩]
    rfl

theorem marking_markDeclared (node : NodeId) (kind : SymbolKind) (symbol : SymbolId) :
    Marking (if kind.isDeclaredByNode then [node] else []) (markDeclared node kind symbol) := by
  unfold markDeclared
  split
  · exact marking_setDeclared node symbol
  · exact .pure ()

/-- Declaring a name marks the node, where its sort can be found by node. -/
theorem marking_declare (scope : ScopeId) (node : NodeId) (name : String) (kind : SymbolKind) :
    Marking (if kind.isDeclaredByNode then [node] else []) (declare tree scope node name kind) := by
  have hmarks : ∀ symbol, Marking (if kind.isDeclaredByNode then [node] else [])
      (do markDeclared node kind symbol; return symbol) := fun symbol =>
    ((marking_markDeclared node kind symbol).bind fun _ => .pure symbol).mono (by simp)
  refine .look fun existing => ?_
  cases existing with
  | some existing => exact .quiet (fun _ => rfl) fun _ => hmarks existing
  | none =>
      refine .look fun fresh => ?_
      exact .quiet (fun _ => rfl) fun _ => hmarks fresh

theorem marking_declareNew (scope : ScopeId) (node : NodeId) (name : String) (kind : SymbolKind) :
    Marking [] (declareNew tree scope node name kind) := by
  refine .look fun existing => ?_
  split
  · exact ((marking_declare scope node name kind).bind fun _ => .pure ()).forget
  · exact .pure ()

theorem marking_declareParameter (scope : ScopeId) (parameter : NodeId) :
    Marking [] (declareParameter tree scope parameter) := by
  unfold declareParameter
  split
  · exact ((marking_declare scope parameter _ .parameter).bind fun _ => .pure ()).forget
  · exact .pure ()

theorem marking_recordWrite (symbol : SymbolId) (value : NodeId) :
    Marking [] (recordWrite symbol value) := .of_same fun _ => rfl

/-! ## What a node declares -/

theorem isDeclaredByNode_ofDeclaration (kind : DeclarationKind) :
    (SymbolKind.ofDeclaration kind).isDeclaredByNode := by
  cases kind <;> rfl

theorem marking_declareVariables (scope : ScopeId) (kind : DeclarationKind)
    (declarators : List NodeId) :
    Marking (declarators.filter fun id => Part.declarator.admits (tree.kind id))
      (declareVariables tree scope kind declarators) := by
  have heach : ∀ id ∈ declarators.filter fun id => Part.declarator.admits (tree.kind id),
      id ∈ declarators.flatMap fun id =>
        [id].filter fun id => Part.declarator.admits (tree.kind id) := by
    simp
  refine (Marking.forM (fun declarator => ?_) declarators).mono heach
  cases hnode : tree.kind declarator with
  | declarator name init =>
      refine .look fun hoisting => ?_
      have hstores : ∀ symbol, Marking [] (init.forM (recordWrite symbol)) := fun symbol => by
        cases init with
        | none => exact .pure ()
        | some value => exact marking_recordWrite symbol value
      exact ((marking_declare _ declarator name _).bind hstores).mono
        (by simp [isDeclaredByNode_ofDeclaration])
  | _ => exact (Marking.pure ()).mono (by simp [hnode, Part.admits])

theorem marking_declareAround (id : NodeId) (scope : ScopeId) {shape : FunctionShape}
    (hnode : tree.kind id = .function shape) :
    Marking (tree.marksAt id) (declareAround tree id scope shape) := by
  rw [Tree.marksAt, hnode]
  unfold declareAround
  dsimp only
  cases shape.kind with
  | declaration =>
      cases shape.name with
      | none => exact .pure ()
      | some name =>
          refine .look fun target => ?_
          have hdeclares : Marking _ (declare tree target id name .function) :=
            marking_declare target id name .function
          exact (hdeclares.bind fun symbol => marking_recordWrite symbol id).mono
            (by simp [SymbolKind.isDeclaredByNode])
  | _ => cases shape.name <;> exact .pure ()

theorem marking_declareImplicit (id : NodeId) (scope : ScopeId) (shape : FunctionShape) :
    Marking [] (declareImplicit tree id scope shape) := by
  unfold declareImplicit
  split
  · exact .pure ()
  · exact ((marking_declare scope id "this" .this_).bind fun _ =>
      marking_declareNew scope id "arguments" .arguments).forget

theorem marking_declareOwnName (id : NodeId) (scope : ScopeId) (shape : FunctionShape) :
    Marking [] (declareOwnName tree id scope shape) := by
  unfold declareOwnName
  split
  · exact marking_declareNew scope id _ .function
  · exact .pure ()

theorem marking_declareFunction (id : NodeId) (scope : ScopeId) {shape : FunctionShape}
    (hnode : tree.kind id = .function shape) :
    Marking (tree.marksAt id) (declareFunction tree id scope shape) := by
  have hparameters : Marking [] (shape.parameters.forM (declareParameter tree scope)) :=
    (Marking.forM (marking_declareParameter scope) _).forget
  rw [declareFunction_eq]
  exact ((marking_declareAround id scope hnode).bind fun _ => hparameters.bind fun _ =>
    (marking_declareImplicit id scope shape).bind fun _ =>
      marking_declareOwnName id scope shape).mono (by simp)

theorem marking_enter (id : NodeId) (scope : ScopeId) :
    Marking (tree.marksAt id) (enter tree id scope) := by
  unfold enter
  cases hkind : tree.kind id with
  | declaration sort declarators =>
      rw [Tree.marksAt, hkind]
      exact marking_declareVariables scope sort declarators
  | function shape => exact marking_declareFunction id scope hkind
  | catchClause parameter body =>
      rw [Tree.marksAt, hkind]
      cases parameter with
      | none => exact .pure ()
      | some parameter => exact marking_declareParameter scope parameter
  | assign op target value =>
      rw [Tree.marksAt, hkind]
      dsimp only [noteAssignment]
      cases tree.kind target <;> exact .of_same fun _ => rfl
  | _ =>
      rw [Tree.marksAt, hkind]
      exact .of_same fun _ => rfl

/-! ## The walk over a tree -/

theorem marking_scopeInside (id : NodeId) (around : ScopeId) (kind : NodeKind) :
    Marking [] (scopeInside id around kind) := by
  cases kind <;> exact .of_same fun _ => rfl

theorem Visits.marks {places : List (NodeId × ScopeId)} {builder after : ScopeBuilder}
    (hvisits : Visits tree places builder after) :
    Marks (places.flatMap fun place => tree.marksAt place.1) builder.graph after.graph := by
  induction hvisits with
  | nil builder => exact .refl _
  | @cons id around scope builder opened after rest hlt hinside hbelow ih =>
      have hopens := marking_scopeInside id around (tree.kind id) builder
      rw [hinside] at hopens
      have hplaced : Marks [] opened.graph (withNodeScope opened id scope).graph := .of_same rfl
      have hplaced := hopens.trans hplaced
      exact (hplaced.trans (marking_enter id scope (withNodeScope opened id scope))).trans ih

theorem marks_walked (h : tree.WellFormed) (globals : List String) (diagnostics : Diagnostics) :
    Marks tree.marks (globalOnly tree)
      (walked tree globals diagnostics).graph := by
  have hdeclares : ∀ name, Marking [] (declare tree globalScope tree.root name .global) :=
    fun name => (marking_declare globalScope tree.root name .global).forget
  have hprepares := (Marking.forM (fun name => (hdeclares name).bind fun _ => .pure ())
    globals).forget
    ⟨globalOnly tree, [], diagnostics⟩
  have hvisits := (visits_walked h globals diagnostics).marks
  rw [List.flatMap_map] at hvisits
  exact hprepares.trans hvisits

end ScopeBuilder

/-! ## The nodes that are marked -/

namespace Tree

variable {tree : Tree} {id node : NodeId}

theorem lt_size_of_kind_ne_empty (h : tree.kind id ≠ .empty) : id < tree.size := by
  refine Nat.lt_of_not_le fun houtside => h ?_
  have hnode : tree.node id = default := by
    unfold Tree.size at houtside
    simp [Tree.node, houtside]
  rw [Tree.kind, hnode]
  rfl

theorem admits_declarator_iff {kind : NodeKind} :
    Part.declarator.admits kind ↔ ∃ name init, kind = .declarator name init := by
  cases kind <;> simp [Part.admits]

theorem exists_of_declarator_mem_parts {kind : NodeKind} (h : (node, .declarator) ∈ kind.parts) :
    ∃ sort declarators, kind = .declaration sort declarators ∧ node ∈ declarators := by
  cases kind with
  | declaration sort declarators =>
      simp only [NodeKind.parts, List.mem_map, Prod.mk.injEq, and_true, exists_eq_right] at h
      exact ⟨sort, declarators, rfl, h⟩
  | member owner key => cases key <;> simp [NodeKind.parts] at h
  | function shape => cases hbody : shape.expressionBody <;> simp [NodeKind.parts, hbody] at h
  | _ => simp [NodeKind.parts] at h

theorem mem_marksAt_iff : node ∈ tree.marksAt id ↔
    (∃ sort declarators name init, tree.kind id = .declaration sort declarators ∧
      node ∈ declarators ∧ tree.kind node = .declarator name init) ∨
    ∃ shape name, tree.kind id = .function shape ∧ shape.kind = .declaration ∧
      shape.name = some name ∧ node = id := by
  unfold marksAt
  cases hkind : tree.kind id with
  | declaration sort declarators => simp [admits_declarator_iff]
  | function shape => cases hsort : shape.kind <;> cases hnamed : shape.name <;>
        simp [hsort, hnamed]
  | _ => simp

namespace WellFormed

variable (h : tree.WellFormed)

include h

theorem parent_unique {other : NodeId} (hmem : node ∈ tree.children id)
    (hmem' : node ∈ tree.children other) : id = other := by
  have hsize := size_gt_of_mem_children hmem
  have hlt := h.child_lt hsize hmem
  have hwithin : id < tree.root + 1 := h.size_eq ▸ hsize
  have hle : id ≤ tree.root := Nat.le_of_lt_succ hwithin
  have hnotRoot : node ≠ tree.root := Nat.ne_of_lt (Nat.lt_of_lt_of_le hlt hle)
  obtain ⟨parent, -, hunique⟩ := h.existsUnique_parent (Nat.lt_trans hlt hsize) hnotRoot
  rw [hunique id hmem, hunique other hmem']

theorem exists_declaration {name : String} {init : Option NodeId}
    (hkind : tree.kind node = .declarator name init) :
    ∃ id sort declarators, tree.kind id = .declaration sort declarators ∧ node ∈ declarators := by
  have hlt : node < tree.size := lt_size_of_kind_ne_empty (by simp [hkind])
  have hnotRoot : node ≠ tree.root := by
    rintro rfl
    obtain ⟨body, hprogram⟩ := h.program
    simp [hprogram] at hkind
  obtain ⟨id, hcount, -⟩ := h.existsUnique_parent hlt hnotRoot
  have hchild : node ∈ tree.children id := List.count_pos_iff.mp (by omega)
  have hinside := size_gt_of_mem_children hchild
  rw [children, ← NodeKind.map_fst_parts] at hchild
  obtain ⟨⟨part, sort⟩, hmem, rfl⟩ := List.mem_map.mp hchild
  have hsuits := h.part_suits hinside hmem
  rw [hkind] at hsuits
  cases sort with
  | declarator => exact ⟨id, exists_of_declarator_mem_parts hmem⟩
  | _ => simp [Part.admits, NodeKind.isExpression, NodeKind.isStatement] at hsuits

theorem mem_marks_iff : node ∈ tree.marks ↔
    (∃ name init, tree.kind node = .declarator name init) ∨
    ∃ shape name, tree.kind node = .function shape ∧ shape.kind = .declaration ∧
      shape.name = some name := by
  unfold marks
  rw [List.mem_flatMap]
  constructor
  · rintro ⟨id, -, hmem⟩
    rcases mem_marksAt_iff.mp hmem with
      ⟨-, -, name, init, -, -, hkind⟩ | ⟨shape, name, hkind, hsort, hnamed, rfl⟩
    · exact .inl ⟨name, init, hkind⟩
    · exact .inr ⟨shape, name, hkind, hsort, hnamed⟩
  · rintro (⟨name, init, hkind⟩ | ⟨shape, name, hkind, hsort, hnamed⟩)
    · obtain ⟨id, sort, declarators, houter, hmem⟩ := h.exists_declaration hkind
      refine ⟨id, h.mem_preorder_root.mpr (lt_size_of_kind_ne_empty (by simp [houter])),
        mem_marksAt_iff.mpr (.inl ⟨sort, declarators, name, init, houter, hmem, hkind⟩)⟩
    · exact ⟨node, h.mem_preorder_root.mpr (lt_size_of_kind_ne_empty (by simp [hkind])),
        mem_marksAt_iff.mpr (.inr ⟨shape, name, hkind, hsort, hnamed, rfl⟩)⟩

theorem lt_size_of_mem_marks (hmem : node ∈ tree.marks) : node < tree.size := by
  rcases h.mem_marks_iff.mp hmem with ⟨name, init, hkind⟩ | ⟨shape, name, hkind, -⟩ <;>
    exact lt_size_of_kind_ne_empty (by simp [hkind])

theorem nodup_marksAt (id : NodeId) : (tree.marksAt id).Nodup := by
  have hchildren := h.nodup_children id
  unfold marksAt
  cases hkind : tree.kind id with
  | declaration sort declarators =>
      rw [Tree.children, hkind] at hchildren
      exact hchildren.filter _
  | function shape =>
      dsimp only
      split <;> simp
  | _ => exact List.nodup_nil

theorem nodup_marks : tree.marks.Nodup := by
  refine List.nodup_flatMap.mpr ⟨fun id _ => h.nodup_marksAt id, ?_⟩
  refine h.nodup_preorder_root.imp fun {id other} hne node hmem hmem' => hne ?_
  have hchild : ∀ {id sort declarators}, tree.kind id = .declaration sort declarators →
      node ∈ declarators → node ∈ tree.children id := fun hkind hmem => by
    simpa [children, hkind, NodeKind.children] using hmem
  rcases mem_marksAt_iff.mp hmem with ⟨_, _, _, _, houter, hinner, hkind⟩ |
    ⟨_, _, hkind, -, -, rfl⟩ <;>
  rcases mem_marksAt_iff.mp hmem' with ⟨_, _, _, _, houter', hinner', hkind'⟩ |
    ⟨_, _, hkind', -, -, rfl⟩
  · exact h.parent_unique (hchild houter hinner) (hchild houter' hinner')
  · simp [hkind'] at hkind
  · simp [hkind'] at hkind
  · rfl

end WellFormed

end Tree

namespace ScopeGraph

open ScopeBuilder

variable {tree : Tree}

theorem declared?_isSome_of_mem_marks (h : tree.WellFormed) (globals : List String)
    (diagnostics : Diagnostics) {node : NodeId} (hmem : node ∈ tree.marks) :
    ((ScopeGraph.build tree globals diagnostics).1.declared? node).isSome := by
  have hlt := h.lt_size_of_mem_marks hmem
  have hsize : (globalOnly tree).declarations.size = tree.size := Array.size_replicate
  have hmarked := (marks_walked h globals diagnostics).marked node hmem (hsize ▸ hlt)
  rw [build_eq]
  dsimp only
  rwa [declared?, declarations_resolve]

end ScopeGraph

end ScriptCheck
