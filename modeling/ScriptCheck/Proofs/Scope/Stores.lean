import Mathlib.Data.List.Perm.Basic
import ScriptCheck.Proofs.Scope.Marking
import ScriptCheck.Proofs.Scope.Reference

/-!
# The places that store values

A declarator stores its initialiser under the symbol that it declares, a function declaration
itself, and an assignment to a name what is assigned.  The writes of a symbol are what these
places store, one entry for each.
-/

namespace ScriptCheck

namespace ScopeGraph

/-! ## What a place stores -/

def declaredValue? (graph : ScopeGraph) (tree : Tree) (symbol : SymbolId) (place : NodeId) :
    Option NodeId :=
  match tree.kind place with
  | .declarator _ init => if graph.declared? place = some symbol then init else none
  | .function shape =>
      if shape.kind = .declaration ∧ graph.declared? place = some symbol then some place else none
  | _ => none

/-- What an assignment stores under the symbol of its target: the value itself, or the whole
assignment when it computes with the old value. -/
def assignedValue? (graph : ScopeGraph) (tree : Tree) (symbol : SymbolId) (place : NodeId) :
    Option NodeId :=
  match tree.kind place with
  | .assign op target value =>
      match tree.kind target with
      | .identifier _ =>
          if graph.resolved? target = some symbol ∧ (graph.symbol symbol).mutable then
            some (if op.binary?.isSome then place else value)
          else none
      | _ => none
  | _ => none

def storedValue? (graph : ScopeGraph) (tree : Tree) (symbol : SymbolId) (place : NodeId) :
    Option NodeId :=
  graph.declaredValue? tree symbol place <|> graph.assignedValue? tree symbol place

variable {graph : ScopeGraph} {tree : Tree} {symbol : SymbolId} {place node : NodeId}

theorem toList_storedValue? (graph : ScopeGraph) (tree : Tree) (symbol : SymbolId)
    (place : NodeId) :
    (graph.declaredValue? tree symbol place).toList ++
        (graph.assignedValue? tree symbol place).toList =
      (graph.storedValue? tree symbol place).toList := by
  unfold storedValue? declaredValue? assignedValue?
  cases hkind : tree.kind place <;> simp

/-- A place stores itself or a part of it. -/
theorem eq_or_mem_children_of_storedValue? (h : graph.storedValue? tree symbol place = some node) :
    place = node ∨ node ∈ tree.children place := by
  unfold storedValue? declaredValue? assignedValue? at h
  unfold Tree.children
  cases hkind : tree.kind place with
  | declarator name init =>
      simp only [hkind, Option.orElse_eq_orElse, Option.orElse_eq_or, Option.or_none] at h
      split at h
      · exact .inr (by simp [NodeKind.children, h])
      · cases h
  | function shape =>
      simp only [hkind, Option.orElse_eq_orElse, Option.orElse_eq_or, Option.or_none] at h
      split at h
      · exact .inl (Option.some.inj h)
      · cases h
  | assign op target value =>
      simp only [hkind, Option.orElse_eq_orElse, Option.orElse_eq_or, Option.none_or] at h
      split at h
      · split at h
        · cases h
          split
          · exact .inl rfl
          · exact .inr (by simp [NodeKind.children])
        · cases h
      · cases h
  | _ => simp [hkind] at h

/-! ## Declarations -/

def comesWith? (graph : ScopeGraph) (tree : Tree) (symbol : SymbolId) (declaration : Declaration) :
    Option NodeId :=
  if graph.symbolOf? declaration = some symbol then declaration.initialiser? tree else none

theorem initialisers_eq_filterMap (graph : ScopeGraph) (tree : Tree) (declared : List Declaration)
    (symbol : SymbolId) :
    graph.initialisers tree declared symbol =
      declared.filterMap (graph.comesWith? tree symbol) := by
  rw [initialisers, declarationsOf, List.filterMap_filter]
  simp only [decide_eq_true_eq]
  rfl

theorem comesWith?_eq_none {graph : ScopeGraph} {tree : Tree} {declaration : Declaration}
    (h : declaration.initialiser? tree = none) (symbol : SymbolId) :
    graph.comesWith? tree symbol declaration = none := by
  rw [comesWith?, h, ite_self]

/-- The declarations that a value comes with: those of variables and of functions by name. -/
inductive DeclaresValue (graph : ScopeGraph) (tree : Tree) : Declaration → Prop
  | declarator {id node : NodeId} {sort : DeclarationKind} {declarators : List NodeId}
        {name : String}
      {init : Option NodeId} (outer : tree.kind id = .declaration sort declarators)
      (inner : node ∈ declarators) (kind : tree.kind node = .declarator name init) :
      DeclaresValue graph tree
        ⟨if sort = .var_ then (graph.scope (graph.scopeOf id)).hoisting else graph.scopeOf id, name,
          node, .ofDeclaration sort⟩
  | function {id : NodeId} {shape : FunctionShape} {name : String}
      (kind : tree.kind id = .function shape) (sort : shape.kind = .declaration)
      (named : shape.name = some name) :
      DeclaresValue graph tree
        ⟨(graph.scope ((graph.scope (graph.scopeOf id)).parent.getD (graph.scopeOf id))).hoisting,
          name, id, .function⟩

namespace DeclaresValue

variable {declaration other : Declaration} {globals : List String}

theorem unique (hwell : tree.WellFormed) (h : graph.DeclaresValue tree declaration)
    (h' : graph.DeclaresValue tree other) (hsame : declaration.node = other.node) :
    declaration = other := by
  cases h with
  | declarator houter hinner hkind =>
      cases h' with
      | declarator houter' hinner' hkind' =>
          cases hsame
          have hmem : ∀ {id sort declarators}, tree.kind id = .declaration sort declarators →
              ∀ node ∈ declarators, node ∈ tree.children id := fun hkind node hmem => by
            simpa [Tree.children, hkind, NodeKind.children] using hmem
          cases hwell.parent_unique (hmem houter _ hinner) (hmem houter' _ hinner')
          cases houter.symm.trans houter'
          cases hkind.symm.trans hkind'
          rfl
      | function hkind' =>
          cases hsame
          cases hkind.symm.trans hkind'
  | function hkind hsort hnamed =>
      cases h' with
      | declarator houter' hinner' hkind' =>
          cases hsame
          cases hkind.symm.trans hkind'
      | function hkind' hsort' hnamed' =>
          cases hsame
          cases hkind.symm.trans hkind'
          cases hnamed.symm.trans hnamed'
          rfl

/-- What declares a symbol at a declarator or a function declaration is such a declaration:
others that can be found by node have nodes of other kinds. -/
theorem of_mem (hmem : declaration ∈ tree.declarations graph globals)
    (hbyNode : declaration.kind.isDeclaredByNode)
    (hsorts : (∃ name init, tree.kind declaration.node = .declarator name init) ∨
      ∃ shape, tree.kind declaration.node = .function shape ∧ shape.kind = .declaration) :
    graph.DeclaresValue tree declaration := by
  obtain ⟨id, -, hdeclared⟩ := exists_declaredAt hmem hbyNode
  cases hdeclared with
  | declarator houter hinner hkind => exact .declarator houter hinner hkind
  | parameter hinner hkind => simp [hkind] at hsorts
  | function hkind hsort hnamed => exact .function hkind hsort hnamed
  | ownName hkind hsort hnamed => simp [hkind, hsort] at hsorts

theorem sorts (h : graph.DeclaresValue tree declaration) :
    (∃ name init, tree.kind declaration.node = .declarator name init) ∨
      ∃ shape, tree.kind declaration.node = .function shape ∧ shape.kind = .declaration := by
  cases h with
  | declarator houter hinner hkind => exact .inl ⟨_, _, hkind⟩
  | function hkind hsort hnamed => exact .inr ⟨_, hkind, hsort⟩

theorem mem_marks (hwell : tree.WellFormed) (h : graph.DeclaresValue tree declaration) :
    declaration.node ∈ tree.marks := by
  cases h with
  | declarator houter hinner hkind => exact hwell.mem_marks_iff.mpr (.inl ⟨_, _, hkind⟩)
  | function hkind hsort hnamed => exact hwell.mem_marks_iff.mpr (.inr ⟨_, _, hkind, hsort, hnamed⟩)

theorem declared?_eq (hwell : tree.WellFormed) (globals : List String) (diagnostics : Diagnostics) :
    let graph := (ScopeGraph.build tree globals diagnostics).1
    graph.DeclaresValue tree declaration →
      graph.declared? declaration.node = graph.symbolOf? declaration := by
  intro graph h
  have hmarked := h.mem_marks hwell
  obtain ⟨found, hdeclared⟩ := Option.isSome_iff_exists.mp
    (declared?_isSome_of_mem_marks hwell globals diagnostics hmarked)
  obtain ⟨other, hmem, hsame, hbyNode, hnames⟩ :=
    exists_declaration_of_declared? hwell globals diagnostics hdeclared
  have hunique := h.unique hwell (of_mem hmem hbyNode (hsame ▸ h.sorts)) hsame.symm
  rw [hdeclared, hunique]
  exact hnames.symm

theorem comesWith?_eq (hwell : tree.WellFormed) (globals : List String) (diagnostics : Diagnostics)
    (symbol : SymbolId) :
    let graph := (ScopeGraph.build tree globals diagnostics).1
    graph.DeclaresValue tree declaration →
      graph.comesWith? tree symbol declaration =
        graph.declaredValue? tree symbol declaration.node := by
  intro graph h
  rw [comesWith?, ← h.declared?_eq hwell]
  cases h with
  | declarator houter hinner hkind => simp [Declaration.initialiser?, declaredValue?, hkind, graph]
  | function hkind hsort hnamed =>
      simp only [Declaration.initialiser?, declaredValue?, hkind, hsort, and_self,
        if_true, true_and]
      rfl

end DeclaresValue

theorem initialiser?_of_mem_parameterDeclarations {scope : ScopeId} {parameter : NodeId}
    {declaration : Declaration} (hmem : declaration ∈ tree.parameterDeclarations scope parameter) :
    declaration.initialiser? tree = none := by
  obtain ⟨name, hkind, rfl⟩ := exists_parameter_of_mem hmem
  simp [Declaration.initialiser?, hkind]

/-- No value comes with what a function declares inside: of its names only that of a
function declaration comes with one. -/
theorem initialiser?_of_mem_inside {id : NodeId} {shape : FunctionShape}
    (hkind : tree.kind id = .function shape) (scope : ScopeId) {declaration : Declaration}
    (hmem : declaration ∈ shape.parameters.flatMap (tree.parameterDeclarations scope) ++
      (shape.implicitDeclarations id scope ++ shape.ownNameDeclarations id scope)) :
    declaration.initialiser? tree = none := by
  simp only [List.mem_append, List.mem_flatMap] at hmem
  rcases hmem with ⟨parameter, -, hmem⟩ | hmem | hmem
  · exact initialiser?_of_mem_parameterDeclarations hmem
  · unfold FunctionShape.implicitDeclarations at hmem
    split at hmem
    · cases hmem
    · rcases List.mem_pair.mp hmem with rfl | rfl <;> simp [Declaration.initialiser?, hkind]
  · unfold FunctionShape.ownNameDeclarations at hmem
    split at hmem
    case h_1 name hsort _ =>
      obtain rfl := List.mem_singleton.mp hmem
      simp [Declaration.initialiser?, hkind, hsort]
    case h_2 => cases hmem

theorem filterMap_declarationsAt (hwell : tree.WellFormed) (globals : List String)
    (diagnostics : Diagnostics) (symbol : SymbolId) (id : NodeId) :
    let graph := (ScopeGraph.build tree globals diagnostics).1
    (tree.declarationsAt graph id (graph.scopeOf id)).filterMap (graph.comesWith? tree symbol) =
      (tree.marksAt id).filterMap (graph.declaredValue? tree symbol) := by
  intro graph
  have hvalue : ∀ {declaration}, graph.DeclaresValue tree declaration →
      graph.comesWith? tree symbol declaration =
        graph.declaredValue? tree symbol declaration.node :=
    DeclaresValue.comesWith?_eq hwell globals diagnostics symbol
  have hparameters : ∀ scope parameter, (tree.parameterDeclarations scope parameter).filterMap
      (graph.comesWith? tree symbol) = [] := fun scope parameter =>
    List.filterMap_eq_nil_iff.mpr fun declaration hmem =>
      comesWith?_eq_none (initialiser?_of_mem_parameterDeclarations hmem) symbol
  unfold Tree.declarationsAt Tree.marksAt
  cases houter : tree.kind id with
  | declaration sort declarators =>
      rw [List.filterMap_flatMap, List.filterMap_filter, List.filterMap_eq_flatMap_toList]
      refine List.flatMap_congr fun node hinner => ?_
      unfold Tree.variableDeclarations
      cases hkind : tree.kind node with
      | declarator name init =>
          have hstored := hvalue (.declarator houter hinner hkind)
          rw [List.filterMap_cons, hstored]
          cases graph.declaredValue? tree symbol node <;> simp [Part.admits]
      | _ => simp [Part.admits]
  | function shape =>
      have hinside := List.filterMap_eq_nil_iff.mpr fun declaration hmem =>
        graph.comesWith?_eq_none (initialiser?_of_mem_inside houter (graph.scopeOf id) hmem) symbol
      dsimp only
      rw [Tree.functionDeclarations, List.filterMap_append, hinside, List.append_nil,
        FunctionShape.aroundDeclarations]
      cases hsort : shape.kind with
      | declaration =>
          cases hnamed : shape.name with
          | none => rfl
          | some name =>
              have hstored := hvalue (.function houter hsort hnamed)
              simp [List.filterMap_cons, hstored]
      | _ => cases shape.name <;> rfl
  | catchClause parameter body =>
      cases parameter with
      | none => rfl
      | some parameter => exact hparameters _ _
  | _ => rfl

theorem mem_marks_of_declaredValue? (hwell : tree.WellFormed) (globals : List String)
    (diagnostics : Diagnostics) (symbol : SymbolId) {place : NodeId} :
    let graph := (ScopeGraph.build tree globals diagnostics).1
    graph.declaredValue? tree symbol place ≠ none → place ∈ tree.marks := by
  intro graph hstores
  unfold declaredValue? at hstores
  split at hstores
  case h_1 name init hkind => exact hwell.mem_marks_iff.mpr (.inl ⟨name, init, hkind⟩)
  case h_2 shape hkind =>
    obtain ⟨hsort, hdeclared⟩ : shape.kind = .declaration ∧ graph.declared? place =
      some symbol := by
      by_contra hno
      exact hstores (if_neg hno)
    obtain ⟨declaration, hmem, rfl, hbyNode, -⟩ :=
      exists_declaration_of_declared? hwell globals diagnostics hdeclared
    exact (DeclaresValue.of_mem hmem hbyNode (.inr ⟨shape, hkind, hsort⟩)).mem_marks hwell
  case h_3 => exact absurd rfl hstores

/-- What comes with the declarations of a symbol is what its declarators and function
declarations store. -/
theorem initialisers_perm (hwell : tree.WellFormed) (globals : List String)
    (diagnostics : Diagnostics) (symbol : SymbolId) :
    let graph := (ScopeGraph.build tree globals diagnostics).1
    (graph.initialisers tree (tree.declarations graph globals) symbol).Perm
      ((List.range tree.size).filterMap (graph.declaredValue? tree symbol)) := by
  intro graph
  have hinside : tree.marks.Perm ((List.range tree.size).filter (· ∈ tree.marks)) := by
    refine (List.perm_ext_iff_of_nodup hwell.nodup_marks (List.nodup_range.filter _)).mpr
      fun place => ?_
    simp only [List.mem_filter, List.mem_range, decide_eq_true_eq]
    exact ⟨fun hmem => ⟨hwell.lt_size_of_mem_marks hmem, hmem⟩, And.right⟩
  have honlyMarked : (List.range tree.size).filterMap (graph.declaredValue? tree symbol) =
      ((List.range tree.size).filter (· ∈ tree.marks)).filterMap
        (graph.declaredValue? tree symbol) := by
    rw [List.filterMap_filter]
    refine List.filterMap_congr fun place _ => ?_
    by_cases hmarked : place ∈ tree.marks
    · simp [hmarked]
    · have hnone : graph.declaredValue? tree symbol place = none := by
        by_contra hstores
        exact hmarked (mem_marks_of_declaredValue? hwell globals diagnostics symbol hstores)
      simp [hnone]
  have hglobalNames : (globals.map tree.globalDeclaration).filterMap
      (graph.comesWith? tree symbol) = [] := by
    obtain ⟨body, hprogram⟩ := hwell.program
    have hnone : ∀ name, (tree.globalDeclaration name).initialiser? tree = none := by
      simp [Declaration.initialiser?, Tree.globalDeclaration, hprogram]
    simp [comesWith?_eq_none (hnone _)]
  rw [initialisers_eq_filterMap, Tree.declarations, List.filterMap_append, hglobalNames,
    List.nil_append, List.filterMap_flatMap, honlyMarked]
  simp only [filterMap_declarationsAt hwell globals diagnostics symbol, graph]
  rw [← List.filterMap_flatMap]
  exact hinside.filterMap _

/-- What references assign to a symbol is what the assignments to it store. -/
theorem filterMap_referencesAt (h : graph.IsGraphOf tree globals) (symbol : SymbolId)
    (id : NodeId) :
    (tree.referencesAt id).filterMap (graph.assigned? symbol) =
      (graph.assignedValue? tree symbol id).toList := by
  unfold Tree.referencesAt assignedValue?
  cases tree.kind id with
  | identifier name => rfl
  | thisExpr => rfl
  | assign op target value =>
      dsimp only
      cases hkind : tree.kind target with
      | identifier name =>
          have hnamed : tree.nameAt target = some name := by simp [Tree.nameAt, hkind]
          have hresolved := h.resolved?_of_nameAt hnamed
          dsimp only
          rw [List.filterMap_cons, assigned?, ← hresolved]
          split <;> simp_all
      | _ => rfl
  | _ => rfl

theorem assigned_perm (hwell : tree.WellFormed) (h : graph.IsGraphOf tree globals)
    (symbol : SymbolId) :
    (tree.references.filterMap (graph.assigned? symbol)).Perm
      ((List.range tree.size).filterMap (graph.assignedValue? tree symbol)) := by
  rw [Tree.references, List.filterMap_flatMap, List.filterMap_eq_flatMap_toList]
  simp only [filterMap_referencesAt h]
  exact hwell.preorder_root_perm.flatMap_right _

/-! ## All that is stored -/

theorem place_unique (hwell : tree.WellFormed) {other : NodeId}
    (h : graph.storedValue? tree symbol place = some node)
    (h' : graph.storedValue? tree symbol other = some node) (hne : place ≠ node)
    (hne' : other ≠ node) : place = other :=
  hwell.parent_unique ((eq_or_mem_children_of_storedValue? h).resolve_left hne)
    ((eq_or_mem_children_of_storedValue? h').resolve_left hne')

/-- A node is stored by itself and by what it is a part of, at most. -/
theorem count_storedValue? (hwell : tree.WellFormed) (graph : ScopeGraph) (symbol : SymbolId)
    (node : NodeId) :
    let stored := (List.range tree.size).filterMap (graph.storedValue? tree symbol)
    node ∈ stored → stored.count node = 1 ∨ stored.count node = 2 ∧
      graph.storedValue? tree symbol node = some node ∧
      ∃ outer, node ∈ tree.children outer ∧ graph.storedValue? tree symbol outer = some node := by
  intro stored hmem
  let places := (List.range tree.size).filter (graph.storedValue? tree symbol · == some node)
  have hnodup : places.Nodup := List.nodup_range.filter _
  have hstores : ∀ place ∈ places, graph.storedValue? tree symbol place = some node :=
    fun place hmem => by simpa using (List.mem_filter.mp hmem).2
  have hcount : stored.count node = places.length := by
    rw [List.count_filterMap, List.countP_eq_length_filter]
  have hrest' : places.erase node = [] ∨ ∃ outer, places.erase node = [outer] := by
    have hrestNodup := hnodup.erase node
    cases hrest : places.erase node with
    | nil => exact .inl rfl
    | cons outer more =>
        cases more with
        | nil => exact .inr ⟨outer, rfl⟩
        | cons other more =>
            have houterMem := hnodup.mem_erase_iff.mp
              (hrest ▸ List.mem_cons_self : outer ∈ places.erase node)
            have hotherMem := hnodup.mem_erase_iff.mp
              (hrest ▸ List.mem_cons_of_mem _ List.mem_cons_self : other ∈ places.erase node)
            have hsame := place_unique hwell (hstores _ houterMem.2)
              (hstores _ hotherMem.2) houterMem.1 hotherMem.1
            rw [hrest, hsame] at hrestNodup
            exact absurd List.mem_cons_self (List.nodup_cons.mp hrestNodup).1
  have hpos : 0 < places.length := hcount ▸ List.count_pos_iff.mpr hmem
  rw [hcount]
  by_cases hself : node ∈ places
  · have hlength := List.length_erase_of_mem hself
    rcases hrest' with hnone | ⟨outer, hone⟩
    · simp only [hnone, List.length_nil] at hlength
      exact .inl (by omega)
    · simp only [hone, List.length_singleton] at hlength
      obtain ⟨hne, houterMem⟩ := hnodup.mem_erase_iff.mp (hone ▸ List.mem_singleton.mpr rfl)
      have hchild := (eq_or_mem_children_of_storedValue? (hstores outer houterMem)).resolve_left hne
      exact .inr ⟨by omega, hstores node hself, outer, hchild, hstores outer houterMem⟩
  · rw [List.erase_of_not_mem hself] at hrest'
    rcases hrest' with hnone | ⟨outer, hone⟩
    · simp [hnone] at hpos
    · exact .inl (by rw [hone]; rfl)

/-- **The writes of a symbol are what is stored under it.**  Every declarator, function
declaration and assignment to a name adds one entry.  So a node is there once, unless it stores
itself and is also what another place stores. -/
theorem writes_perm_storedValues {tokens : List Token} {file : String} {tree : Tree}
    (hparse : Tree.ofTokens tokens file = .ok tree) (globals : List String)
    (diagnostics : Diagnostics) (symbol : SymbolId) :
    let graph := (ScopeGraph.build tree globals diagnostics).1
    let writes := (graph.symbol symbol).writes
    writes.Perm ((List.range tree.size).filterMap (graph.storedValue? tree symbol)) ∧
      ∀ node ∈ writes, writes.count node = 1 ∨ writes.count node = 2 ∧
        graph.storedValue? tree symbol node = some node ∧
        ∃ outer, node ∈ tree.children outer ∧ graph.storedValue? tree symbol outer = some node := by
  intro graph writes
  have hwell := Tree.wellFormed_of_ofTokens hparse
  have hisGraph : graph.IsGraphOf tree globals := isGraphOf_build hwell globals diagnostics
  have hperm : writes.Perm ((List.range tree.size).filterMap (graph.storedValue? tree symbol)) := by
    have hdeclared := initialisers_perm hwell globals diagnostics symbol
    have hassigned := assigned_perm hwell hisGraph symbol
    have hall := writes_build hwell globals diagnostics symbol
    refine (hall ▸ hdeclared.append hassigned).trans ?_
    simp only [List.filterMap_eq_flatMap_toList, ← toList_storedValue?]
    exact List.flatMap_append_perm _ _ _
  refine ⟨hperm, fun node hmem => ?_⟩
  rw [hperm.count_eq]
  exact count_storedValue? hwell graph symbol node (hperm.mem_iff.mp hmem)

/-- What holds of the tree that a text is read to. -/
theorem exists_tree_of_any (source : String) (p : Tree → Bool)
    (h : ((Lexer.tokenize source).toOption.bind fun tokens =>
      (Tree.ofTokens tokens "").toOption).any p = true) :
    ∃ tokens tree, Lexer.tokenize source = .ok tokens ∧ Tree.ofTokens tokens "" = .ok tree ∧
      p tree = true := by
  cases htokens : Lexer.tokenize source with
  | error fault => simp [htokens, Except.toOption] at h
  | ok tokens =>
      cases htree : Tree.ofTokens tokens "" with
      | error halt => simp [htokens, htree, Except.toOption] at h
      | ok tree =>
          exact ⟨tokens, tree, rfl, htree, by simpa [htokens, htree, Except.toOption] using h⟩

/-- A script in which `a` is written before its two declarators and by the value of one, and
what is assigned to the constant `c` is not written. -/
def scatteredWrites : String :=
  "function f() \x7b a = 1; \x7d var a = f, a = a += 2; const c = a; c = a;"

def scatteredNodes : List (String × List NodeId) :=
  [("f", [5]), ("this", []), ("arguments", []), ("a", [6, 10, 1, 10]), ("c", [13])]

theorem writes_perm_storedValues_scatteredWrites :
    ∃ tokens tree, Lexer.tokenize scatteredWrites = .ok tokens ∧
      Tree.ofTokens tokens "" = .ok tree ∧
      let graph := (ScopeGraph.build tree [] (.empty true)).1
      graph.symbols.toList.map (fun symbol => (symbol.name, symbol.writes)) = scatteredNodes ∧
        (graph.symbol 3).writes.Perm
          ((List.range tree.size).filterMap (graph.storedValue? tree 3)) := by
  obtain ⟨tokens, tree, htokens, htree, hwrites⟩ :=
    exists_tree_of_any scatteredWrites (fun tree =>
      let graph := (ScopeGraph.build tree [] (.empty true)).1
      decide (graph.symbols.toList.map (fun symbol => (symbol.name, symbol.writes)) =
        scatteredNodes)) (by decide +kernel)
  exact ⟨tokens, tree, htokens, htree, of_decide_eq_true hwrites,
    (writes_perm_storedValues htree [] (.empty true) 3).1⟩

/-- An assignment that computes with the old value and is itself assigned to its variable. -/
def chainedAssignment : String := "var a; a = a += 1;"

/-- It stores itself, and the assignment around it stores it too: it is written twice. -/
theorem count_writes_chainedAssignment :
    ∃ tokens tree, Lexer.tokenize chainedAssignment = .ok tokens ∧
      Tree.ofTokens tokens "" = .ok tree ∧
      let graph := (ScopeGraph.build tree [] (.empty true)).1
      graph.storedValue? tree 0 5 = some 5 ∧ graph.storedValue? tree 0 6 = some 5 ∧
        (graph.symbol 0).writes.count 5 = 2 := by
  obtain ⟨tokens, tree, htokens, htree, hwrites⟩ :=
    exists_tree_of_any chainedAssignment (fun tree =>
      let graph := (ScopeGraph.build tree [] (.empty true)).1
      decide (graph.storedValue? tree 0 5 = some 5 ∧ graph.storedValue? tree 0 6 = some 5 ∧
        (graph.symbol 0).writes.count 5 = 2)) (by decide +kernel)
  exact ⟨tokens, tree, htokens, htree, of_decide_eq_true hwrites⟩

end ScopeGraph

end ScriptCheck
