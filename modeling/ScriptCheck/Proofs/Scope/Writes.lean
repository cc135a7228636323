import ScriptCheck.Proofs.Scope.Structure

/-!
# What is stored under names

Each declaration of a name adds the value that comes with it to the writes of the symbol,
also one that declares the name again.  Assignments add to the writes of the symbols that
may be assigned to.  So the writes of a constant are the values of its declarations.
-/

namespace ScriptCheck

/-- The value that comes with a declaration: that of a variable, or the function itself. -/
def Declaration.initialiser? (tree : Tree) (declaration : Declaration) : Option NodeId :=
  match tree.kind declaration.node with
  | .declarator _ init => init
  | .function shape =>
      if shape.kind = .declaration ∧ declaration.kind = .function then some declaration.node
      else none
  | _ => none

namespace ScopeGraph

/-- The symbol that a declaration makes or belongs to. -/
def symbolOf? (graph : ScopeGraph) (declaration : Declaration) : Option SymbolId :=
  graph.local? declaration.scope declaration.name

def declarationsOf (graph : ScopeGraph) (declared : List Declaration) (symbol : SymbolId) :
    List Declaration :=
  declared.filter fun declaration => graph.symbolOf? declaration = some symbol

/-- The values that come with the declarations of a symbol. -/
def initialisers (graph : ScopeGraph) (tree : Tree) (declared : List Declaration)
    (symbol : SymbolId) : List NodeId :=
  (graph.declarationsOf declared symbol).filterMap (Declaration.initialiser? tree)

/-- What a reference stores under a symbol: a write does that is resolved to the symbol, if the
symbol may be assigned to. -/
def assigned? (graph : ScopeGraph) (symbol : SymbolId) : Reference → Option NodeId
  | .read _ _ => none
  | .write node name value =>
      if graph.lookup? (graph.scopeOf node) name = some symbol ∧ (graph.symbol symbol).mutable then
        some value
      else none

/-- Between two graphs some names were declared: the values that come with them were stored,
and the nodes marked that declare them. -/
structure Fills (tree : Tree) (declared : List Declaration) (graph later : ScopeGraph) :
    Prop where
  names : ∀ {scope name symbol}, graph.local? scope name = some symbol →
    later.local? scope name = some symbol
  named : ∀ declaration ∈ declared, (later.symbolOf? declaration).isSome
  writes : ∀ symbol, (later.symbol symbol).writes =
    (graph.symbol symbol).writes ++ later.initialisers tree declared symbol
  marks : ∀ {node symbol}, later.declared? node = some symbol →
    graph.declared? node = some symbol ∨ ∃ declaration ∈ declared, declaration.node = node ∧
      declaration.kind.isDeclaredByNode ∧ later.symbolOf? declaration = some symbol

namespace Fills

variable {tree : Tree} {graph later last : ScopeGraph} {declared more : List Declaration}

theorem of_same (hnames : ∀ scope name, later.local? scope name = graph.local? scope name)
    (hsymbols : later.symbols = graph.symbols)
    (hdeclarations : later.declarations = graph.declarations) : Fills tree [] graph later where
  names held := (hnames _ _).trans held
  named := by simp
  writes symbol := by simp [ScopeGraph.symbol, hsymbols, initialisers, declarationsOf]
  marks hmarked := .inl (by simpa [declared?, hdeclarations] using hmarked)

theorem refl (graph : ScopeGraph) : Fills tree [] graph graph :=
  of_same (fun _ _ => rfl) rfl rfl

theorem symbolOf?_eq (h : Fills tree declared graph later) (hnext : Fills tree more later last)
    {declaration : Declaration} (hmem : declaration ∈ declared) :
    last.symbolOf? declaration = later.symbolOf? declaration := by
  obtain ⟨symbol, hfound⟩ := Option.isSome_iff_exists.mp (h.named declaration hmem)
  rw [hfound]
  exact hnext.names hfound

theorem trans (h : Fills tree declared graph later) (hnext : Fills tree more later last) :
    Fills tree (declared ++ more) graph last where
  names held := hnext.names (h.names held)
  named declaration hmem := by
    rcases List.mem_append.mp hmem with hmem | hmem
    · rw [h.symbolOf?_eq hnext hmem]
      exact h.named declaration hmem
    · exact hnext.named declaration hmem
  writes symbol := by
    have hsame : last.initialisers tree declared symbol = later.initialisers tree declared symbol :=
      congrArg (List.filterMap _) (List.filter_congr fun declaration hmem => by
        rw [h.symbolOf?_eq hnext hmem])
    have hboth : last.initialisers tree (declared ++ more) symbol =
        last.initialisers tree declared symbol ++ last.initialisers tree more symbol := by
      simp [initialisers, declarationsOf]
    rw [hnext.writes, h.writes, hboth, hsame, List.append_assoc]
  marks hmarked := by
    rcases hnext.marks hmarked with hearlier | ⟨declaration, hmem, hfound⟩
    · rcases h.marks hearlier with hfirst | ⟨declaration, hmem, hnode, hkind, hfound⟩
      · exact .inl hfirst
      · exact .inr ⟨declaration, List.mem_append_left _ hmem, hnode, hkind,
          (h.symbolOf?_eq hnext hmem).trans hfound⟩
    · exact .inr ⟨declaration, List.mem_append_right _ hmem, hfound⟩

end Fills

end ScopeGraph

namespace ScopeBuilder

open ScopeGraph

variable {tree : Tree}

/-! ## Single steps -/

def withMark (graph : ScopeGraph) (node : NodeId) (kind : SymbolKind) (symbol : SymbolId) :
    ScopeGraph :=
  if kind.isDeclaredByNode then
    { graph with declarations := graph.declarations.setIfInBounds node (some symbol) }
  else graph

@[simp] theorem local?_withMark (graph : ScopeGraph) (node : NodeId) (kind : SymbolKind)
    (symbol : SymbolId) (scope : ScopeId) (name : String) :
    (withMark graph node kind symbol).local? scope name = graph.local? scope name := by
  unfold withMark
  split <;> rfl

@[simp] theorem symbols_withMark (graph : ScopeGraph) (node : NodeId) (kind : SymbolKind)
    (symbol : SymbolId) : (withMark graph node kind symbol).symbols = graph.symbols := by
  unfold withMark
  split <;> rfl

theorem declared?_withMark {graph : ScopeGraph} {node other : NodeId} {kind : SymbolKind}
    {symbol found : SymbolId}
    (hmarked : (withMark graph node kind symbol).declared? other = some found) :
    graph.declared? other = some found ∨ node = other ∧ kind.isDeclaredByNode ∧ symbol = found := by
  unfold withMark at hmarked
  split at hmarked
  case isFalse => exact .inl hmarked
  case isTrue hbyNode =>
    simp only [declared?, Array.getD_eq_getD_getElem?, Array.getElem?_setIfInBounds] at hmarked
    split at hmarked
    case isFalse => exact .inl (by simpa [declared?] using hmarked)
    case isTrue hsame =>
      split at hmarked
      · exact .inr ⟨hsame, hbyNode, by simpa using hmarked⟩
      · simp at hmarked

theorem local?_of_new {graph : ScopeGraph} {symbol : Symbol}
    (hlt : symbol.scope < graph.scopes.size)
    (hnew : graph.local? symbol.scope symbol.name = none) {scope : ScopeId} {name : String}
    {found : SymbolId} (held : graph.local? scope name = some found) :
    (withSymbol graph symbol.scope symbol).local? scope name = some found := by
  rw [local?_withSymbol_eq hlt, if_neg, held]
  intro hsame
  cases hsame
  simp [Symbol.declaration, hnew] at held

/-- A new symbol that nothing is stored under yet. -/
theorem fills_withSymbol {graph : ScopeGraph} {symbol : Symbol}
    (hlt : symbol.scope < graph.scopes.size)
    (hnew : graph.local? symbol.scope symbol.name = none) (hunwritten : symbol.writes = []) :
    Fills tree [] graph (withSymbol graph symbol.scope symbol) where
  names := local?_of_new hlt hnew
  named := by simp
  writes other := by
    simp only [ScopeGraph.symbol, withSymbol, Array.getD_eq_getD_getElem?, Array.getElem?_push]
    by_cases hsame : other = graph.symbols.size
    · simp [hsame, hunwritten, initialisers, declarationsOf]
      rfl
    · simp [hsame, initialisers, declarationsOf]
  marks := .inl

theorem declare_graph {builder : ScopeBuilder} (h : builder.graph.Tabled tree) {scope : Nat}
    (hlt : scope < builder.graph.scopes.size) (node : NodeId) (name : String)
    (kind : SymbolKind) :
    ∃ base : ScopeGraph, Fills tree [] builder.graph base ∧
      base.local? scope name = some (declare tree scope node name kind builder).1 ∧
      (declare tree scope node name kind builder).1 < base.symbols.size ∧
      (declare tree scope node name kind builder).2.graph =
        withMark base node kind (declare tree scope node name kind builder).1 := by
  have hlook : graph? (·.local? scope name) builder =
      (builder.graph.local? scope name, builder) := rfl
  rw [declare, bind_apply, hlook]
  cases hfound : builder.graph.local? scope name with
  | some existing =>
      obtain ⟨declaration, hentry, -⟩ := (h.local?_eq_some_iff _ _ _).mp hfound
      have hbound : existing < builder.graph.symbols.size := by
        simpa [entries] using (List.getElem?_eq_some_iff.mp hentry).1
      refine ⟨builder.graph, .refl _, hfound, hbound, ?_⟩
      dsimp only [bind_apply, markDeclared, withMark]
      split <;> rfl
  | none =>
      let symbol : Symbol := ⟨name, node, scope, kind, kind.isMutable, []⟩
      have hlocals := @local?_withSymbol_eq builder.graph symbol hlt scope name
      have hfilled : Fills tree [] builder.graph (withSymbol builder.graph symbol.scope symbol) :=
        fills_withSymbol hlt hfound rfl
      refine ⟨withSymbol builder.graph scope symbol, hfilled, hlocals.trans (if_pos rfl), ?_, ?_⟩
      · change builder.graph.symbols.size < _
        simp [withSymbol]
      · dsimp only [bind_apply, markDeclared, withMark]
        split <;> rfl

theorem writes_recordWrite {builder : ScopeBuilder} {symbol : SymbolId}
    (hlt : symbol < builder.graph.symbols.size) (value : NodeId) (other : SymbolId) :
    ((recordWrite symbol value builder).2.graph.symbol other).writes =
      (builder.graph.symbol other).writes ++ if symbol = other then [value] else [] := by
  change ((builder.graph.symbols.modify symbol _).getD other default).writes = _
  by_cases hsame : symbol = other
  · subst hsame
    simp [ScopeGraph.symbol, hlt, Array.getElem_modify]
  · simp [ScopeGraph.symbol, Array.getElem?_modify, hsame]

/-- Storing a value under a symbol, if there is one to store, changes nothing else. -/
theorem storeValue_graph {builder : ScopeBuilder} {symbol : SymbolId}
    (hlt : symbol < builder.graph.symbols.size) (value : Option NodeId) :
    let next := (value.forM (recordWrite symbol) builder).2.graph
    next.local? = builder.graph.local? ∧ next.declared? = builder.graph.declared? ∧
      ∀ other, (next.symbol other).writes =
        (builder.graph.symbol other).writes ++ if symbol = other then value.toList else [] := by
  cases value with
  | none =>
      refine ⟨rfl, rfl, fun other => ?_⟩
      rw [Option.toList_none, ite_self, List.append_nil]
      rfl
  | some value => exact ⟨rfl, rfl, writes_recordWrite hlt value⟩

/-- Running a step declares some names and stores the values that come with them. -/
def Stores (tree : Tree) (declared : List Declaration) (builder : ScopeBuilder) {α : Type}
    (step : Build α) : Prop :=
  Fills tree declared builder.graph (step builder).2.graph

theorem Stores.bind {declared more : List Declaration} {builder : ScopeBuilder} {α β : Type}
    {step : Build α} {f : α → Build β} (h : Stores tree declared builder step)
    (hrest : Stores tree more (step builder).2 (f (step builder).1)) :
    Stores tree (declared ++ more) builder (step >>= f) :=
  Fills.trans h hrest

theorem Stores.look {declared : List Declaration} {builder : ScopeBuilder} {α β : Type}
    {f : ScopeGraph → α} {next : α → Build β}
    (h : Stores tree declared builder (next (f builder.graph))) :
    Stores tree declared builder (graph? f >>= next) := h

theorem stores_declare {builder : ScopeBuilder} (h : builder.graph.Tabled tree) {scope : Nat}
    (hlt : scope < builder.graph.scopes.size) {node : NodeId} {name : String} {kind : SymbolKind}
    {value : Option NodeId}
    (hcomes : Declaration.initialiser? tree ⟨scope, name, node, kind⟩ = value) :
    Stores tree [⟨scope, name, node, kind⟩] builder
      (declare tree scope node name kind >>= fun symbol => value.forM (recordWrite symbol)) := by
  obtain ⟨base, hfilled, hfound, hbound, hgraph⟩ := declare_graph h hlt node name kind
  rw [Stores, bind_apply]
  generalize declare tree scope node name kind builder = declared at hfound hbound hgraph ⊢
  obtain ⟨symbol, next⟩ := declared
  dsimp only at hfound hbound hgraph ⊢
  obtain ⟨hlocals, hmarks, hstored⟩ :=
    @storeValue_graph next symbol (by rwa [hgraph, symbols_withMark]) value
  generalize (value.forM (recordWrite symbol) next).2.graph = last at hlocals hmarks hstored ⊢
  have held : ∀ scope name, last.local? scope name = base.local? scope name := by
    simp [hlocals, hgraph]
  have hsame : ∀ other, (next.graph.symbol other).writes = (base.symbol other).writes := by
    simp [hgraph, ScopeGraph.symbol]
  suffices hstored : Fills tree [⟨scope, name, node, kind⟩] base last from hfilled.trans hstored
  constructor
  · intro scope name found hbefore
    rw [held, hbefore]
  · simp [symbolOf?, held, hfound]
  · intro other
    rw [hstored, hsame]
    by_cases hown : symbol = other
    · cases value <;> simp [initialisers, declarationsOf, symbolOf?, held, hfound, hown, hcomes]
    · simp [initialisers, declarationsOf, symbolOf?, held, hfound, hown]
  · intro other declared hmarked
    rw [hmarks, hgraph] at hmarked
    rcases declared?_withMark hmarked with hbefore | ⟨hnode, hbyNode, rfl⟩
    · exact .inl hbefore
    · exact .inr ⟨_, List.mem_singleton.mpr rfl, hnode, hbyNode, (held _ _).trans hfound⟩

/-! ## What a node declares -/

variable {builder : ScopeBuilder} {scope : Nat}

theorem stores_declareBare (h : builder.graph.Tabled tree) (hlt : scope < builder.graph.scopes.size)
    {node : NodeId} {name : String} {kind : SymbolKind}
    (hcomes : Declaration.initialiser? tree ⟨scope, name, node, kind⟩ = none) :
    Stores tree [⟨scope, name, node, kind⟩] builder (declare tree scope node name kind) :=
  stores_declare h hlt hcomes

theorem stores_declareNew (h : builder.graph.Tabled tree) (hlt : scope < builder.graph.scopes.size)
    {node : NodeId} {name : String} {kind : SymbolKind}
    (hcomes : Declaration.initialiser? tree ⟨scope, name, node, kind⟩ = none) :
    Stores tree [⟨scope, name, node, kind⟩] builder (declareNew tree scope node name kind) := by
  have hlook : graph? (·.local? scope name) builder =
      (builder.graph.local? scope name, builder) := rfl
  rw [Stores, declareNew, bind_apply, hlook]
  cases hfound : builder.graph.local? scope name with
  | some existing =>
      change Fills tree _ builder.graph builder.graph
      constructor
      · exact fun held => held
      · simp [symbolOf?, hfound]
      · intro symbol
        simp [initialisers, declarationsOf, List.filter_cons, hcomes, apply_ite]
      · exact .inl
  | none => exact stores_declare h hlt hcomes

theorem stores_declareParameter (h : builder.graph.Tabled tree)
    (hlt : scope < builder.graph.scopes.size) (parameter : NodeId) :
    Stores tree (tree.parameterDeclarations scope parameter) builder
      (declareParameter tree scope parameter) := by
  unfold declareParameter Tree.parameterDeclarations
  cases hkind : tree.kind parameter with
  | parameter name =>
      have hcomes : Declaration.initialiser? tree ⟨scope, name, parameter, .parameter⟩ = none := by
        simp [Declaration.initialiser?, hkind]
      exact stores_declare h hlt hcomes
  | _ => exact .refl _

theorem stores_forM {α : Type} {items : List α} {f : α → Build Unit}
    {declared : α → List Declaration} (h : builder.graph.Tabled tree)
    (heach : ∀ a ∈ items, ∀ next : ScopeBuilder, next.graph.Tabled tree →
      builder.graph.Extends next.graph →
      Walks tree { declared := declared a } next (f a) (fun _ _ => True) ∧
        Stores tree (declared a) next (f a)) :
    Stores tree (items.flatMap declared) builder (items.forM f) := by
  induction items generalizing builder with
  | nil => exact .refl _
  | cons item rest ih =>
      obtain ⟨hwalks, hfills⟩ := heach item List.mem_cons_self builder h (.refl _)
      exact hfills.trans (ih hwalks.1.tabled fun a hmem next htabled hgrows =>
        heach a (List.mem_cons_of_mem item hmem) next htabled (hwalks.1.grows.trans hgrows))

theorem stores_declareParameters (h : builder.graph.Tabled tree)
    (hlt : scope < builder.graph.scopes.size) (parameters : List NodeId) :
    Leaves tree { declared := parameters.flatMap (tree.parameterDeclarations scope) } builder
        (parameters.forM (declareParameter tree scope) builder).2 ∧
      Stores tree (parameters.flatMap (tree.parameterDeclarations scope)) builder
        (parameters.forM (declareParameter tree scope)) := by
  have heach : ∀ parameter ∈ parameters, ∀ next : ScopeBuilder, next.graph.Tabled tree →
      builder.graph.Extends next.graph →
      Walks tree { declared := tree.parameterDeclarations scope parameter } next
          (declareParameter tree scope parameter) (fun _ _ => True) ∧
        Stores tree (tree.parameterDeclarations scope parameter) next
          (declareParameter tree scope parameter) := by
    intro parameter _ next htabled hgrows
    have hlater := Nat.lt_of_lt_of_le hlt hgrows.scopes_le
    exact ⟨walks_declareParameter htabled hlater parameter,
      stores_declareParameter htabled hlater parameter⟩
  obtain ⟨hwalked, -⟩ := Walks.forM h fun parameter hmem next htabled hgrows =>
    (heach parameter hmem next htabled hgrows).1
  exact ⟨hwalked, stores_forM h heach⟩

theorem stores_declareVariables (h : builder.graph.Tabled tree)
    (hlt : scope < builder.graph.scopes.size) (kind : DeclarationKind) (declarators : List NodeId) :
    Stores tree (declarators.flatMap (tree.variableDeclarations builder.graph scope kind))
      builder (declareVariables tree scope kind declarators) := by
  refine stores_forM h fun declarator _ next htabled hgrows => ?_
  have hlater := Nat.lt_of_lt_of_le hlt hgrows.scopes_le
  have hsame : tree.variableDeclarations builder.graph scope kind declarator =
      tree.variableDeclarations next.graph scope kind declarator := by
    simp only [Tree.variableDeclarations, hgrows.hoisting hlt]
  rw [hsame]
  refine ⟨?_, ?_⟩
  · simpa [declareVariables] using walks_declareVariables htabled hlater kind [declarator]
  · unfold Tree.variableDeclarations
    cases hnode : tree.kind declarator with
    | declarator name init =>
        let target := if kind = .var_ then (next.graph.scope scope).hoisting else scope
        have hwithin : target < next.graph.scopes.size := by
          dsimp only [target]
          split
          · exact Nat.lt_of_le_of_lt (htabled.hoisting_le hlater) hlater
          · exact hlater
        have hcomes : Declaration.initialiser? tree
            ⟨target, name, declarator, .ofDeclaration kind⟩ = init := by
          simp [Declaration.initialiser?, hnode]
        exact .look (stores_declare htabled hwithin hcomes)
    | _ => exact .refl _

theorem stores_declareAround (h : builder.graph.Tabled tree)
    (hlt : scope < builder.graph.scopes.size) {id : NodeId} {shape : FunctionShape}
    (hkind : tree.kind id = .function shape) :
    Stores tree (shape.aroundDeclarations builder.graph id scope) builder
      (declareAround tree id scope shape) := by
  unfold declareAround FunctionShape.aroundDeclarations
  cases hsort : shape.kind with
  | declaration =>
      cases shape.name with
      | none => exact .refl _
      | some name =>
          let around := (builder.graph.scope scope).parent.getD scope
          have hwithin : around < builder.graph.scopes.size := h.around_lt hlt
          have hoisting := Nat.lt_of_le_of_lt (h.hoisting_le hwithin) hwithin
          have hcomes : Declaration.initialiser? tree
              ⟨(builder.graph.scope around).hoisting, name, id, .function⟩ = some id := by
            simp [Declaration.initialiser?, hkind, hsort]
          exact .look (stores_declare h hoisting hcomes)
  | _ => cases shape.name <;> exact .refl _

theorem stores_declareImplicit (h : builder.graph.Tabled tree)
    (hlt : scope < builder.graph.scopes.size) {id : NodeId} {shape : FunctionShape}
    (hkind : tree.kind id = .function shape) :
    Stores tree (shape.implicitDeclarations id scope) builder
      (declareImplicit tree id scope shape) := by
  unfold declareImplicit FunctionShape.implicitDeclarations
  cases shape.isArrow with
  | true => exact .refl _
  | false =>
      have hcomes : ∀ name, ∀ sort ∈ [SymbolKind.this_, .arguments],
          Declaration.initialiser? tree ⟨scope, name, id, sort⟩ = none := by
        simp [Declaration.initialiser?, hkind]
      obtain ⟨hfirst, -⟩ := walks_declare h hlt id "this" .this_
      have hselfStored := stores_declareBare h hlt (hcomes "this" .this_ (by simp))
      have hlater := Nat.lt_of_lt_of_le hlt hfirst.grows.scopes_le
      exact hselfStored.bind
        (stores_declareNew hfirst.tabled hlater (hcomes "arguments" .arguments (by simp)))

theorem stores_declareOwnName (h : builder.graph.Tabled tree)
    (hlt : scope < builder.graph.scopes.size) {id : NodeId} {shape : FunctionShape}
    (hkind : tree.kind id = .function shape) :
    Stores tree (shape.ownNameDeclarations id scope) builder
      (declareOwnName tree id scope shape) := by
  unfold declareOwnName FunctionShape.ownNameDeclarations
  cases hsort : shape.kind with
  | expression =>
      cases shape.name with
      | none => exact .refl _
      | some name =>
          have hcomes : Declaration.initialiser? tree ⟨scope, name, id, .function⟩ = none := by
            simp [Declaration.initialiser?, hkind, hsort]
          exact stores_declareNew h hlt hcomes
  | _ => cases shape.name <;> exact .refl _

theorem stores_declareFunction (h : builder.graph.Tabled tree)
    (hlt : scope < builder.graph.scopes.size) {id : NodeId} {shape : FunctionShape}
    (hkind : tree.kind id = .function shape) :
    Stores tree (tree.functionDeclarations builder.graph id scope shape) builder
      (declareFunction tree id scope shape) := by
  rw [declareFunction_eq, Tree.functionDeclarations]
  obtain ⟨houtside, -⟩ := walks_declareAround h hlt id shape
  have hlater := Nat.lt_of_lt_of_le hlt houtside.grows.scopes_le
  obtain ⟨hwalked, hstored⟩ := stores_declareParameters houtside.tabled hlater shape.parameters
  have hlast := Nat.lt_of_lt_of_le hlater hwalked.grows.scopes_le
  obtain ⟨himplicit, -⟩ := walks_declareImplicit hwalked.tabled hlast id shape
  have hown := stores_declareOwnName himplicit.tabled
    (Nat.lt_of_lt_of_le hlast himplicit.grows.scopes_le) hkind
  exact (stores_declareAround h hlt hkind).bind
    (hstored.bind ((stores_declareImplicit hwalked.tabled hlast hkind).bind hown))

theorem stores_enter (h : builder.graph.Tabled tree) (hlt : scope < builder.graph.scopes.size)
    (id : NodeId) :
    Stores tree (tree.declarationsAt builder.graph id scope) builder (enter tree id scope) := by
  unfold enter Tree.declarationsAt
  cases hkind : tree.kind id with
  | declaration sort declarators => exact stores_declareVariables h hlt sort declarators
  | function shape => exact stores_declareFunction h hlt hkind
  | catchClause parameter body =>
      cases parameter with
      | none => exact .refl _
      | some parameter => exact stores_declareParameter h hlt parameter
  | assign op target value =>
      change Stores tree [] builder (noteAssignment tree id op target value)
      unfold noteAssignment
      cases tree.kind target <;> exact .refl _
  | _ => exact .refl _

/-! ## The walk over a tree -/

theorem local?_withScope {graph : ScopeGraph} {parent : ScopeId} {scope : Scope}
    (hempty : scope.symbols = []) (other : ScopeId) (name : String) :
    (withScope graph parent scope).local? other name = graph.local? other name := by
  simp only [local?, Scope.get?, (scope_withScope graph parent scope other).2.2.1]
  split
  case isTrue hsame =>
    subst hsame
    simp [hempty, ScopeGraph.scope]
    rfl
  case isFalse => rfl

theorem stores_scopeInside (builder : ScopeBuilder) (id around : Nat) (kind : NodeKind) :
    Stores tree [] builder (scopeInside id around kind) := by
  cases kind with
  | program _ | function _ | block _ | tryStmt _ _ _ | catchClause _ _ | forStmt _ _ _ _ =>
      exact .of_same (local?_withScope rfl) rfl rfl
  | _ => exact .refl _

theorem Visits.fills {places : List (NodeId × ScopeId)} {builder after : ScopeBuilder}
    (hvisits : Visits tree places builder after) (h : builder.graph.Tabled tree)
    {last : ScopeGraph} (hgrows : after.graph.Extends last) :
    Fills tree (places.flatMap fun place => tree.declarationsAt last place.1 place.2)
      builder.graph after.graph := by
  induction hvisits with
  | nil builder => exact .refl _
  | @cons id around scope builder opened after rest hlt hinside hbelow ih =>
      obtain ⟨hopens, hscopeLt⟩ := walks_scopeInside h id hlt
      rw [hinside] at hopens hscopeLt
      have hplaced := leaves_withNodeScope hopens.tabled id scope
      have hentering := (walks_enter hplaced.tabled id hscopeLt).1
      have hlater := (Visits.leaves hbelow hentering.tabled hgrows).grows.trans hgrows
      have hsame := declarationsAt_eq hplaced.tabled (hentering.grows.trans hlater) hscopeLt id
      have hopening : Fills tree [] builder.graph opened.graph := by
        have hstores : Stores tree [] builder (scopeInside id around (tree.kind id)) :=
          stores_scopeInside builder id around (tree.kind id)
        rwa [Stores, hinside] at hstores
      have hplacing : Fills tree [] opened.graph (withNodeScope opened id scope).graph :=
        .of_same (fun _ _ => rfl) rfl rfl
      rw [List.flatMap_cons, hsame]
      exact ((hopening.trans hplacing).trans (stores_enter hplaced.tabled hscopeLt id)).trans
        (ih hentering.tabled hgrows)

theorem fills_walked (h : tree.WellFormed) (globals : List String) (diagnostics : Diagnostics) :
    let graph := (walked tree globals diagnostics).graph
    Fills tree (tree.declarations graph globals) (globalOnly tree) graph := by
  let opened : ScopeBuilder := ⟨globalOnly tree, [], diagnostics⟩
  have htabled : opened.graph.Tabled tree := tabled_globalOnly tree
  have hcomes : ∀ name, (tree.globalDeclaration name).initialiser? tree = none := by
    obtain ⟨body, hprogram⟩ := h.program
    simp [Declaration.initialiser?, Tree.globalDeclaration, hprogram]
  have hprepares : Stores tree (globals.flatMap fun name => [tree.globalDeclaration name]) opened
      (globals.forM fun name => do
        let _ ← declare tree globalScope tree.root name .global) := by
    refine stores_forM htabled fun name _ next htabled hgrows => ?_
    have hlt : globalScope < next.graph.scopes.size :=
      Nat.lt_of_lt_of_le Nat.zero_lt_one hgrows.scopes_le
    exact ⟨(walks_declare htabled hlt tree.root name .global).bind_pure,
      stores_declare htabled hlt (hcomes name)⟩
  have hwalks := (visits_walked h globals diagnostics).fills
    (leaves_prepared tree globals diagnostics).tabled (.refl _)
  rw [← List.map_eq_flatMap] at hprepares
  rw [List.flatMap_map] at hwalks
  exact Fills.trans hprepares hwalks

/-! ## Assignments -/

variable {start : ScopeBuilder} {marked : List NodeId} {found : List (NodeId × Problem)}

theorem symbol_lt_of_lookup? {graph : ScopeGraph} (h : graph.Tabled tree) {scope : ScopeId}
    {name : String} {symbol : SymbolId} (hresolves : graph.lookup? scope name = some symbol) :
    symbol < graph.symbols.size := by
  obtain ⟨outer, -, held⟩ := within_of_lookup? hresolves
  obtain ⟨declaration, hentry, -⟩ := (h.local?_eq_some_iff _ _ _).mp held
  simpa [entries] using (List.getElem?_eq_some_iff.mp hentry).1

theorem writes_resolveRead (builder : ScopeBuilder) (node : NodeId) (name : String)
    (symbol : SymbolId) :
    (resolveRead tree node name builder).2.graph.symbol symbol = builder.graph.symbol symbol := by
  have hlook : graph? (fun graph => graph.lookup? (graph.scopeOf node) name) builder =
      (builder.graph.lookup? (builder.graph.scopeOf node) name, builder) := rfl
  rw [resolveRead, bind_apply, hlook]
  cases builder.graph.lookup? (builder.graph.scopeOf node) name with
  | some found => rfl
  | none =>
      dsimp only
      split <;> rfl

theorem Resolved.writes_resolveWrite (h : Resolved tree start marked found builder)
    (node : NodeId) (name : String) (value : NodeId) (symbol : SymbolId) :
    ((resolveWrite tree node name value builder).2.graph.symbol symbol).writes =
      (builder.graph.symbol symbol).writes ++
        (start.graph.assigned? symbol (.write node name value)).toList := by
  rw [resolveWrite, bind_apply, h.graph?_lookup, assigned?]
  cases hresolves : start.graph.lookup? (start.graph.scopeOf node) name with
  | none =>
      simp
      rfl
  | some target =>
      have hbound : target < builder.graph.symbols.size := by
        rw [← h.same.lookup?_eq] at hresolves
        exact symbol_lt_of_lookup? h.same.tabled hresolves
      change (((if (builder.graph.symbol target).mutable then recordWrite target value
        else ScopeBuilder.report tree node (.assignToConstant name) : Build Unit)
          (markResolved node target builder).2).2.graph.symbol symbol).writes = _
      rw [h.same.isMutable]
      by_cases hmutable : (start.graph.symbol target).mutable
      · have hstored :=
          @writes_recordWrite (markResolved node target builder).2 target hbound value symbol
        rw [if_pos hmutable, hstored]
        by_cases hsame : target = symbol
        · subst hsame
          simp [hmutable]
          rfl
        · simp [hsame]
          rfl
      · have habsent : ¬ (target = symbol ∧ (start.graph.symbol symbol).mutable = true) := by
          rintro ⟨rfl, held⟩
          exact hmutable held
        simp [hmutable, habsent]
        rfl

theorem forM_cons_apply {α : Type} (item : α) (rest : List α) (f : α → Build Unit)
    (builder : ScopeBuilder) :
    ((item :: rest).forM f builder).2 = (rest.forM f (f item builder).2).2 := rfl

theorem writes_resolve {references : List Reference}
    (hrefers : ∀ reference ∈ references, RefersIn tree reference)
    (h : Resolved tree start [] [] start) (symbol : SymbolId) :
    ((resolve tree references start).2.graph.symbol symbol).writes =
      (start.graph.symbol symbol).writes ++
        references.filterMap (start.graph.assigned? symbol) := by
  unfold ScopeBuilder.resolve
  generalize targets references = written
  have hall : ∀ (builder : ScopeBuilder) (marked : List NodeId) (found : List (NodeId × Problem)),
      Resolved tree start marked found builder →
      ((references.forM (fun
        | .read node name => if written.contains node then pure () else resolveRead tree node name
        | .write node name value => resolveWrite tree node name value :
          Reference → Build Unit) builder).2.graph.symbol symbol).writes =
        (builder.graph.symbol symbol).writes ++
          references.filterMap (start.graph.assigned? symbol) := by
    induction references with
    | nil =>
        intro builder marked found hresolved
        exact (List.append_nil _).symm
    | cons reference rest ih =>
        intro builder marked found hresolved
        have hothers := ih fun other hmem => hrefers other (List.mem_cons_of_mem _ hmem)
        have hrefersFirst := hrefers reference List.mem_cons_self
        cases reference with
        | read node name =>
            rw [List.filterMap_cons_none rfl]
            by_cases hmet : written.contains node
            · dsimp only [forM_cons_apply]
              rw [if_pos hmet]
              exact hothers builder marked found hresolved
            · have hnext := hothers _ _ _ (hresolved.read hrefersFirst)
              rw [writes_resolveRead] at hnext
              dsimp only [forM_cons_apply]
              rw [if_neg hmet]
              exact hnext
        | write node name value =>
            have hnext := hothers _ _ _ (hresolved.writeName hrefersFirst)
            rw [hresolved.writes_resolveWrite] at hnext
            rw [forM_cons_apply, hnext, List.append_assoc]
            cases hstored : start.graph.assigned? symbol (.write node name value) with
            | none => rw [List.filterMap_cons_none hstored]; rfl
            | some value => rw [List.filterMap_cons_some hstored]; rfl
  exact hall start [] [] h

/-- Resolving references marks no node as declaring a symbol. -/
theorem declarations_resolve (tree : Tree) (references : List Reference)
    (builder : ScopeBuilder) :
    (resolve tree references builder).2.graph.declarations = builder.graph.declarations := by
  unfold ScopeBuilder.resolve
  refine forM_keeps (P := fun next => next.graph.declarations = builder.graph.declarations)
    ?_ references rfl
  rintro (⟨node, name⟩ | ⟨node, name, value⟩) next hsame
  · dsimp only
    split
    · exact hsame
    · have hlook : graph? (fun graph => graph.lookup? (graph.scopeOf node) name) next =
          (next.graph.lookup? (next.graph.scopeOf node) name, next) := rfl
      rw [resolveRead, bind_apply, hlook]
      cases next.graph.lookup? (next.graph.scopeOf node) name with
      | some found => exact hsame
      | none =>
          dsimp only
          split <;> exact hsame
  · have hlook : graph? (fun graph => graph.lookup? (graph.scopeOf node) name) next =
        (next.graph.lookup? (next.graph.scopeOf node) name, next) := rfl
    dsimp only
    rw [resolveWrite, bind_apply, hlook]
    cases next.graph.lookup? (next.graph.scopeOf node) name with
    | none => exact hsame
    | some found =>
        change ((if (next.graph.symbol found).mutable then recordWrite found value
          else ScopeBuilder.report tree node (.assignToConstant name) : Build Unit)
            (markResolved node found next).2).2.graph.declarations = _
        split <;> exact hsame

end ScopeBuilder

/-! ## The whole graph -/

namespace ScopeGraph

open ScopeBuilder

variable {tree : Tree}

theorem SameNames.symbolOf?_eq {graph later : ScopeGraph} (h : graph.SameNames later tree) :
    later.symbolOf? = graph.symbolOf? := by
  funext declaration
  simp only [symbolOf?, local?, h.scope_eq]

theorem SameNames.initialisers_eq {graph later : ScopeGraph} (h : graph.SameNames later tree)
    (declared : List Declaration) (symbol : SymbolId) :
    later.initialisers tree declared symbol = graph.initialisers tree declared symbol := by
  simp only [initialisers, declarationsOf, h.symbolOf?_eq]

theorem SameNames.assigned?_eq {graph later : ScopeGraph} (h : graph.SameNames later tree)
    (symbol : SymbolId) : later.assigned? symbol = graph.assigned? symbol := by
  funext reference
  cases reference with
  | read node name => rfl
  | write node name value => simp only [assigned?, h.lookup?_eq, h.scopeOf_eq, h.isMutable]

/-- What is stored under a symbol: the values of its declarations, and what is assigned to it. -/
theorem writes_build (h : tree.WellFormed) (globals : List String) (diagnostics : Diagnostics)
    (symbol : SymbolId) :
    let graph := (ScopeGraph.build tree globals diagnostics).1
    (graph.symbol symbol).writes =
      graph.initialisers tree (tree.declarations graph globals) symbol ++
        tree.references.filterMap (graph.assigned? symbol) := by
  have hsame := (resolved_build h globals diagnostics).same
  have hwalks := (fills_walked h globals diagnostics).writes symbol
  rw [build_eq]
  dsimp only
  rw [hsame.declarations_eq, hsame.initialisers_eq, hsame.assigned?_eq, references_walked h,
    writes_resolve (fun reference hmem => refersIn_of_mem h hmem) (resolved_walked h _ _), hwalks]
  rfl

theorem exists_declaration_of_declared? (h : tree.WellFormed) (globals : List String)
    (diagnostics : Diagnostics) {node : NodeId} {symbol : SymbolId} :
    let graph := (ScopeGraph.build tree globals diagnostics).1
    graph.declared? node = some symbol →
      ∃ declaration ∈ tree.declarations graph globals, declaration.node = node ∧
        declaration.kind.isDeclaredByNode ∧ graph.symbolOf? declaration = some symbol := by
  have hsame := (resolved_build h globals diagnostics).same
  rw [build_eq]
  dsimp only
  rw [hsame.declarations_eq, hsame.symbolOf?_eq, declared?, declarations_resolve]
  intro hdeclared
  rcases (fills_walked h globals diagnostics).marks hdeclared with hbefore | hfound
  · have hunmarked : (globalOnly tree).declared? node = none := by
      change (Array.replicate tree.size none).getD node none = none
      rw [Array.getD_eq_getD_getElem?, Array.getElem?_replicate]
      split <;> rfl
    rw [hunmarked] at hbefore
    cases hbefore
  · exact hfound

theorem exists_parameter_of_mem {scope : ScopeId} {parameter : NodeId} {declaration : Declaration}
    (hmem : declaration ∈ tree.parameterDeclarations scope parameter) :
    ∃ name, tree.kind parameter = .parameter name ∧
      declaration = ⟨scope, name, parameter, .parameter⟩ := by
  unfold Tree.parameterDeclarations at hmem
  split at hmem
  case h_1 name hkind => exact ⟨name, hkind, List.mem_singleton.mp hmem⟩
  case h_2 => cases hmem

inductive DeclaredAt (graph : ScopeGraph) (tree : Tree) (id : NodeId) : Declaration → Prop
  | declarator {sort : DeclarationKind} {declarators : List NodeId} {node : NodeId} {name : String}
      {init : Option NodeId} (outer : tree.kind id = .declaration sort declarators)
      (inner : node ∈ declarators) (kind : tree.kind node = .declarator name init) :
      DeclaredAt graph tree id
        ⟨if sort = .var_ then (graph.scope (graph.scopeOf id)).hoisting else graph.scopeOf id, name,
          node, .ofDeclaration sort⟩
  | parameter {node : NodeId} {name : String} (inner : node ∈ tree.children id)
      (kind : tree.kind node = .parameter name) :
      DeclaredAt graph tree id ⟨graph.scopeOf id, name, node, .parameter⟩
  | function {shape : FunctionShape} {name : String} (kind : tree.kind id = .function shape)
      (sort : shape.kind = .declaration) (named : shape.name = some name) :
      DeclaredAt graph tree id
        ⟨(graph.scope ((graph.scope (graph.scopeOf id)).parent.getD (graph.scopeOf id))).hoisting,
          name, id, .function⟩
  | ownName {shape : FunctionShape} {name : String} (kind : tree.kind id = .function shape)
      (sort : shape.kind = .expression) (named : shape.name = some name) :
      DeclaredAt graph tree id ⟨graph.scopeOf id, name, id, .function⟩

theorem DeclaredAt.of_mem_function {graph : ScopeGraph} {id : NodeId} {shape : FunctionShape}
    {declaration : Declaration} (hkind : tree.kind id = .function shape)
    (hmem : declaration ∈ tree.functionDeclarations graph id (graph.scopeOf id) shape)
    (hbyNode : declaration.kind.isDeclaredByNode) : graph.DeclaredAt tree id declaration := by
  simp only [Tree.functionDeclarations, List.mem_append, List.mem_flatMap] at hmem
  rcases hmem with haround | ⟨parameter, hchild, hinside⟩ | himplicit | hown
  · unfold FunctionShape.aroundDeclarations at haround
    split at haround
    case h_1 name hsort hnamed =>
      obtain rfl := List.mem_singleton.mp haround
      exact .function hkind hsort hnamed
    case h_2 => cases haround
  · obtain ⟨name, hparameterKind, rfl⟩ := exists_parameter_of_mem hinside
    exact .parameter (by simp [Tree.children, hkind, NodeKind.children, hchild]) hparameterKind
  · unfold FunctionShape.implicitDeclarations at himplicit
    split at himplicit
    · cases himplicit
    · rcases List.mem_pair.mp himplicit with rfl | rfl <;> cases hbyNode
  · unfold FunctionShape.ownNameDeclarations at hown
    split at hown
    case h_1 name hsort hnamed =>
      obtain rfl := List.mem_singleton.mp hown
      exact .ownName hkind hsort hnamed
    case h_2 => cases hown

theorem DeclaredAt.of_mem {graph : ScopeGraph} {id : NodeId} {declaration : Declaration}
    (hmem : declaration ∈ tree.declarationsAt graph id (graph.scopeOf id))
    (hbyNode : declaration.kind.isDeclaredByNode) : graph.DeclaredAt tree id declaration := by
  unfold Tree.declarationsAt at hmem
  split at hmem
  case h_1 sort declarators houter =>
    obtain ⟨node, hinner, hmem⟩ := List.mem_flatMap.mp hmem
    unfold Tree.variableDeclarations at hmem
    split at hmem
    case h_1 name init hkind =>
      obtain rfl := List.mem_singleton.mp hmem
      exact .declarator houter hinner hkind
    case h_2 => cases hmem
  case h_2 shape hkind => exact .of_mem_function hkind hmem hbyNode
  case h_3 parameter body hkind =>
    obtain ⟨name, hparameterKind, rfl⟩ := exists_parameter_of_mem hmem
    exact .parameter (by simp [Tree.children, hkind, NodeKind.children]) hparameterKind
  case h_4 => cases hmem

theorem exists_declaredAt {graph : ScopeGraph} {globals : List String} {declaration : Declaration}
    (hmem : declaration ∈ tree.declarations graph globals)
    (hbyNode : declaration.kind.isDeclaredByNode) :
    ∃ id ∈ tree.preorder tree.root, graph.DeclaredAt tree id declaration := by
  rcases List.mem_append.mp hmem with hglobal | hbelow
  · obtain ⟨name, -, rfl⟩ := List.mem_map.mp hglobal
    cases hbyNode
  · obtain ⟨id, hinside, hbelow⟩ := List.mem_flatMap.mp hbelow
    exact ⟨id, hinside, .of_mem hbelow hbyNode⟩

/-- A node other than a function expression declares a name in the scope around it, or in the
hoisting scope of that. -/
theorem IsGraphOf.hoisting_le_of_mem {graph : ScopeGraph} {globals : List String}
    (hwell : tree.WellFormed) (h : graph.IsGraphOf tree globals) {declaration : Declaration}
    (hmem : declaration ∈ tree.declarations graph globals)
    (hbyNode : declaration.kind.isDeclaredByNode)
    (houtside : (tree.kind declaration.node).declaresOutside) {around : ScopeId}
    (hstands : graph.StandsIn tree declaration.node around) :
    (graph.scope around).hoisting ≤ declaration.scope := by
  obtain ⟨id, hinside, hdeclared⟩ := exists_declaredAt hmem hbyNode
  have hidLt := hwell.mem_preorder_root.mp hinside
  have hoistingLe := h.tabled.hoisting_le (h.innermost hwell hidLt).2.1
  have hpart : declaration.node ∈ tree.children id → around = graph.scopeOf id := fun hchild =>
    hstands.unique (h.describes.child id hidLt _ hchild)
  cases hdeclared with
  | declarator houter hinner hkind =>
      obtain rfl := hpart (by simpa [Tree.children, houter, NodeKind.children] using hinner)
      dsimp only
      split
      · exact Nat.le_refl _
      · exact hoistingLe
  | parameter hinner hkind =>
      obtain rfl := hpart hinner
      exact hoistingLe
  | function hkind hsort hnamed =>
      have hparent := hstands.parent_eq (by simp [hkind, NodeKind.opensScope])
      simp [hparent]
  | ownName hkind hsort hnamed => simp [hkind, NodeKind.declaresOutside, hsort] at houtside

theorem hoisting_le_of_declared? (h : tree.WellFormed) (globals : List String)
    (diagnostics : Diagnostics) :
    let graph := (ScopeGraph.build tree globals diagnostics).1
    ∀ {node symbol around}, graph.declared? node = some symbol →
      (tree.kind node).declaresOutside → graph.StandsIn tree node around →
        (graph.scope around).hoisting ≤ (graph.symbol symbol).scope := by
  intro graph node symbol around hdeclared houtside hstands
  have hisGraph : graph.IsGraphOf tree globals := isGraphOf_build h globals diagnostics
  obtain ⟨declaration, hmem, rfl, hbyNode, hfound⟩ :=
    exists_declaration_of_declared? h globals diagnostics hdeclared
  rw [((hisGraph.local?_eq_some_iff _ _ _).mp hfound).2.1]
  exact hisGraph.hoisting_le_of_mem h hmem hbyNode houtside hstands

end ScopeGraph

end ScriptCheck
