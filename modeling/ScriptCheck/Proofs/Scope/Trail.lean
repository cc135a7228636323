import ScriptCheck.Proofs.Scope.Tables
import ScriptCheck.Proofs.Scope.Walk
import ScriptCheck.Proofs.Tree.Preorder

/-!
# What the walk over a tree leaves behind

The walk goes through the nodes of a tree in preorder.  At each it may open a scope, declare
names and note references; what it has done so far is the list of what it did at each node.
-/

namespace ScriptCheck

/-! ## What is done at a node -/

namespace FunctionShape

def aroundDeclarations (shape : FunctionShape) (graph : ScopeGraph) (id : NodeId)
    (scope : ScopeId) : List Declaration :=
  match shape.kind, shape.name with
  | .declaration, some name =>
      [⟨(graph.scope ((graph.scope scope).parent.getD scope)).hoisting, name, id, .function⟩]
  | _, _ => []

/-- The names that a function has inside unless it is an arrow. -/
def implicitDeclarations (shape : FunctionShape) (id : NodeId) (scope : ScopeId) :
    List Declaration :=
  if shape.isArrow then [] else [⟨scope, "this", id, .this_⟩, ⟨scope, "arguments", id, .arguments⟩]

def ownNameDeclarations (shape : FunctionShape) (id : NodeId) (scope : ScopeId) :
    List Declaration :=
  match shape.kind, shape.name with
  | .expression, some name => [⟨scope, name, id, .function⟩]
  | _, _ => []

end FunctionShape

namespace Tree

variable (tree : Tree) (graph : ScopeGraph)

def parameterDeclarations (scope : ScopeId) (parameter : NodeId) : List Declaration :=
  match tree.kind parameter with
  | .parameter name => [⟨scope, name, parameter, .parameter⟩]
  | _ => []

def variableDeclarations (scope : ScopeId) (kind : DeclarationKind) (declarator : NodeId) :
    List Declaration :=
  match tree.kind declarator with
  | .declarator name _ =>
      let target := if kind = .var_ then (graph.scope scope).hoisting else scope
      [⟨target, name, declarator, .ofDeclaration kind⟩]
  | _ => []

/-- What a function brings: the name of a declaration in the hoisting scope around it, and in
its own scope the parameters, `this` and `arguments` unless it is an arrow, and the own name of
a function expression. -/
def functionDeclarations (id : NodeId) (scope : ScopeId) (shape : FunctionShape) :
    List Declaration :=
  shape.aroundDeclarations graph id scope ++
    (shape.parameters.flatMap (tree.parameterDeclarations scope) ++
      (shape.implicitDeclarations id scope ++ shape.ownNameDeclarations id scope))

def declarationsAt (id : NodeId) (scope : ScopeId) : List Declaration :=
  match tree.kind id with
  | .declaration kind declarators =>
      declarators.flatMap (tree.variableDeclarations graph scope kind)
  | .function shape => tree.functionDeclarations graph id scope shape
  | .catchClause (some parameter) _ => tree.parameterDeclarations scope parameter
  | _ => []

/-- What a node refers to: an assignment writes through its target. -/
def referencesAt (id : NodeId) : List Reference :=
  match tree.kind id with
  | .identifier name => [.read id name]
  | .thisExpr => [.read id "this"]
  | .assign op target value =>
      match tree.kind target with
      | .identifier name => [.write target name (if op.binary?.isSome then id else value)]
      | _ => []
  | _ => []

end Tree

/-! ## What was done so far -/

/-- What a part of the walk did: the scopes it gave to nodes, the nodes it opened scopes for,
and what it declared and referred to, each in order. -/
structure Trail where
  places : List (NodeId × ScopeId) := []
  opened : List NodeId := []
  declared : List Declaration := []
  noted : List Reference := []

namespace Trail

/-- One part of the walk and then another. -/
def append (first second : Trail) : Trail where
  places := first.places ++ second.places
  opened := first.opened ++ second.opened
  declared := first.declared ++ second.declared
  noted := first.noted ++ second.noted

instance : Append Trail := ⟨append⟩

theorem append_empty (trail : Trail) : trail ++ ({} : Trail) = trail := by
  change append trail {} = trail
  simp [append]

def through (tree : Tree) (graph : ScopeGraph) (places : List (NodeId × ScopeId)) : Trail where
  places := places
  opened := (places.map Prod.fst).filter fun id => (tree.kind id).opensScope
  declared := places.flatMap fun place => tree.declarationsAt graph place.1 place.2
  noted := (places.map Prod.fst).flatMap tree.referencesAt

theorem through_append (tree : Tree) (graph : ScopeGraph) (first second : List (NodeId × ScopeId)) :
    through tree graph (first ++ second) =
      through tree graph first ++ through tree graph second := by
  change _ = append _ _
  simp [through, append]

end Trail

namespace ScopeBuilder

open ScopeGraph

variable {α β : Type} {tree : Tree}

/-- A step of the walk, with what it did. -/
structure Leaves (tree : Tree) (trail : Trail) (before after : ScopeBuilder) : Prop where
  tabled : after.graph.Tabled tree
  grows : before.graph.Extends after.graph
  nodeScopes : after.graph.nodeScopes = trail.places.foldl
    (fun scopes place => scopes.setIfInBounds place.1 place.2) before.graph.nodeScopes
  nodes : after.graph.scopes.toList.map Scope.node =
    before.graph.scopes.toList.map Scope.node ++ trail.opened
  entries : after.graph.entries = trail.declared.foldl Declaration.enter before.graph.entries
  references : after.references.reverse = before.references.reverse ++ trail.noted
  resolutions : after.graph.resolutions = before.graph.resolutions
  diagnostics : ∃ found : List Diagnostic,
    (∀ diagnostic ∈ found, ∃ name, diagnostic.problem = .duplicateDeclaration name) ∧
      after.diagnostics = found.foldl Diagnostics.report before.diagnostics

namespace Leaves

variable {trail later : Trail} {a b c : ScopeBuilder}

theorem refl (h : a.graph.Tabled tree) : Leaves tree {} a a :=
  ⟨h, .refl _, rfl, by simp, rfl, by simp, rfl, [], by simp, rfl⟩

theorem trans (h : Leaves tree trail a b) (hnext : Leaves tree later b c) :
    Leaves tree (trail ++ later) a c := by
  obtain ⟨found, hfound, hdiagnostics⟩ := h.diagnostics
  obtain ⟨more, hmore, hlater⟩ := hnext.diagnostics
  refine ⟨hnext.tabled, h.grows.trans hnext.grows, ?_, ?_, ?_, ?_,
    hnext.resolutions.trans h.resolutions, found ++ more, ?_, ?_⟩
  · change _ = (trail.places ++ later.places).foldl _ _
    rw [List.foldl_append, ← h.nodeScopes, ← hnext.nodeScopes]
  · change _ = _ ++ (trail.opened ++ later.opened)
    rw [hnext.nodes, h.nodes, List.append_assoc]
  · change _ = (trail.declared ++ later.declared).foldl _ _
    rw [List.foldl_append, ← h.entries, ← hnext.entries]
  · change _ = _ ++ (trail.noted ++ later.noted)
    rw [hnext.references, h.references, List.append_assoc]
  · intro diagnostic hmem
    exact (List.mem_append.mp hmem).elim (hfound diagnostic) (hmore diagnostic)
  · rw [hlater, hdiagnostics, List.foldl_append]

end Leaves

/-- Running `step` from a builder does what the trail says, and gives what `Q` says. -/
def Walks (tree : Tree) (trail : Trail) (builder : ScopeBuilder) (step : Build α)
    (Q : α → ScopeBuilder → Prop) : Prop :=
  Leaves tree trail builder (step builder).2 ∧ Q (step builder).1 (step builder).2

namespace Walks

variable {trail later : Trail} {builder : ScopeBuilder} {Q : α → ScopeBuilder → Prop}
  {R : β → ScopeBuilder → Prop}

theorem pure (h : builder.graph.Tabled tree) {a : α} (hQ : Q a builder) :
    Walks tree {} builder (Pure.pure a) Q :=
  ⟨.refl h, hQ⟩

theorem bind (trail later : Trail) {step : Build α} {f : α → Build β}
    (hstep : Walks tree trail builder step Q)
    (hf : ∀ a next, Leaves tree trail builder next → Q a next → Walks tree later next (f a) R) :
    Walks tree (trail ++ later) builder (step >>= f) R := by
  obtain ⟨hrest, hR⟩ := hf _ _ hstep.1 hstep.2
  exact ⟨hstep.1.trans hrest, hR⟩

theorem look {step : Build α} {f : α → Build β} (hstep : (step builder).2 = builder)
    (hf : Walks tree trail builder (f (step builder).1) R) :
    Walks tree trail builder (step >>= f) R := by
  change Walks tree trail builder (fun state => f (step state).1 (step state).2) R
  unfold Walks at hf ⊢
  dsimp only
  rw [hstep]
  exact hf

/-- What is left to do after a step gives nothing. -/
theorem bind_pure {step : Build α} {b : β}
    (hstep : Walks tree trail builder step (fun _ _ => True)) :
    Walks tree trail builder (step >>= fun _ => Pure.pure b) (fun _ _ => True) := by
  have h := hstep.bind _ {} (f := fun _ => Pure.pure b) (R := fun _ _ => True)
    fun _ next hnext _ => .pure hnext.tabled trivial
  rwa [Trail.append_empty] at h

/-- A list of steps, each of which declares some names. -/
theorem forM {items : List α} {f : α → Build Unit} {declared : α → List Declaration}
    (hbuilder : builder.graph.Tabled tree)
    (hf : ∀ a ∈ items, ∀ next : ScopeBuilder, next.graph.Tabled tree →
      builder.graph.Extends next.graph →
      Walks tree { declared := declared a } next (f a) (fun _ _ => True)) :
    Walks tree { declared := items.flatMap declared } builder (items.forM f) (fun _ _ => True) := by
  induction items generalizing builder with
  | nil => exact .pure hbuilder trivial
  | cons item rest ih =>
      have hall : Walks tree ({ declared := declared item } ++
        { declared := rest.flatMap declared })
          builder (f item >>= fun _ => rest.forM f) (fun _ _ => True) := by
        refine (hf item List.mem_cons_self builder hbuilder (.refl _)).bind _ _
          fun _ next hnext _ => ?_
        refine ih hnext.tabled fun a ha after hafter hgrows => ?_
        exact hf a (List.mem_cons_of_mem item ha) after hafter (hnext.grows.trans hgrows)
      exact hall

end Walks

/-! ## The steps of the walk -/

/-- A step that changes nothing but how the nodes of a tree refer to symbols. -/
theorem leaves_of_eq {before after : ScopeBuilder} (h : before.graph.Tabled tree)
    (hscopes : after.graph.scopes = before.graph.scopes)
    (hsymbols : after.graph.symbols = before.graph.symbols)
    (hnodeScopes : after.graph.nodeScopes = before.graph.nodeScopes)
    (hresolutions : after.graph.resolutions = before.graph.resolutions)
    (hreferences : after.references = before.references)
    (hdiagnostics : after.diagnostics = before.diagnostics) : Leaves tree {} before after :=
  ⟨h.of_eq hscopes (by simp only [entries, hsymbols]) (by rw [hsymbols]; exact h.isMutable),
    .of_eq hscopes hsymbols, hnodeScopes, by simp [hscopes],
      by simp only [entries, hsymbols, List.foldl_nil],
    by simp [hreferences], hresolutions, [], by simp, hdiagnostics⟩

theorem walks_markDeclared {builder : ScopeBuilder} (h : builder.graph.Tabled tree) (node : NodeId)
    (kind : SymbolKind) (symbol : SymbolId) :
    Walks tree {} builder (markDeclared node kind symbol) (fun _ _ => True) := by
  unfold markDeclared
  split
  · exact ⟨leaves_of_eq h rfl rfl rfl rfl rfl rfl, trivial⟩
  · exact .pure h trivial

theorem walks_report {builder : ScopeBuilder} (h : builder.graph.Tabled tree) (node : NodeId)
    (name : String) :
    Walks tree {} builder (report tree node (.duplicateDeclaration name)) (fun _ _ => True) :=
  ⟨⟨h, .refl _, rfl, (List.append_nil _).symm, rfl, (List.append_nil _).symm, rfl,
    [.ofProblem (tree.start node).location (.duplicateDeclaration name) []],
    fun diagnostic hmem => ⟨name, by cases List.mem_singleton.mp hmem; rfl⟩, rfl⟩, trivial⟩

theorem entries_recordWrite (builder : ScopeBuilder) (symbol : SymbolId) (value : NodeId) :
    (recordWrite symbol value builder).2.graph.entries = builder.graph.entries := by
  refine List.ext_getElem? fun other => ?_
  change (((builder.graph.symbols.modify symbol _).toList.map Symbol.declaration)[other]?) = _
  simp only [entries, List.getElem?_map, Array.getElem?_toList, Array.getElem?_modify]
  split
  · cases builder.graph.symbols[other]? <;> rfl
  · rfl

theorem walks_recordWrite {builder : ScopeBuilder} (h : builder.graph.Tabled tree)
    (symbol : SymbolId) (value : NodeId) :
    Walks tree {} builder (recordWrite symbol value) (fun _ _ => True) := by
  have hentries := entries_recordWrite builder symbol value
  have hsize : (recordWrite symbol value builder).2.graph.symbols.size =
      builder.graph.symbols.size := Array.size_modify
  refine ⟨⟨h.of_eq rfl hentries fun other hother => ?_, ⟨Nat.le_refl _, fun _ => rfl, fun _ => rfl,
    fun _ => rfl, Nat.le_of_eq hsize.symm,
      fun _ => scope_symbol_recordWrite builder symbol value _⟩,
    rfl, (List.append_nil _).symm, hentries, (List.append_nil _).symm, rfl, [], by simp, rfl⟩,
      trivial⟩
  obtain ⟨index, hindex⟩ := Array.mem_iff_getElem?.mp hother
  change (builder.graph.symbols.modify symbol _)[index]? = _ at hindex
  rw [Array.getElem?_modify] at hindex
  split at hindex
  · obtain ⟨old, hold, rfl⟩ := Option.map_eq_some_iff.mp hindex
    exact h.isMutable old (Array.mem_of_getElem? hold)
  · exact h.isMutable other (Array.mem_of_getElem? hindex)

/-- A new symbol under a name that its scope does not have. -/
theorem walks_addSymbol {builder : ScopeBuilder} (h : builder.graph.Tabled tree) {symbol : Symbol}
    (hscope : symbol.scope < builder.graph.scopes.size)
    (hnew : builder.graph.local? symbol.scope symbol.name = none)
    (hmutable : symbol.mutable = symbol.kind.isMutable) :
    Walks tree { declared := [symbol.declaration] } builder
      (modifyGraph (withSymbol · symbol.scope symbol)) (fun _ _ => True) := by
  have hnotMem : symbol.declaration.key ∉ builder.graph.entries.map Declaration.key := by
    intro hmem
    have := h.local?_isSome_iff.mpr hmem
    simp [Symbol.declaration, hnew] at this
  have hnodes : ((withSymbol builder.graph symbol.scope symbol).scopes.toList.map Scope.node) =
      builder.graph.scopes.toList.map Scope.node := by
    refine List.ext_getElem? fun other => ?_
    simp only [withSymbol, List.getElem?_map, Array.getElem?_toList, Array.getElem?_modify]
    split
    · cases builder.graph.scopes[other]? <;> rfl
    · rfl
  refine ⟨⟨tabled_withSymbol h hscope hnew hmutable, extends_withSymbol _ _ _, rfl, ?_, ?_,
    (List.append_nil _).symm, rfl, [], by simp, rfl⟩, trivial⟩
  · exact hnodes.trans (List.append_nil _).symm
  · change (withSymbol builder.graph symbol.scope symbol).entries = Declaration.enter _ _
    rw [entries_withSymbol, Declaration.enter, if_neg hnotMem]

/-- A step that declares nothing new declares what is there already. -/
theorem Leaves.of_known {before after : ScopeBuilder} (h : Leaves tree {} before after)
    {declaration : Declaration}
    (hknown : declaration.key ∈ before.graph.entries.map Declaration.key) :
    Leaves tree { declared := [declaration] } before after :=
  { h with entries := h.entries.trans (if_pos hknown).symm }

/-- Declaring a name adds it to what was declared, unless it is there. -/
theorem walks_declare {builder : ScopeBuilder} (h : builder.graph.Tabled tree) {scope : Nat}
    (hscope : scope < builder.graph.scopes.size) (node : NodeId) (name : String)
    (kind : SymbolKind) :
    Walks tree { declared := [⟨scope, name, node, kind⟩] } builder
      (declare tree scope node name kind) (fun _ _ => True) := by
  unfold declare
  refine .look rfl ?_
  rw [show (graph? (·.local? scope name) builder).1 = builder.graph.local? scope name from rfl]
  cases hlocal : builder.graph.local? scope name with
  | some existing =>
      have hknown := h.local?_isSome_iff.mp (Option.isSome_of_eq_some hlocal)
      have hstep := (walks_report h node name).bind _ {} fun _ next hnext _ =>
        (walks_markDeclared hnext.tabled node kind existing).bind_pure (b := existing)
      exact ⟨hstep.1.of_known hknown, trivial⟩
  | none =>
      let symbol : Symbol := ⟨name, node, scope, kind, kind.isMutable, []⟩
      have hadd := @walks_addSymbol tree builder h symbol hscope hlocal rfl
      refine .look rfl (.bind { declared := [symbol.declaration] } {}
        (Q := fun _ _ => True) hadd fun _ next hnext _ => ?_)
      exact (walks_markDeclared hnext.tabled node kind _).bind_pure

theorem walks_declareNew {builder : ScopeBuilder} (h : builder.graph.Tabled tree) {scope : Nat}
    (hscope : scope < builder.graph.scopes.size) (node : NodeId) (name : String)
    (kind : SymbolKind) :
    Walks tree { declared := [⟨scope, name, node, kind⟩] } builder
      (declareNew tree scope node name kind) (fun _ _ => True) := by
  unfold declareNew
  refine .look rfl ?_
  change Walks _ _ _ (if (builder.graph.local? scope name).isNone then _ else _) _
  cases hlocal : builder.graph.local? scope name with
  | some existing =>
      have hknown := h.local?_isSome_iff.mp (Option.isSome_of_eq_some hlocal)
      exact ⟨(Leaves.refl h).of_known hknown, trivial⟩
  | none => exact (walks_declare h hscope node name kind).bind_pure

theorem walks_declareParameter {builder : ScopeBuilder} (h : builder.graph.Tabled tree)
    {scope : Nat} (hscope : scope < builder.graph.scopes.size) (parameter : NodeId) :
    Walks tree { declared := tree.parameterDeclarations scope parameter } builder
      (declareParameter tree scope parameter) (fun _ _ => True) := by
  unfold declareParameter Tree.parameterDeclarations
  cases tree.kind parameter with
  | parameter name => exact (walks_declare h hscope parameter name .parameter).bind_pure
  | _ => exact .pure h trivial

theorem walks_declareVariables {builder : ScopeBuilder} (h : builder.graph.Tabled tree)
    {scope : Nat} (hscope : scope < builder.graph.scopes.size) (kind : DeclarationKind)
    (declarators : List NodeId) :
    Walks tree
      { declared := declarators.flatMap (tree.variableDeclarations builder.graph scope kind) }
      builder (declareVariables tree scope kind declarators) (fun _ _ => True) := by
  refine .forM h fun declarator _ next hnext hgrows => ?_
  unfold Tree.variableDeclarations
  cases tree.kind declarator with
  | declarator name init =>
      have hlt := Nat.lt_of_lt_of_le hscope hgrows.scopes_le
      have htarget : (if kind = .var_ then (builder.graph.scope scope).hoisting else scope) <
          next.graph.scopes.size := by
        split
        · exact Nat.lt_of_le_of_lt (h.hoisting_le hscope) hlt
        · exact hlt
      refine .look rfl ?_
      rw [show (graph? (fun graph => (graph.scope scope).hoisting) next).1 =
        (builder.graph.scope scope).hoisting from hgrows.hoisting hscope]
      refine .bind { declared := [_] } {}
        (walks_declare hnext htarget declarator name _) fun symbol declared hdeclared _ => ?_
      cases init with
      | none => exact .pure hdeclared.tabled trivial
      | some value => exact walks_recordWrite hdeclared.tabled symbol value
  | _ => exact .pure hnext trivial

theorem walks_declareAround {builder : ScopeBuilder} (h : builder.graph.Tabled tree)
    {scope : Nat} (hscope : scope < builder.graph.scopes.size) (id : NodeId)
    (shape : FunctionShape) :
    Walks tree { declared := shape.aroundDeclarations builder.graph id scope } builder
      (declareAround tree id scope shape) (fun _ _ => True) := by
  have haround := h.around_lt hscope
  unfold declareAround FunctionShape.aroundDeclarations
  cases shape.kind with
  | declaration =>
      cases shape.name with
      | none => exact .pure h trivial
      | some name =>
          refine .look rfl (.bind { declared := [_] } {}
            (walks_declare h (Nat.lt_of_le_of_lt (h.hoisting_le haround) haround) id name .function)
            fun symbol declared hdeclared _ => ?_)
          exact walks_recordWrite hdeclared.tabled symbol id
  | _ => cases shape.name <;> exact .pure h trivial

theorem walks_declareImplicit {builder : ScopeBuilder} (h : builder.graph.Tabled tree)
    {scope : Nat} (hscope : scope < builder.graph.scopes.size) (id : NodeId)
    (shape : FunctionShape) :
    Walks tree { declared := shape.implicitDeclarations id scope } builder
      (declareImplicit tree id scope shape) (fun _ _ => True) := by
  unfold declareImplicit FunctionShape.implicitDeclarations
  cases shape.isArrow with
  | true => exact .pure h trivial
  | false =>
      refine .bind { declared := [_] } { declared := [_] }
        (walks_declare h hscope id "this" .this_) fun _ first hfirst _ => ?_
      exact walks_declareNew hfirst.tabled (Nat.lt_of_lt_of_le hscope hfirst.grows.scopes_le) id
        "arguments" .arguments

theorem walks_declareOwnName {builder : ScopeBuilder} (h : builder.graph.Tabled tree)
    {scope : Nat} (hscope : scope < builder.graph.scopes.size) (id : NodeId)
    (shape : FunctionShape) :
    Walks tree { declared := shape.ownNameDeclarations id scope } builder
      (declareOwnName tree id scope shape) (fun _ _ => True) := by
  unfold declareOwnName FunctionShape.ownNameDeclarations
  cases shape.kind with
  | expression =>
      cases shape.name with
      | none => exact .pure h trivial
      | some name => exact walks_declareNew h hscope id name .function
  | _ => cases shape.name <;> exact .pure h trivial

theorem walks_declareFunction {builder : ScopeBuilder} (h : builder.graph.Tabled tree)
    {scope : Nat} (hscope : scope < builder.graph.scopes.size) (id : NodeId)
    (shape : FunctionShape) :
    Walks tree { declared := tree.functionDeclarations builder.graph id scope shape } builder
      (declareFunction tree id scope shape) (fun _ _ => True) := by
  rw [declareFunction_eq, Tree.functionDeclarations]
  refine .bind { declared := _ } { declared := _ } (walks_declareAround h hscope id shape)
    fun _ outside houtside _ => ?_
  have hlater := Nat.lt_of_lt_of_le hscope houtside.grows.scopes_le
  have hparameters : Walks tree
      { declared := shape.parameters.flatMap (tree.parameterDeclarations scope) } outside
      (shape.parameters.forM (declareParameter tree scope)) (fun _ _ => True) :=
    .forM houtside.tabled fun parameter _ after hafter hgrows =>
      walks_declareParameter hafter (Nat.lt_of_lt_of_le hlater hgrows.scopes_le) parameter
  refine .bind { declared := _ } { declared := _ } hparameters fun _ declared hdeclared _ => ?_
  have hlast := Nat.lt_of_lt_of_le hlater hdeclared.grows.scopes_le
  refine .bind { declared := _ } { declared := _ }
    (walks_declareImplicit hdeclared.tabled hlast id shape) fun _ implicit himplicit _ => ?_
  exact walks_declareOwnName himplicit.tabled
    (Nat.lt_of_lt_of_le hlast himplicit.grows.scopes_le) id shape

theorem walks_openScope {builder : ScopeBuilder} (h : builder.graph.Tabled tree) (node : NodeId)
    {parent : Nat} (hparent : parent < builder.graph.scopes.size) {hoists : Bool}
    (hhoists : (tree.kind node).hoists = hoists) :
    Walks tree { opened := [node] } builder (openScope node (some parent) hoists)
      (fun scope next => scope < next.graph.scopes.size) := by
  let scope : Scope := ⟨node, some parent,
    if hoists then builder.graph.scopes.size else (builder.graph.scope parent).hoisting, [], []⟩
  have htabled : (withScope builder.graph parent scope).Tabled tree :=
    tabled_withScope h hparent rfl rfl rfl (by rw [hhoists])
  have hnodes : (withScope builder.graph parent scope).scopes.toList.map Scope.node =
      builder.graph.scopes.toList.map Scope.node ++ [node] := by
    have hsame : ((builder.graph.scopes.push scope).modify parent fun found =>
        { found with children := found.children ++ [builder.graph.scopes.size] }).toList.map
          Scope.node = (builder.graph.scopes.push scope).toList.map Scope.node := by
      refine List.ext_getElem? fun other => ?_
      simp only [List.getElem?_map, Array.getElem?_toList, Array.getElem?_modify]
      split
      · cases (builder.graph.scopes.push scope)[other]? <;> rfl
      · rfl
    rw [withScope, hsame]
    simp [scope]
  have hsize : builder.graph.scopes.size < (withScope builder.graph parent scope).scopes.size := by
    simp [withScope]
  exact ⟨⟨htabled, extends_withScope _ parent scope, rfl, hnodes, rfl,
    (List.append_nil _).symm, rfl,
    [], by simp, rfl⟩, hsize⟩

theorem walks_scopeInside {builder : ScopeBuilder} (h : builder.graph.Tabled tree) (id : NodeId)
    {around : Nat} (haround : around < builder.graph.scopes.size) :
    Walks tree { opened := [id].filter fun id => (tree.kind id).opensScope } builder
      (scopeInside id around (tree.kind id))
        (fun scope next => scope < next.graph.scopes.size) := by
  rw [List.filter_cons, List.filter_nil]
  cases hkind : tree.kind id with
  | program _ | function _ | block _ | tryStmt _ _ _ | catchClause _ _ | forStmt _ _ _ _ =>
      exact walks_openScope h id haround (by rw [hkind]; rfl)
  | _ => exact .pure h haround

theorem walks_note {builder : ScopeBuilder} (h : builder.graph.Tabled tree)
    (reference : Reference) :
    Walks tree { noted := [reference] } builder (note reference) (fun _ _ => True) :=
  ⟨⟨h, .refl _, rfl, (List.append_nil _).symm, rfl, by
    change (reference :: builder.references).reverse = _
    simp, rfl, [], by simp, rfl⟩, trivial⟩

theorem walks_enter {builder : ScopeBuilder} (h : builder.graph.Tabled tree) (id : NodeId)
    {scope : Nat} (hscope : scope < builder.graph.scopes.size) :
    Walks tree { declared := tree.declarationsAt builder.graph id scope
                 noted := tree.referencesAt id } builder (enter tree id scope)
      (fun _ _ => True) := by
  unfold enter Tree.declarationsAt Tree.referencesAt
  cases tree.kind id with
  | declaration kind declarators => exact walks_declareVariables h hscope kind declarators
  | function shape => exact walks_declareFunction h hscope id shape
  | catchClause parameter body =>
      cases parameter with
      | none => exact .pure h trivial
      | some parameter => exact walks_declareParameter h hscope parameter
  | identifier name => exact walks_note h _
  | thisExpr => exact walks_note h _
  | assign op target value =>
      unfold noteAssignment
      dsimp only
      cases tree.kind target with
      | identifier name => exact walks_note h _
      | _ => exact .pure h trivial
  | _ => exact .pure h trivial

/-- What a node declares does not depend on what is done later. -/
theorem declarationsAt_eq {graph later : ScopeGraph} (h : graph.Tabled tree)
    (hgrows : graph.Extends later) {scope : Nat} (hscope : scope < graph.scopes.size)
    (id : NodeId) :
    tree.declarationsAt later id scope = tree.declarationsAt graph id scope := by
  have haround : (graph.scope scope).parent.getD scope < graph.scopes.size := by
    cases hparent : (graph.scope scope).parent with
    | none => exact hscope
    | some parent => exact Nat.lt_trans (h.parent_lt hparent) hscope
  unfold Tree.declarationsAt Tree.variableDeclarations Tree.functionDeclarations
    FunctionShape.aroundDeclarations
  rw [hgrows.hoisting hscope, hgrows.parent hscope]
  rw [hgrows.hoisting haround]

theorem leaves_withNodeScope {builder : ScopeBuilder} (h : builder.graph.Tabled tree) (id : NodeId)
    (scope : ScopeId) :
    Leaves tree { places := [(id, scope)] } builder (withNodeScope builder id scope) :=
  ⟨h.of_eq rfl rfl h.isMutable, .of_eq rfl rfl, rfl, (List.append_nil _).symm, rfl,
    (List.append_nil _).symm, rfl, [], by simp, rfl⟩

/-! ## The walk from node to node -/

/-- The builder after what a node itself declares and refers to, once its scope is there. -/
def entered (tree : Tree) (id : NodeId) (scope : ScopeId) (opened : ScopeBuilder) : ScopeBuilder :=
  (enter tree id scope (withNodeScope opened id scope)).2

inductive Visits (tree : Tree) : List (NodeId × ScopeId) → ScopeBuilder → ScopeBuilder → Prop
  | nil (builder : ScopeBuilder) : Visits tree [] builder builder
  | cons {id around scope : Nat} {builder opened after : ScopeBuilder}
      {rest : List (NodeId × ScopeId)} (haround : around < builder.graph.scopes.size)
      (hopened : scopeInside id around (tree.kind id) builder = (scope, opened))
      (hrest : Visits tree rest (entered tree id scope opened) after) :
      Visits tree ((id, scope) :: rest) builder after

theorem Visits.append {first second : List (NodeId × ScopeId)} {a b c : ScopeBuilder}
    (h : Visits tree first a b) (hnext : Visits tree second b c) :
    Visits tree (first ++ second) a c := by
  induction h with
  | nil => exact hnext
  | cons haround hopened _ ih => exact .cons haround hopened (ih hnext)

/-- The walk at one node, before it goes on to the parts. -/
theorem leaves_entered {builder opened : ScopeBuilder} (h : builder.graph.Tabled tree)
    {id around scope : Nat} (haround : around < builder.graph.scopes.size)
    (hopened : scopeInside id around (tree.kind id) builder = (scope, opened)) :
    scope < (entered tree id scope opened).graph.scopes.size ∧
      ∀ last, (entered tree id scope opened).graph.Extends last →
        Leaves tree (.through tree last [(id, scope)]) builder (entered tree id scope opened) := by
  obtain ⟨hinside, hlt⟩ := walks_scopeInside h id haround
  rw [hopened] at hinside hlt
  have hplaced := leaves_withNodeScope hinside.tabled id scope
  obtain ⟨hentered, -⟩ := walks_enter hplaced.tabled id hlt
  refine ⟨Nat.lt_of_lt_of_le hlt hentered.grows.scopes_le, fun last hlast => ?_⟩
  have hall := (hinside.trans hplaced).trans hentered
  have hdeclared := declarationsAt_eq hplaced.tabled (hentered.grows.trans hlast) hlt id
  have htrail : Trail.through tree last [(id, scope)] =
      { opened := [id].filter fun id => (tree.kind id).opensScope } ++
        ({ places := [(id, scope)] } : Trail) ++
        { declared := tree.declarationsAt (withNodeScope opened id scope).graph id scope
          noted := tree.referencesAt id } := by
    rw [← hdeclared]
    change _ = Trail.append (Trail.append _ _) _
    simp [Trail.through, Trail.append]
  rw [htrail]
  exact hall

theorem Visits.leaves {places : List (NodeId × ScopeId)} {builder after : ScopeBuilder}
    (hvisits : Visits tree places builder after) (h : builder.graph.Tabled tree)
    {last : ScopeGraph} (hlast : after.graph.Extends last) :
    Leaves tree (.through tree last places) builder after := by
  induction hvisits with
  | nil builder => exact .refl h
  | @cons id around scope builder opened after rest haround hopened hrest ih =>
      have hentered := (leaves_entered h haround hopened).2
      have hbelow := ih (hentered _ (.refl _)).tabled hlast
      rw [← List.singleton_append, Trail.through_append]
      exact (hentered last (hbelow.grows.trans hlast)).trans hbelow

/-- The walk down from a node goes through the nodes below it in preorder. -/
theorem exists_visits (depth : Nat) (id : NodeId) {around : Nat} {builder : ScopeBuilder}
    (h : builder.graph.Tabled tree) (haround : around < builder.graph.scopes.size) :
    ∃ places : List (NodeId × ScopeId), places.map Prod.fst = tree.preorderWithin depth id ∧
      Visits tree places builder (visit tree depth id around builder).2 := by
  induction depth generalizing id around builder with
  | zero => exact ⟨[], rfl, .nil builder⟩
  | succ depth ih =>
      generalize hopened : scopeInside id around (tree.kind id) builder = result
      obtain ⟨scope, opened⟩ := result
      obtain ⟨hscope, hentered⟩ := leaves_entered h haround hopened
      have hparts : ∀ (parts : List NodeId) (next : ScopeBuilder), next.graph.Tabled tree →
          scope < next.graph.scopes.size → ∃ places : List (NodeId × ScopeId),
          places.map Prod.fst = parts.flatMap (tree.preorderWithin depth) ∧
          Visits tree places next
            (parts.forM (fun child => visit tree depth child scope) next).2 := by
        intro parts
        induction parts with
        | nil => exact fun next _ _ => ⟨[], rfl, .nil next⟩
        | cons part rest ihRest =>
            intro next hnext hlt
            obtain ⟨first, hfirst, hvisit⟩ := ih part hnext hlt
            have hvisited := hvisit.leaves hnext (.refl _)
            obtain ⟨others, hothers, hrest⟩ := ihRest _ hvisited.tabled
              (Nat.lt_of_lt_of_le hlt hvisited.grows.scopes_le)
            exact ⟨first ++ others, by rw [List.map_append, hfirst, hothers]; rfl,
              hvisit.append hrest⟩
      obtain ⟨places, hplaces, hvisits⟩ :=
        hparts (tree.children id) _ (hentered _ (.refl _)).tabled hscope
      refine ⟨(id, scope) :: places, congrArg (id :: ·) hplaces, .cons haround hopened ?_⟩
      have hrun : (visit tree (depth + 1) id around builder).2 =
          ((tree.children id).forM (fun child => visit tree depth child scope)
            (entered tree id scope opened)).2 := by
        change ((tree.children id).forM (fun child => visit tree depth child
          (scopeInside id around (tree.kind id) builder).1) (entered tree id
            (scopeInside id around (tree.kind id) builder).1
            (scopeInside id around (tree.kind id) builder).2)).2 = _
        rw [hopened]
      rw [hrun]
      exact hvisits

end ScopeBuilder

end ScriptCheck
