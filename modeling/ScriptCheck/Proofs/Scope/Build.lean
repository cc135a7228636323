import ScriptCheck.Proofs.Scope.Graph
import ScriptCheck.Scope.Build

/-!
# The walk builds a regular graph

What a step of the walk over a tree does to the graph: it may open scopes, add
symbols and mark nodes as declaring them, and it keeps the tables in agreement.
-/

namespace ScriptCheck.ScopeBuilder

open ScopeGraph

variable {α β : Type} {globals : List String} {tree : Tree}

/-- A step of the walk.  The nodes that it marks as declaring a symbol are told by
`marks`, each with the scope of its symbol. -/
structure Steps (globals : List String) (marks : Nat → Nat → Prop)
    (before after : ScopeBuilder) : Prop where
  regular : after.graph.Regular globals
  grows : before.graph.Extends after.graph
  nodeScopes : after.graph.nodeScopes = before.graph.nodeScopes
  resolutions : after.graph.resolutions = before.graph.resolutions
  declared : ∀ node, after.graph.declared? node = before.graph.declared? node ∨
    ∃ symbol, after.graph.declared? node = some symbol ∧ symbol < after.graph.symbols.size ∧
      marks node (after.graph.symbol symbol).scope

/-- Running `step` from a builder is a step of the walk, and gives what `Q` says. -/
def Does (globals : List String) (marks : Nat → Nat → Prop) (builder : ScopeBuilder)
    (step : Build α) (Q : α → ScopeBuilder → Prop) : Prop :=
  Steps globals marks builder (step builder).2 ∧ Q (step builder).1 (step builder).2

namespace Steps

variable {marks : Nat → Nat → Prop} {a b c : ScopeBuilder}

theorem refl (h : a.graph.Regular globals) : Steps globals marks a a :=
  ⟨h, .refl _, rfl, rfl, fun _ => .inl rfl⟩

theorem trans (h : Steps globals marks a b) (hnext : Steps globals marks b c) :
    Steps globals marks a c := by
  refine ⟨hnext.regular, h.grows.trans hnext.grows, hnext.nodeScopes.trans h.nodeScopes,
    hnext.resolutions.trans h.resolutions, fun node => ?_⟩
  rcases hnext.declared node with hsame | hmarked
  · rcases h.declared node with hfirst | ⟨symbol, hsymbol, hlt, hmarks⟩
    · exact .inl (hsame.trans hfirst)
    · refine .inr ⟨symbol, hsame.trans hsymbol, Nat.lt_of_lt_of_le hlt hnext.grows.symbols_le, ?_⟩
      rwa [hnext.grows.symbolScope hlt]
  · exact .inr hmarked

theorem mono {more : Nat → Nat → Prop} (h : Steps globals marks a b)
    (hmore : ∀ node scope, marks node scope → more node scope) : Steps globals more a b := by
  refine ⟨h.regular, h.grows, h.nodeScopes, h.resolutions, fun node => ?_⟩
  rcases h.declared node with hsame | ⟨symbol, hsymbol, hlt, hmarks⟩
  · exact .inl hsame
  · exact .inr ⟨symbol, hsymbol, hlt, hmore node _ hmarks⟩

end Steps

namespace Does

variable {marks : Nat → Nat → Prop} {builder : ScopeBuilder} {Q : α → ScopeBuilder → Prop}
  {R : β → ScopeBuilder → Prop}

theorem pure (h : builder.graph.Regular globals) {a : α} (hQ : Q a builder) :
    Does globals marks builder (Pure.pure a) Q :=
  ⟨.refl h, hQ⟩

theorem bind {step : Build α} {f : α → Build β} (hstep : Does globals marks builder step Q)
    (hf : ∀ a next, Steps globals marks builder next → Q a next →
      Does globals marks next (f a) R) : Does globals marks builder (step >>= f) R := by
  obtain ⟨hrest, hR⟩ := hf _ _ hstep.1 hstep.2
  exact ⟨hstep.1.trans hrest, hR⟩

theorem mono {more : Nat → Nat → Prop} {step : Build α} {Q' : α → ScopeBuilder → Prop}
    (h : Does globals marks builder step Q)
    (hmore : ∀ node scope, marks node scope → more node scope)
    (hQ : ∀ a next, Q a next → Q' a next) : Does globals more builder step Q' :=
  ⟨h.1.mono hmore, hQ _ _ h.2⟩

/-- A list of steps, each of which may rely on those before it. -/
theorem forM {items : List α} {f : α → Build Unit} (hregular : builder.graph.Regular globals)
    (hf : ∀ a ∈ items, ∀ next, Steps globals marks builder next →
      Does globals marks next (f a) (fun _ _ => True)) :
    Does globals marks builder (items.forM f) (fun _ _ => True) := by
  induction items generalizing builder with
  | nil => exact .pure hregular trivial
  | cons item rest ih =>
      refine (hf item List.mem_cons_self builder (.refl hregular)).bind fun _ next hnext _ => ?_
      refine ih hnext.regular fun a ha after hafter => ?_
      exact hf a (List.mem_cons_of_mem item ha) after (hnext.trans hafter)

end Does

/-! ## Changes of the graph -/

theorem getD_modify_parent (scopes : Array Scope) (scope other : Nat) (f : Scope → Scope)
    (hf : ∀ s, (f s).node = s.node ∧ (f s).parent = s.parent ∧ (f s).hoisting = s.hoisting) :
    ((scopes.modify scope f).getD other default).node = (scopes.getD other default).node ∧
      ((scopes.modify scope f).getD other default).parent = (scopes.getD other default).parent ∧
        ((scopes.modify scope f).getD other default).hoisting =
          (scopes.getD other default).hoisting := by
  rw [Array.getD_eq_getD_getElem?, Array.getElem?_modify]
  split
  · rename_i heq
    subst heq
    cases hfound : scopes[scope]? <;> simp [hfound, hf]
  · simp

/-- A builder that differs in its references and diagnostics only. -/
theorem does_report (builder : ScopeBuilder) (h : builder.graph.Regular globals)
    (marks : Nat → Nat → Prop) (node : NodeId) (problem : Problem) :
    Does globals marks builder (report tree node problem) (fun _ _ => True) :=
  ⟨⟨h, .refl _, rfl, rfl, fun _ => .inl rfl⟩, trivial⟩

theorem does_note (builder : ScopeBuilder) (h : builder.graph.Regular globals)
    (marks : Nat → Nat → Prop) (reference : Reference) :
    Does globals marks builder (note reference) (fun _ _ => True) :=
  ⟨⟨h, .refl _, rfl, rfl, fun _ => .inl rfl⟩, trivial⟩

theorem regular_of_same_scopes {graph later : ScopeGraph} (h : graph.Regular globals)
    (hscopes : later.scopes = graph.scopes) (hsize : graph.symbols.size ≤ later.symbols.size)
    (hsymbols : ∀ {symbol : Nat}, symbol < graph.symbols.size →
      (later.symbol symbol).scope = (graph.symbol symbol).scope) : later.Regular globals := by
  have hscope : ∀ scope, later.scope scope = graph.scope scope := by
    intro scope
    simp only [ScopeGraph.scope, hscopes]
  have hgrows : graph.Extends later :=
    ⟨Nat.le_of_eq (by rw [hscopes]), fun _ => by rw [hscope], fun _ => by rw [hscope],
      fun _ => by rw [hscope], hsize, hsymbols⟩
  refine ⟨fun hparent => ?_, fun hpos hlt => ?_, fun hlocal => ?_, fun hlocal => ?_⟩
  · rw [hscope] at hparent
    exact h.parent_lt hparent
  · rw [hscopes] at hlt
    rw [hscope]
    obtain ⟨hwithin, hhoisting⟩ := h.hoisting_within hpos hlt
    exact ⟨hgrows.within hwithin, hhoisting⟩
  · rw [local?, hscope] at hlocal
    obtain ⟨hlt, hsymbol⟩ := h.entry hlocal
    exact ⟨Nat.lt_of_lt_of_le hlt hsize, by rw [hsymbols hlt, hsymbol]⟩
  · rw [local?, hscope] at hlocal
    exact h.global hlocal

theorem scope_symbol_recordWrite (builder : ScopeBuilder) (symbol : SymbolId) (value : NodeId)
    (other : SymbolId) :
    ((recordWrite symbol value builder).2.graph.symbol other).scope =
      (builder.graph.symbol other).scope := by
  change ((builder.graph.symbols.modify symbol _).getD other default).scope = _
  by_cases heq : symbol = other
  · subst heq
    by_cases hlt : symbol < builder.graph.symbols.size
    · simp [ScopeGraph.symbol, hlt, Array.getElem_modify]
    · have hnone : builder.graph.symbols[symbol]? = none :=
        Array.getElem?_eq_none (Nat.le_of_not_lt hlt)
      simp [ScopeGraph.symbol, hnone, Array.getElem?_modify]
  · simp [ScopeGraph.symbol, Array.getElem?_modify, heq]

theorem does_recordWrite (builder : ScopeBuilder) (h : builder.graph.Regular globals)
    (marks : Nat → Nat → Prop) (symbol : SymbolId) (value : NodeId) :
    Does globals marks builder (recordWrite symbol value) (fun _ _ => True) := by
  have hsymbols := scope_symbol_recordWrite builder symbol value
  have hsize : (recordWrite symbol value builder).2.graph.symbols.size =
      builder.graph.symbols.size := by
    change (builder.graph.symbols.modify symbol _).size = _
    simp
  refine ⟨⟨?_, ⟨Nat.le_refl _, fun _ => rfl, fun _ => rfl, fun _ => rfl, Nat.le_of_eq hsize.symm,
    fun _ => hsymbols _⟩, rfl, rfl, fun _ => .inl rfl⟩, trivial⟩
  exact regular_of_same_scopes h rfl (Nat.le_of_eq hsize.symm) fun _ => hsymbols _

theorem does_markDeclared (builder : ScopeBuilder) (h : builder.graph.Regular globals)
    (node : NodeId) (kind : SymbolKind) {symbol : SymbolId}
    (hsymbol : symbol < builder.graph.symbols.size) :
    Does globals (fun marked scope => marked = node ∧ kind.isDeclaredByNode ∧
        scope = (builder.graph.symbol symbol).scope) builder (markDeclared node kind symbol)
      (fun _ next => next.graph.symbol = builder.graph.symbol ∧
        next.graph.symbols.size = builder.graph.symbols.size) := by
  unfold markDeclared
  split
  · rename_i hkind
    refine ⟨⟨regular_of_same_scopes h rfl (Nat.le_refl _) fun _ => rfl, .of_eq rfl rfl,
      rfl, rfl, fun other => ?_⟩, rfl, rfl⟩
    change (builder.graph.declarations.setIfInBounds node (some symbol)).getD other none = _ ∨
      ∃ found, (builder.graph.declarations.setIfInBounds node (some symbol)).getD other none =
        some found ∧ _
    by_cases heq : node = other
    · subst heq
      by_cases hlt : node < builder.graph.declarations.size
      · exact .inr ⟨symbol, by simp [hlt], hsymbol, rfl, hkind, rfl⟩
      · exact .inl (by simp [ScopeGraph.declared?, hlt])
    · exact .inl (by simp [ScopeGraph.declared?, heq])
  · exact ⟨.refl h, rfl, rfl⟩

def withSymbol (graph : ScopeGraph) (scope : ScopeId) (symbol : Symbol) : ScopeGraph :=
  { graph with
    symbols := graph.symbols.push symbol
    scopes := graph.scopes.modify scope fun found =>
      { found with symbols := Record.insert symbol.name graph.symbols.size found.symbols } }

theorem symbol_withSymbol_of_lt {graph : ScopeGraph} {other : Nat}
    (h : other < graph.symbols.size) (scope : ScopeId) (symbol : Symbol) :
    (withSymbol graph scope symbol).symbol other = graph.symbol other := by
  have hne : other ≠ graph.symbols.size := Nat.ne_of_lt h
  simp [withSymbol, ScopeGraph.symbol, Array.getElem?_push, hne]

theorem symbol_withSymbol_self (graph : ScopeGraph) (scope : ScopeId) (symbol : Symbol) :
    (withSymbol graph scope symbol).symbol graph.symbols.size = symbol := by
  simp [withSymbol, ScopeGraph.symbol]

theorem extends_withSymbol (graph : ScopeGraph) (scope : ScopeId) (symbol : Symbol) :
    graph.Extends (withSymbol graph scope symbol) where
  scopes_le := by simp [withSymbol]
  node _ := by
    dsimp only [withSymbol, ScopeGraph.scope]
    refine (getD_modify_parent graph.scopes scope _ _ ?_).1
    exact fun _ => ⟨rfl, rfl, rfl⟩
  parent _ := by
    dsimp only [withSymbol, ScopeGraph.scope]
    refine (getD_modify_parent graph.scopes scope _ _ ?_).2.1
    exact fun _ => ⟨rfl, rfl, rfl⟩
  hoisting _ := by
    dsimp only [withSymbol, ScopeGraph.scope]
    refine (getD_modify_parent graph.scopes scope _ _ ?_).2.2
    exact fun _ => ⟨rfl, rfl, rfl⟩
  symbols_le := by simp [withSymbol]
  symbolScope h := by rw [symbol_withSymbol_of_lt h]

/-- A name of the enlarged graph is the new one or one that was there. -/
theorem local?_withSymbol {graph : ScopeGraph} {scope other : Nat} {symbol : Symbol}
    {name : String} {found : SymbolId}
    (h : (withSymbol graph scope symbol).local? other name = some found) :
    (other = scope ∧ name = symbol.name ∧ found = graph.symbols.size) ∨
      graph.local? other name = some found := by
  change Record.get? name ((graph.scopes.modify scope _).getD other default).symbols = _ at h
  by_cases heq : scope = other
  · subst heq
    by_cases hlt : scope < graph.scopes.size
    · by_cases hname : name = symbol.name
      · subst hname
        simp [hlt, Array.getElem_modify] at h
        exact .inl ⟨rfl, rfl, h.symm⟩
      · simp only [Array.getD_eq_getD_getElem?, Array.size_modify, hlt, getElem?_pos,
          Array.getElem_modify, Option.getD_some, if_true] at h
        rw [Record.get?_insert_of_ne hname] at h
        exact .inr (by simpa [local?, Scope.get?, ScopeGraph.scope, hlt] using h)
    · have hnone : graph.scopes[scope]? = none := Array.getElem?_eq_none (Nat.le_of_not_lt hlt)
      exact .inr (by
        simpa [local?, Scope.get?, ScopeGraph.scope, Array.getElem?_modify, hnone] using h)
  · exact .inr (by
      simpa [local?, Scope.get?, ScopeGraph.scope, Array.getElem?_modify, heq] using h)

theorem regular_withSymbol {graph : ScopeGraph} (h : graph.Regular globals) {scope : Nat}
    {symbol : Symbol} (hscope : symbol.scope = scope)
    (hglobal : scope = globalScope → symbol.name ∈ globals) :
    (withSymbol graph scope symbol).Regular globals := by
  have hgrows := extends_withSymbol graph scope symbol
  have hsize : (withSymbol graph scope symbol).scopes.size = graph.scopes.size := by
    simp [withSymbol]
  refine ⟨fun hparent => ?_, fun hpos hlt => ?_, fun hlocal => ?_, fun hlocal => ?_⟩
  · have hlt := scope_lt_of_parent hparent
    rw [hsize] at hlt
    rw [hgrows.parent hlt] at hparent
    exact h.parent_lt hparent
  · rw [hsize] at hlt
    rw [hgrows.hoisting hlt]
    obtain ⟨hwithin, hhoisting⟩ := h.hoisting_within hpos hlt
    exact ⟨hgrows.within hwithin, hhoisting⟩
  · rcases local?_withSymbol hlocal with ⟨rfl, -, rfl⟩ | hold
    · rw [symbol_withSymbol_self]
      exact ⟨by simp [withSymbol], hscope⟩
    · obtain ⟨hlt, hsymbol⟩ := h.entry hold
      rw [symbol_withSymbol_of_lt hlt]
      exact ⟨Nat.lt_of_lt_of_le hlt hgrows.symbols_le, hsymbol⟩
  · rcases local?_withSymbol hlocal with ⟨hzero, rfl, -⟩ | hold
    · exact hglobal hzero.symm
    · exact h.global hold

def withScope (graph : ScopeGraph) (parent : ScopeId) (scope : Scope) : ScopeGraph :=
  { graph with
    scopes := (graph.scopes.push scope).modify parent fun found =>
      { found with children := found.children ++ [graph.scopes.size] } }

theorem scope_withScope (graph : ScopeGraph) (parent : ScopeId) (scope : Scope) (other : Nat) :
    let found := (withScope graph parent scope).scope other
    let expected := if other = graph.scopes.size then scope else graph.scope other
    found.parent = expected.parent ∧ found.hoisting = expected.hoisting ∧
      found.symbols = expected.symbols ∧ found.node = expected.node := by
  have hpush : (graph.scopes.push scope).getD other default =
      if other = graph.scopes.size then scope else graph.scope other := by
    by_cases heq : other = graph.scopes.size
    · simp [heq]
    · simp [Array.getElem?_push, heq, ScopeGraph.scope]
  rw [← hpush]
  dsimp only [withScope, ScopeGraph.scope]
  rw [Array.getD_eq_getD_getElem?, Array.getElem?_modify]
  split
  · rename_i heq
    subst heq
    cases hfound : (graph.scopes.push scope)[parent]? <;> simp [hfound]
  · simp

theorem extends_withScope (graph : ScopeGraph) (parent : ScopeId) (scope : Scope) :
    graph.Extends (withScope graph parent scope) where
  scopes_le := by simp [withScope]
  node hlt := by
    rw [(scope_withScope graph parent scope _).2.2.2, if_neg (Nat.ne_of_lt hlt)]
  parent hlt := by
    rw [(scope_withScope graph parent scope _).1, if_neg (Nat.ne_of_lt hlt)]
  hoisting hlt := by
    rw [(scope_withScope graph parent scope _).2.1, if_neg (Nat.ne_of_lt hlt)]
  symbols_le := Nat.le_refl _
  symbolScope _ := rfl

theorem regular_withScope {graph : ScopeGraph} (h : graph.Regular globals) {parent : Nat}
    (hparent : parent < graph.scopes.size) {scope : Scope} (hscope : scope.parent = some parent)
    (hempty : scope.symbols = [])
    (hhoisting : scope.hoisting = graph.scopes.size ∨
      (0 < parent ∧ scope.hoisting = (graph.scope parent).hoisting)) :
    (withScope graph parent scope).Regular globals := by
  have hgrows := extends_withScope graph parent scope
  have hnew : ((withScope graph parent scope).scope graph.scopes.size).parent = some parent := by
    rw [(scope_withScope graph parent scope _).1, if_pos rfl, hscope]
  have hlocal : ∀ {other name symbol},
      (withScope graph parent scope).local? other name = some symbol →
        graph.local? other name = some symbol := by
    intro other name symbol hfound
    rw [local?, Scope.get?, (scope_withScope graph parent scope other).2.2.1] at hfound
    split at hfound
    · rw [hempty] at hfound
      cases hfound
    · exact hfound
  refine ⟨fun {other} {found} hfound => ?_, fun {other} hpos hlt => ?_, fun hfound => ?_,
    fun hfound => h.global (hlocal hfound)⟩
  · rw [(scope_withScope graph parent scope other).1] at hfound
    split at hfound
    · rename_i heq
      rw [hscope] at hfound
      cases hfound
      omega
    · exact h.parent_lt hfound
  · rw [(scope_withScope graph parent scope other).2.1]
    split
    · rename_i heq
      subst heq
      rcases hhoisting with hself | ⟨hparentPos, hsame⟩
      · rw [hself]
        exact ⟨.refl _, hpos⟩
      · rw [hsame]
        obtain ⟨hwithin, hhoistingPos⟩ := h.hoisting_within hparentPos hparent
        exact ⟨.step hnew (hgrows.within hwithin), hhoistingPos⟩
    · rename_i hne
      have hold : other < graph.scopes.size := by
        simp [withScope] at hlt
        omega
      obtain ⟨hwithin, hhoistingPos⟩ := h.hoisting_within hpos hold
      exact ⟨hgrows.within hwithin, hhoistingPos⟩
  · exact h.entry (hlocal hfound)

theorem does_openScope (builder : ScopeBuilder) (h : builder.graph.Regular globals)
    (marks : Nat → Nat → Prop) (node : NodeId) {parent : Nat}
    (hparent : parent < builder.graph.scopes.size) (hoists : Bool)
    (hhoists : hoists ∨ 0 < parent) :
    Does globals marks builder (openScope node (some parent) hoists)
      (fun opened next => (next.graph.scope opened).parent = some parent ∧
        opened < next.graph.scopes.size ∧ (next.graph.scope opened).node = node) := by
  let scope : Scope := ⟨node, some parent,
    if hoists then builder.graph.scopes.size else (builder.graph.scope parent).hoisting, [], []⟩
  have hregular : (withScope builder.graph parent scope).Regular globals := by
    refine regular_withScope h hparent rfl rfl ?_
    cases hoists with
    | true => exact .inl rfl
    | false => exact .inr ⟨by simpa using hhoists, rfl⟩
  have hnew : ((withScope builder.graph parent scope).scope builder.graph.scopes.size).parent =
      some parent := by
    rw [(scope_withScope builder.graph parent scope _).1, if_pos rfl]
  have hnode : ((withScope builder.graph parent scope).scope builder.graph.scopes.size).node =
      node := by
    rw [(scope_withScope builder.graph parent scope _).2.2.2, if_pos rfl]
  exact ⟨⟨hregular, extends_withScope _ parent scope, rfl, rfl, fun _ => .inl rfl⟩, hnew,
    scope_lt_of_parent hnew, hnode⟩

/-! ## Declarations -/

theorem does_declare (builder : ScopeBuilder) (h : builder.graph.Regular globals) (scope : Nat)
    (node : NodeId) (name : String) (kind : SymbolKind)
    (hglobal : scope = globalScope → name ∈ globals) :
    Does globals (fun marked home => marked = node ∧ kind.isDeclaredByNode ∧ home = scope) builder
      (declare tree scope node name kind) (fun _ _ => True) := by
  unfold declare
  refine Does.bind (Q := fun found next => next = builder ∧
    found = builder.graph.local? scope name) ⟨.refl h, rfl, rfl⟩ ?_
  rintro found next - ⟨rfl, rfl⟩
  cases hlocal : next.graph.local? scope name with
  | some existing =>
      obtain ⟨hlt, hscope⟩ := h.entry hlocal
      refine (does_report next h _ node _).bind fun _ reported hreported _ => ?_
      have hlt' := Nat.lt_of_lt_of_le hlt hreported.grows.symbols_le
      have hscope' := (hreported.grows.symbolScope hlt).trans hscope
      refine ((does_markDeclared reported hreported.regular node kind hlt').mono ?_
        fun _ _ _ => trivial).bind fun _ marked hmarked _ => .pure hmarked.regular trivial
      rintro marked home ⟨rfl, hkind, rfl⟩
      exact ⟨rfl, hkind, hscope'⟩
  | none =>
      let symbol : Symbol := ⟨name, node, scope, kind, kind.isMutable, []⟩
      refine Does.bind (Q := fun fresh after => after = next ∧
        fresh = next.graph.symbols.size) ⟨.refl h, rfl, rfl⟩ ?_
      rintro fresh after - ⟨rfl, rfl⟩
      have hregular : (withSymbol after.graph scope symbol).Regular globals :=
        regular_withSymbol h rfl hglobal
      refine Does.bind (Q := fun _ added => added.graph = withSymbol after.graph scope symbol) ?_ ?_
      · exact ⟨⟨hregular, extends_withSymbol _ scope symbol, rfl, rfl, fun _ => .inl rfl⟩, rfl⟩
      · intro _ added hadded hgraph
        have hlt : after.graph.symbols.size < added.graph.symbols.size := by
          rw [hgraph]
          simp [withSymbol]
        refine ((does_markDeclared added hadded.regular node kind hlt).mono ?_
          fun _ _ _ => trivial).bind fun _ marked hmarked _ => .pure hmarked.regular trivial
        rintro marked home ⟨rfl, hkind, rfl⟩
        refine ⟨rfl, hkind, ?_⟩
        rw [hgraph, symbol_withSymbol_self]

theorem does_declareNew (builder : ScopeBuilder) (h : builder.graph.Regular globals) (scope : Nat)
    (node : NodeId) (name : String) (kind : SymbolKind)
    (hglobal : scope = globalScope → name ∈ globals) :
    Does globals (fun marked home => marked = node ∧ kind.isDeclaredByNode ∧ home = scope) builder
      (declareNew tree scope node name kind) (fun _ _ => True) := by
  unfold declareNew
  refine Does.bind (Q := fun _ next => next = builder) ⟨.refl h, rfl⟩ ?_
  rintro found next - rfl
  split
  · exact (does_declare next h scope node name kind hglobal).bind fun _ after hafter _ =>
      .pure hafter.regular trivial
  · exact .pure h trivial

theorem does_declareParameter (builder : ScopeBuilder) (h : builder.graph.Regular globals)
    {scope : Nat} (hpos : 0 < scope) (parameter : NodeId) :
    Does globals (fun node home => node = parameter ∧ home = scope) builder
      (declareParameter tree scope parameter) (fun _ _ => True) := by
  unfold declareParameter
  split
  · refine ((does_declare builder h scope parameter _ .parameter ?_).mono
      (fun _ _ hmarks => ⟨hmarks.1, hmarks.2.2⟩) fun _ _ _ => trivial).bind
      fun _ next hnext _ => .pure hnext.regular trivial
    intro hzero
    simp [hzero, globalScope] at hpos
  · exact .pure h trivial

theorem does_declareVariables (builder : ScopeBuilder) (h : builder.graph.Regular globals)
    {scope : Nat} (hpos : 0 < scope) (hlt : scope < builder.graph.scopes.size)
    (kind : DeclarationKind) (declarators : List NodeId) :
    Does globals (fun node home => node ∈ declarators ∧ builder.graph.Within scope home ∧ 0 < home)
      builder (declareVariables tree scope kind declarators) (fun _ _ => True) := by
  unfold declareVariables
  refine .forM h fun declarator hmem next hnext => ?_
  split
  · rename_i name init _
    refine Does.bind (Q := fun hoisting after => after = next ∧
      hoisting = (builder.graph.scope scope).hoisting)
      ⟨.refl hnext.regular, rfl, hnext.grows.hoisting hlt⟩ ?_
    rintro hoisting after - ⟨rfl, rfl⟩
    have htarget : ∀ target, target = (if kind = .var_ then (builder.graph.scope scope).hoisting
        else scope) → builder.graph.Within scope target ∧ 0 < target := by
      rintro target rfl
      split
      · exact h.hoisting_within hpos hlt
      · exact ⟨.refl scope, hpos⟩
    obtain ⟨hwithin, htargetPos⟩ := htarget _ rfl
    refine Does.bind ((does_declare after hnext.regular _ declarator name _ ?_).mono ?_
      fun _ _ hQ => hQ) fun symbol declared hdeclared _ => ?_
    · intro hzero
      rw [hzero] at htargetPos
      simp [globalScope] at htargetPos
    · rintro node home ⟨rfl, -, rfl⟩
      exact ⟨hmem, hwithin, htargetPos⟩
    · cases init with
      | none => exact .pure hdeclared.regular trivial
      | some value => exact does_recordWrite declared hdeclared.regular _ symbol value
  · exact .pure hnext.regular trivial

/-! ## What a function declares, part by part -/

def declareAround (tree : Tree) (id : NodeId) (scope : ScopeId) (shape : FunctionShape) :
    Build Unit :=
  match shape.kind, shape.name with
  | .declaration, some name => do
      let target ← graph? fun graph =>
        (graph.scope ((graph.scope scope).parent.getD scope)).hoisting
      let symbol ← declare tree target id name .function
      recordWrite symbol id
  | _, _ => pure ()

def declareImplicit (tree : Tree) (id : NodeId) (scope : ScopeId) (shape : FunctionShape) :
    Build Unit :=
  if shape.isArrow then pure () else do
    let _ ← declare tree scope id "this" .this_
    declareNew tree scope id "arguments" .arguments

def declareOwnName (tree : Tree) (id : NodeId) (scope : ScopeId) (shape : FunctionShape) :
    Build Unit :=
  match shape.kind, shape.name with
  | .expression, some name => declareNew tree scope id name .function
  | _, _ => pure ()

theorem declareFunction_eq (tree : Tree) (id : NodeId) (scope : ScopeId)
    (shape : FunctionShape) :
    declareFunction tree id scope shape = (do
      declareAround tree id scope shape
      shape.parameters.forM (declareParameter tree scope)
      declareImplicit tree id scope shape
      declareOwnName tree id scope shape) := by
  unfold declareFunction declareAround declareImplicit declareOwnName
  cases shape.kind <;> cases shape.name <;> cases shape.isArrow <;> rfl

theorem does_declareAround (builder : ScopeBuilder) (h : builder.graph.Regular globals)
    {scope around : Nat} (hparent : (builder.graph.scope scope).parent = some around)
    (haround : 0 < around) (id : NodeId) (shape : FunctionShape) :
    Does globals (fun node home => node = id ∧ builder.graph.Within around home ∧ 0 < home)
      builder (declareAround tree id scope shape) (fun _ _ => True) := by
  have haroundLt : around < builder.graph.scopes.size :=
    Nat.lt_trans (h.parent_lt hparent) (scope_lt_of_parent hparent)
  obtain ⟨hwithin, htarget⟩ := h.hoisting_within haround haroundLt
  unfold declareAround
  split
  · rename_i name _ _
    refine Does.bind (Q := fun target next => next = builder ∧
      target = (builder.graph.scope around).hoisting) ⟨.refl h, rfl, ?_⟩ ?_
    · change (builder.graph.scope ((builder.graph.scope scope).parent.getD scope)).hoisting = _
      rw [hparent]
      rfl
    rintro target next - ⟨rfl, rfl⟩
    refine ((does_declare next h _ id name .function ?_).mono ?_ fun _ _ hQ => hQ).bind
      fun symbol declared hdeclared _ => does_recordWrite declared hdeclared.regular _ symbol id
    · intro hzero
      rw [hzero] at htarget
      simp [globalScope] at htarget
    · rintro node home ⟨rfl, -, rfl⟩
      exact ⟨rfl, hwithin, htarget⟩
  · exact .pure h trivial

theorem does_declareImplicit (builder : ScopeBuilder) (h : builder.graph.Regular globals)
    (marks : Nat → Nat → Prop) {scope : Nat} (hscope : scope ≠ globalScope) (id : NodeId)
    (shape : FunctionShape) :
    Does globals marks builder (declareImplicit tree id scope shape) (fun _ _ => True) := by
  unfold declareImplicit
  split
  · exact .pure h trivial
  · refine ((does_declare builder h scope id "this" .this_
      fun hzero => absurd hzero hscope).mono
      (fun _ _ hmarks => absurd hmarks.2.1 (by simp [SymbolKind.isDeclaredByNode]))
      fun _ _ hQ => hQ).bind fun _ withThis hthis _ => ?_
    exact (does_declareNew withThis hthis.regular scope id "arguments" .arguments
      fun hzero => absurd hzero hscope).mono
      (fun _ _ hmarks => absurd hmarks.2.1 (by simp [SymbolKind.isDeclaredByNode]))
      fun _ _ hQ => hQ

theorem does_declareOwnName (builder : ScopeBuilder) (h : builder.graph.Regular globals)
    {scope : Nat} (hscope : scope ≠ globalScope) (id : NodeId) (shape : FunctionShape) :
    Does globals (fun node _ => node = id ∧ shape.kind = .expression) builder
      (declareOwnName tree id scope shape) (fun _ _ => True) := by
  unfold declareOwnName
  split
  · rename_i name hkind _
    exact (does_declareNew builder h scope id name .function
      fun hzero => absurd hzero hscope).mono (fun _ _ hmarks => ⟨hmarks.1, hkind⟩)
      fun _ _ hQ => hQ
  · exact .pure h trivial

/-- What a function brings: its name is a symbol of a scope around it, unless it is an
expression, and its parameters are symbols of its own scope. -/
theorem does_declareFunction (builder : ScopeBuilder) (h : builder.graph.Regular globals)
    {scope around : Nat} (hparent : (builder.graph.scope scope).parent = some around)
    (haround : 0 < around) (id : NodeId) (shape : FunctionShape) :
    Does globals (fun node home => (node ∈ shape.parameters ∧ home = scope) ∨
        (node = id ∧ (shape.kind = .declaration → builder.graph.Within around home ∧ 0 < home)))
      builder (declareFunction tree id scope shape) (fun _ _ => True) := by
  have hpos : 0 < scope := Nat.lt_of_le_of_lt (Nat.zero_le _) (h.parent_lt hparent)
  have hscope : scope ≠ globalScope := Nat.ne_of_gt hpos
  rw [declareFunction_eq]
  refine ((does_declareAround builder h hparent haround id shape).mono
    (fun node home hmarks => .inr ⟨hmarks.1, fun _ => hmarks.2⟩) fun _ _ hQ => hQ).bind
    fun _ outside houtside _ => ?_
  refine Does.bind (Q := fun _ _ => True) (.forM houtside.regular fun parameter hmem after hafter =>
    (does_declareParameter after hafter.regular hpos parameter).mono ?_ fun _ _ hQ => hQ)
    fun _ declared hdeclared _ => ?_
  · rintro node home ⟨rfl, rfl⟩
    exact .inl ⟨hmem, rfl⟩
  refine (does_declareImplicit declared hdeclared.regular _ hscope id shape).bind
    fun _ implicit himplicit _ => ?_
  refine (does_declareOwnName implicit himplicit.regular hscope id shape).mono ?_ fun _ _ hQ => hQ
  rintro node home ⟨rfl, hkind⟩
  exact .inr ⟨rfl, fun hdeclaration => by simp [hkind] at hdeclaration⟩

end ScriptCheck.ScopeBuilder
