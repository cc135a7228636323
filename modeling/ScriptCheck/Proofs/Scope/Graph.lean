import ScriptCheck.Scope.Basic
import ScriptCheck.Proofs.Tree.Layout

/-!
# Scope graphs

What it means that a scope lies inside another and that a node stands in a scope,
which graphs are regular, and which changes keep what is known about a graph.
-/

namespace ScriptCheck

def NodeKind.opensScope : NodeKind → Bool
  | program _ | function _ | block _ | tryStmt .. | catchClause .. | forStmt .. => true
  | _ => false

/-- Whether what a node of a kind declares is visible around it.  The own name of a
function expression is not. -/
def NodeKind.declaresOutside : NodeKind → Bool
  | function shape => shape.kind = .declaration
  | _ => true

theorem Tree.WellFormed.opensScope_root {tree : Tree} (h : tree.WellFormed) :
    (tree.kind tree.root).opensScope := by
  obtain ⟨body, hbody⟩ := h.program
  rw [hbody]
  rfl

namespace ScopeGraph

/-- The first scope is the second or lies inside it. -/
inductive Within (graph : ScopeGraph) : Nat → Nat → Prop
  | refl (scope : Nat) : Within graph scope scope
  | step {scope parent outer : Nat} (around : (graph.scope scope).parent = some parent)
      (rest : Within graph parent outer) : Within graph scope outer

def IsInside (graph : ScopeGraph) (kind : NodeKind) (scope around : Nat) : Prop :=
  if kind.opensScope then (graph.scope scope).parent = some around else scope = around

/-- The scope around a node: the parent of the scope that the node opens, or the scope
at the node if it opens none. -/
def StandsIn (graph : ScopeGraph) (tree : Tree) (node scope : Nat) : Prop :=
  graph.IsInside (tree.kind node) (graph.scopeOf node) scope

def OpenedBy (graph : ScopeGraph) (tree : Tree) (node : Nat) : Prop :=
  (tree.kind node).opensScope → graph.scopeOf node < graph.scopes.size ∧
    (graph.scope (graph.scopeOf node)).node = node

def DeclaresIn (graph : ScopeGraph) (node scope : Nat) : Prop :=
  ∀ symbol, graph.declared? node = some symbol → symbol < graph.symbols.size ∧
    graph.Within scope (graph.symbol symbol).scope ∧ 0 < (graph.symbol symbol).scope

/-- The tables of a graph agree with one another. -/
structure Regular (graph : ScopeGraph) (globals : List String) : Prop where
  parent_lt : ∀ {scope parent : Nat}, (graph.scope scope).parent = some parent → parent < scope
  hoisting_within : ∀ {scope : Nat}, 0 < scope → scope < graph.scopes.size →
    graph.Within scope (graph.scope scope).hoisting ∧ 0 < (graph.scope scope).hoisting
  entry : ∀ {scope : Nat} {name : String} {symbol : SymbolId},
    graph.local? scope name = some symbol →
      symbol < graph.symbols.size ∧ (graph.symbol symbol).scope = scope
  global : ∀ {name : String} {symbol : SymbolId},
    graph.local? globalScope name = some symbol → name ∈ globals

structure Extends (graph later : ScopeGraph) : Prop where
  scopes_le : graph.scopes.size ≤ later.scopes.size
  node : ∀ {scope : Nat}, scope < graph.scopes.size →
    (later.scope scope).node = (graph.scope scope).node
  parent : ∀ {scope : Nat}, scope < graph.scopes.size →
    (later.scope scope).parent = (graph.scope scope).parent
  hoisting : ∀ {scope : Nat}, scope < graph.scopes.size →
    (later.scope scope).hoisting = (graph.scope scope).hoisting
  symbols_le : graph.symbols.size ≤ later.symbols.size
  symbolScope : ∀ {symbol : Nat}, symbol < graph.symbols.size →
    (later.symbol symbol).scope = (graph.symbol symbol).scope

/-- A symbol can be used in a scope: it belongs to a scope around, the global one only if its
name is global. -/
structure Visible (graph : ScopeGraph) (globals : List String) (scope : Nat)
    (symbol : SymbolId) : Prop where
  within : graph.Within scope (graph.symbol symbol).scope
  global : (graph.symbol symbol).scope = globalScope →
    ∃ name ∈ globals, graph.local? globalScope name = some symbol

/-- A graph tells for every node of a tree in which scope it stands, and the symbols that
nodes declare and refer to belong to scopes around them. -/
structure Describes (graph : ScopeGraph) (tree : Tree) (globals : List String) : Prop where
  regular : graph.Regular globals
  root : graph.StandsIn tree tree.root globalScope
  child : ∀ node : Nat, node < tree.size → ∀ part ∈ tree.children node,
    graph.StandsIn tree part (graph.scopeOf node)
  opened : ∀ node : Nat, node < tree.size → graph.OpenedBy tree node
  declares : ∀ node : Nat, node < tree.size → (tree.kind node).declaresOutside →
    ∀ scope, graph.StandsIn tree node scope → graph.DeclaresIn node scope
  resolves : ∀ node symbol, graph.resolved? node = some symbol →
    graph.Visible globals (graph.scopeOf node) symbol

variable {graph later last : ScopeGraph} {tree : Tree} {globals : List String}

theorem scope_lt_of_parent {scope parent : Nat}
    (h : (graph.scope scope).parent = some parent) : scope < graph.scopes.size := by
  by_cases hlt : scope < graph.scopes.size
  · exact hlt
  · have hnone : graph.scope scope = default := by
      simp [ScopeGraph.scope, Array.getElem?_eq_none (Nat.le_of_not_lt hlt)]
    rw [hnone] at h
    cases h

/-- Where parents come first, what is around a scope does not come after it. -/
theorem Within.le {scope outer : Nat} (h : graph.Within scope outer)
    (hparent : ∀ {inner parent : Nat}, (graph.scope inner).parent = some parent → parent < inner) :
    outer ≤ scope := by
  induction h with
  | refl => exact Nat.le_refl _
  | step haround _ ih => exact Nat.le_trans ih (Nat.le_of_lt (hparent haround))

theorem Within.eq_or_of_parent {scope parent outer : Nat} (h : graph.Within scope outer)
    (hparent : (graph.scope scope).parent = some parent) :
    outer = scope ∨ graph.Within parent outer := by
  cases h with
  | refl => exact .inl rfl
  | step haround hrest =>
      cases hparent.symm.trans haround
      exact .inr hrest

theorem StandsIn.unique {node first second : Nat} (h : graph.StandsIn tree node first)
    (hother : graph.StandsIn tree node second) : first = second := by
  unfold StandsIn IsInside at h hother
  split at h
  · rename_i hopens
    rw [if_pos hopens] at hother
    exact Option.some.inj (h.symm.trans hother)
  · rename_i hopens
    rw [if_neg hopens] at hother
    exact h.symm.trans hother

theorem IsInside.bounds (h : graph.Regular globals) {kind : NodeKind} {scope around : Nat}
    (hinside : graph.IsInside kind scope around) (hlt : around < graph.scopes.size) :
    around ≤ scope ∧ scope < graph.scopes.size := by
  unfold IsInside at hinside
  split at hinside
  · exact ⟨Nat.le_of_lt (h.parent_lt hinside), scope_lt_of_parent hinside⟩
  · subst hinside
    exact ⟨Nat.le_refl _, hlt⟩

/-- A name is found in a scope around the one where the search begins. -/
theorem within_of_lookup? {scope : Nat} {name : String} {symbol : SymbolId}
    (h : graph.lookup? scope name = some symbol) :
    ∃ outer, graph.Within scope outer ∧ graph.local? outer name = some symbol := by
  induction scope using Nat.strongRecOn with
  | ind scope ih =>
      rw [lookup?] at h
      cases hlocal : graph.local? scope name with
      | some found =>
          rw [hlocal] at h
          cases h
          exact ⟨scope, .refl scope, hlocal⟩
      | none =>
          rw [hlocal] at h
          cases hparent : (graph.scope scope).parent with
          | none => simp [hparent] at h
          | some parent =>
              simp only [hparent] at h
              split at h
              · rename_i hlt
                obtain ⟨outer, hwithin, hfound⟩ := ih parent hlt h
                exact ⟨outer, .step hparent hwithin, hfound⟩
              · cases h

namespace Extends

theorem refl (graph : ScopeGraph) : graph.Extends graph :=
  ⟨Nat.le_refl _, fun _ => rfl, fun _ => rfl, fun _ => rfl, Nat.le_refl _, fun _ => rfl⟩

theorem of_eq (hscopes : later.scopes = graph.scopes) (hsymbols : later.symbols = graph.symbols) :
    graph.Extends later := by
  have hscope : ∀ scope, later.scope scope = graph.scope scope := fun scope => by
    simp only [ScopeGraph.scope, hscopes]
  have hsymbol : ∀ symbol, later.symbol symbol = graph.symbol symbol := fun symbol => by
    simp only [ScopeGraph.symbol, hsymbols]
  exact ⟨Nat.le_of_eq (by rw [hscopes]), fun _ => by rw [hscope], fun _ => by rw [hscope],
    fun _ => by rw [hscope], Nat.le_of_eq (by rw [hsymbols]), fun _ => by rw [hsymbol]⟩

theorem trans (h : graph.Extends later) (hlast : later.Extends last) : graph.Extends last where
  scopes_le := Nat.le_trans h.scopes_le hlast.scopes_le
  node hscope := by
    rw [hlast.node (Nat.lt_of_lt_of_le hscope h.scopes_le), h.node hscope]
  parent hscope := by
    rw [hlast.parent (Nat.lt_of_lt_of_le hscope h.scopes_le), h.parent hscope]
  hoisting hscope := by
    rw [hlast.hoisting (Nat.lt_of_lt_of_le hscope h.scopes_le), h.hoisting hscope]
  symbols_le := Nat.le_trans h.symbols_le hlast.symbols_le
  symbolScope hsymbol := by
    rw [hlast.symbolScope (Nat.lt_of_lt_of_le hsymbol h.symbols_le), h.symbolScope hsymbol]

theorem parent_eq_some (h : graph.Extends later) {scope parent : Nat}
    (hparent : (graph.scope scope).parent = some parent) :
    (later.scope scope).parent = some parent := by
  rw [h.parent (scope_lt_of_parent hparent), hparent]

theorem within (h : graph.Extends later) {inner outer : Nat} (hwithin : graph.Within inner outer) :
    later.Within inner outer := by
  induction hwithin with
  | refl scope => exact .refl scope
  | step haround _ ih => exact .step (h.parent_eq_some haround) ih

theorem isInside (h : graph.Extends later) {kind : NodeKind} {scope around : Nat}
    (hinside : graph.IsInside kind scope around) : later.IsInside kind scope around := by
  unfold IsInside at hinside ⊢
  split
  · rename_i hopens
    rw [if_pos hopens] at hinside
    exact h.parent_eq_some hinside
  · rename_i hopens
    rwa [if_neg hopens] at hinside

theorem standsIn (h : graph.Extends later) {node scope : Nat}
    (hscope : later.scopeOf node = graph.scopeOf node) (hstands : graph.StandsIn tree node scope) :
    later.StandsIn tree node scope := by
  unfold StandsIn
  rw [hscope]
  exact h.isInside hstands

theorem openedBy (h : graph.Extends later) {node : Nat}
    (hscope : later.scopeOf node = graph.scopeOf node) (hopened : graph.OpenedBy tree node) :
    later.OpenedBy tree node := by
  intro hopens
  obtain ⟨hlt, hnode⟩ := hopened hopens
  rw [hscope, h.node hlt]
  exact ⟨Nat.lt_of_lt_of_le hlt h.scopes_le, hnode⟩

theorem declaresIn (h : graph.Extends later) {node scope : Nat}
    (hsame : later.declared? node = graph.declared? node)
    (hdeclares : graph.DeclaresIn node scope) :
    later.DeclaresIn node scope := by
  intro symbol hsymbol
  rw [hsame] at hsymbol
  obtain ⟨hlt, hwithin, hpos⟩ := hdeclares symbol hsymbol
  rw [h.symbolScope hlt]
  exact ⟨Nat.lt_of_lt_of_le hlt h.symbols_le, h.within hwithin, hpos⟩

end Extends

/-- What a node declares can be used where it is declared. -/
theorem DeclaresIn.visible {node scope : Nat} (h : graph.DeclaresIn node scope)
    {symbol : SymbolId} (hsymbol : graph.declared? node = some symbol) :
    graph.Visible globals scope symbol := by
  obtain ⟨-, hwithin, hpos⟩ := h symbol hsymbol
  refine ⟨hwithin, fun hzero => ?_⟩
  rw [hzero] at hpos
  exact absurd hpos (Nat.lt_irrefl _)

end ScopeGraph

end ScriptCheck
