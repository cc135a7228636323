import ScriptCheck.Proofs.Scope.Build

/-!
# The tables of a scope graph

What the scopes and symbols of a graph say can be told from the parents of the scopes and from
the list of what was declared: which scopes a scope has inside, where `var` lands, and which
symbol a name has.
-/

namespace ScriptCheck

def NodeKind.hoists : NodeKind → Bool
  | program _ | function _ => true
  | _ => false

structure Declaration where
  scope : ScopeId
  name : String
  node : NodeId
  kind : SymbolKind
deriving DecidableEq, Repr

/-- Where a declared name is to be found. -/
def Declaration.key (declaration : Declaration) : ScopeId × String :=
  (declaration.scope, declaration.name)

/-- Adds a declaration to others, unless one of them puts the same name in the same scope. -/
def Declaration.enter (entries : List Declaration) (declaration : Declaration) :
    List Declaration :=
  if declaration.key ∈ entries.map key then entries else entries ++ [declaration]

def Symbol.declaration (symbol : Symbol) : Declaration :=
  ⟨symbol.scope, symbol.name, symbol.node, symbol.kind⟩

namespace ScopeGraph

def entries (graph : ScopeGraph) : List Declaration :=
  graph.symbols.toList.map Symbol.declaration

structure Tabled (graph : ScopeGraph) (tree : Tree) : Prop where
  parent_lt : ∀ {scope parent : Nat}, (graph.scope scope).parent = some parent → parent < scope
  children_eq : ∀ scope : Nat, (graph.scope scope).children =
    (List.range graph.scopes.size).filter fun inner => (graph.scope inner).parent = some scope
  hoisting_eq : ∀ scope : Nat, scope < graph.scopes.size → (graph.scope scope).hoisting =
    match (graph.scope scope).parent with
    | none => scope
    | some parent =>
        if (tree.kind (graph.scope scope).node).hoists then scope
        else (graph.scope parent).hoisting
  local?_eq_some_iff : ∀ scope name symbol, graph.local? scope name = some symbol ↔
    ∃ declaration, graph.entries[symbol]? = some declaration ∧ declaration.key = (scope, name)
  isMutable : ∀ symbol ∈ graph.symbols, symbol.mutable = symbol.kind.isMutable

variable {graph later : ScopeGraph} {tree : Tree}

namespace Tabled

/-- The scope around a scope, or the scope itself at the root, is there if the scope is. -/
theorem around_lt (h : graph.Tabled tree) {scope : Nat} (hscope : scope < graph.scopes.size) :
    (graph.scope scope).parent.getD scope < graph.scopes.size := by
  cases hparent : (graph.scope scope).parent with
  | none => exact hscope
  | some parent => exact Nat.lt_trans (h.parent_lt hparent) hscope

theorem hoisting_le (h : graph.Tabled tree) {scope : Nat} (hscope : scope < graph.scopes.size) :
    (graph.scope scope).hoisting ≤ scope := by
  induction scope using Nat.strongRecOn with
  | ind scope ih =>
      rw [h.hoisting_eq scope hscope]
      split
      · exact Nat.le_refl _
      · rename_i parent hparent
        have hlt := h.parent_lt hparent
        split
        · exact Nat.le_refl _
        · exact Nat.le_trans (ih parent hlt (Nat.lt_trans hlt hscope)) (Nat.le_of_lt hlt)

theorem local?_isSome_iff (h : graph.Tabled tree) {scope : ScopeId} {name : String} :
    (graph.local? scope name).isSome ↔ (scope, name) ∈ graph.entries.map Declaration.key := by
  rw [Option.isSome_iff_exists]
  constructor
  · rintro ⟨symbol, hsymbol⟩
    obtain ⟨declaration, hentry, hkey⟩ := (h.local?_eq_some_iff _ _ _).mp hsymbol
    exact hkey ▸ List.mem_map_of_mem (List.mem_of_getElem? hentry)
  · intro hmem
    obtain ⟨declaration, hentry, hkey⟩ := List.mem_map.mp hmem
    obtain ⟨symbol, hsymbol⟩ := List.getElem?_of_mem hentry
    exact ⟨symbol, (h.local?_eq_some_iff _ _ _).mpr ⟨declaration, hsymbol, hkey⟩⟩

/-- A graph with the same scopes and the same entries has the same tables. -/
theorem of_eq (h : graph.Tabled tree) (hscopes : later.scopes = graph.scopes)
    (hentries : later.entries = graph.entries)
    (hmutable : ∀ symbol ∈ later.symbols, symbol.mutable = symbol.kind.isMutable) :
    later.Tabled tree := by
  have hscope : ∀ scope, later.scope scope = graph.scope scope := fun scope => by
    simp only [ScopeGraph.scope, hscopes]
  constructor
  case isMutable => exact hmutable
  all_goals
    simp only [hscope, hscopes, hentries, local?]
  · exact h.parent_lt
  · exact h.children_eq
  · exact h.hoisting_eq
  · exact h.local?_eq_some_iff

end Tabled

end ScopeGraph

namespace ScopeBuilder

open ScopeGraph

variable {graph : ScopeGraph} {tree : Tree}

theorem entries_withSymbol (graph : ScopeGraph) (scope : ScopeId) (symbol : Symbol) :
    (withSymbol graph scope symbol).entries = graph.entries ++ [symbol.declaration] := by
  simp [entries, withSymbol]

theorem scope_withSymbol (graph : ScopeGraph) (scope : ScopeId) (symbol : Symbol) (other : Nat) :
    (withSymbol graph scope symbol).scope other =
      if scope = other ∧ other < graph.scopes.size then
        { graph.scope other with
          symbols := Record.insert symbol.name graph.symbols.size (graph.scope other).symbols }
      else graph.scope other := by
  simp only [withSymbol, ScopeGraph.scope, Array.getD_eq_getD_getElem?, Array.getElem?_modify]
  by_cases heq : scope = other
  · subst heq
    by_cases hlt : scope < graph.scopes.size <;> simp [hlt]
  · simp [heq]

theorem local?_withSymbol_eq {symbol : Symbol} (hscope : symbol.scope < graph.scopes.size)
    (scope : ScopeId) (name : String) :
    (withSymbol graph symbol.scope symbol).local? scope name =
      if symbol.declaration.key = (scope, name) then some graph.symbols.size
      else graph.local? scope name := by
  simp only [local?, Scope.get?, scope_withSymbol, Declaration.key, Symbol.declaration,
    Prod.mk.injEq]
  by_cases heq : symbol.scope = scope
  · subst heq
    simp only [hscope, and_self, if_true, true_and]
    by_cases hname : symbol.name = name
    · subst hname
      simp
    · rw [if_neg hname, Record.get?_insert_of_ne fun h => hname h.symm]
  · simp [heq]

theorem local?_withSymbol_eq_some_iff (h : graph.Tabled tree) {symbol : Symbol}
    (hscope : symbol.scope < graph.scopes.size)
    (hnew : graph.local? symbol.scope symbol.name = none) (scope : ScopeId) (name : String)
    (found : SymbolId) :
    (withSymbol graph symbol.scope symbol).local? scope name = some found ↔
      ∃ declaration, (withSymbol graph symbol.scope symbol).entries[found]? = some declaration ∧
        declaration.key = (scope, name) := by
  have hlength : graph.entries.length = graph.symbols.size := by simp [entries]
  rw [local?_withSymbol_eq hscope, entries_withSymbol, List.getElem?_append, hlength]
  have hold := h.local?_eq_some_iff scope name found
  have hbound : ∀ {declaration}, graph.entries[found]? = some declaration →
      found < graph.symbols.size := fun hentry =>
    hlength ▸ (List.getElem?_eq_some_iff.mp hentry).1
  by_cases hkey : symbol.declaration.key = (scope, name)
  · rw [if_pos hkey]
    have hnone : graph.local? scope name = none := by
      cases hkey
      exact hnew
    constructor
    · rintro ⟨⟩
      exact ⟨symbol.declaration, by simp, hkey⟩
    · rintro ⟨declaration, hentry, hother⟩
      split at hentry
      · rw [hold.mpr ⟨declaration, hentry, hother⟩] at hnone
        cases hnone
      · rename_i hge
        have := (List.getElem?_eq_some_iff.mp hentry).1
        rw [List.length_singleton] at this
        exact congrArg some (by omega)
  · rw [if_neg hkey, hold]
    constructor
    · rintro ⟨declaration, hentry, hother⟩
      exact ⟨declaration, by rw [if_pos (hbound hentry), hentry], hother⟩
    · rintro ⟨declaration, hentry, hother⟩
      split at hentry
      · exact ⟨declaration, hentry, hother⟩
      · have hmem := List.mem_of_getElem? hentry
        cases List.mem_singleton.mp hmem
        exact absurd hother hkey

theorem tabled_withSymbol (h : graph.Tabled tree) {symbol : Symbol}
    (hscope : symbol.scope < graph.scopes.size)
    (hnew : graph.local? symbol.scope symbol.name = none)
    (hmutable : symbol.mutable = symbol.kind.isMutable) :
    (withSymbol graph symbol.scope symbol).Tabled tree := by
  have hsize : (withSymbol graph symbol.scope symbol).scopes.size = graph.scopes.size := by
    simp [withSymbol]
  have hsame : ∀ other, ((withSymbol graph symbol.scope symbol).scope other).parent =
      (graph.scope other).parent ∧ ((withSymbol graph symbol.scope symbol).scope other).children =
      (graph.scope other).children ∧ ((withSymbol graph symbol.scope symbol).scope other).hoisting =
      (graph.scope other).hoisting ∧ ((withSymbol graph symbol.scope symbol).scope other).node =
      (graph.scope other).node := by
    intro other
    rw [scope_withSymbol]
    split <;> exact ⟨rfl, rfl, rfl, rfl⟩
  constructor
  case parent_lt =>
    intro scope parent
    rw [(hsame scope).1]
    exact h.parent_lt
  case children_eq =>
    intro scope
    simp only [(hsame _).1, (hsame _).2.1, hsize]
    exact h.children_eq scope
  case hoisting_eq =>
    intro scope
    simp only [(hsame _).1, (hsame _).2.2.1, (hsame _).2.2.2, hsize]
    exact h.hoisting_eq scope
  case local?_eq_some_iff => exact local?_withSymbol_eq_some_iff h hscope hnew
  case isMutable =>
    intro other hother
    rcases Array.mem_push.mp hother with hother | rfl
    · exact h.isMutable other hother
    · exact hmutable

theorem children_withScope (graph : ScopeGraph) {parent : Nat} (scope : Scope) (other : Nat)
    (hparent : parent < graph.scopes.size) :
    ((withScope graph parent scope).scope other).children =
      if other = graph.scopes.size then scope.children
      else if other = parent then (graph.scope parent).children ++ [graph.scopes.size]
      else (graph.scope other).children := by
  simp only [withScope, ScopeGraph.scope, Array.getD_eq_getD_getElem?, Array.getElem?_modify,
    Array.getElem?_push]
  by_cases hnew : other = graph.scopes.size
  · subst hnew
    rw [if_neg (Nat.ne_of_lt hparent)]
    simp
  · by_cases heq : other = parent
    · subst heq
      simp [hnew, hparent]
    · rw [if_neg fun h => heq h.symm]
      simp [hnew, heq]

theorem parent_withScope_of_lt (graph : ScopeGraph) (parent : Nat) (scope : Scope) {other : Nat}
    (hother : other < graph.scopes.size) :
    ((withScope graph parent scope).scope other).parent = (graph.scope other).parent ∧
      ((withScope graph parent scope).scope other).hoisting = (graph.scope other).hoisting ∧
      ((withScope graph parent scope).scope other).node = (graph.scope other).node := by
  have hfields := scope_withScope graph parent scope other
  rw [if_neg (Nat.ne_of_lt hother)] at hfields
  exact ⟨hfields.1, hfields.2.1, hfields.2.2.2⟩

theorem children_withScope_eq_filter (h : graph.Tabled tree) {parent : Nat}
    (hparent : parent < graph.scopes.size) {scope : Scope} (hscope : scope.parent = some parent)
    (hchildren : scope.children = []) (other : Nat) :
    ((withScope graph parent scope).scope other).children =
      (List.range (graph.scopes.size + 1)).filter fun inner =>
        ((withScope graph parent scope).scope inner).parent = some other := by
  have hnew := (scope_withScope graph parent scope graph.scopes.size).1
  rw [if_pos rfl, hscope] at hnew
  have hrange : (List.range graph.scopes.size).filter (fun inner =>
      ((withScope graph parent scope).scope inner).parent = some other) =
      (List.range graph.scopes.size).filter fun inner => (graph.scope inner).parent = some other :=
    List.filter_congr fun inner hinner => by
      rw [(parent_withScope_of_lt graph parent scope (List.mem_range.mp hinner)).1]
  rw [children_withScope graph scope other hparent, List.range_succ, List.filter_append,
    hrange, ← h.children_eq, List.filter_cons, List.filter_nil, hnew]
  by_cases hlast : other = graph.scopes.size
  · have hnone : (graph.scope other).children = [] := by
      rw [h.children_eq, List.filter_eq_nil_iff]
      intro inner hinner hinside
      have := h.parent_lt (of_decide_eq_true hinside)
      have := List.mem_range.mp hinner
      omega
    have hne : ¬ parent = other := by omega
    rw [if_pos hlast, hchildren, hnone]
    simp [hne]
  · rw [if_neg hlast]
    by_cases heq : other = parent
    · simp [heq]
    · have hne : ¬ parent = other := fun h => heq h.symm
      simp [heq, hne]

theorem tabled_withScope (h : graph.Tabled tree) {parent : Nat}
    (hparent : parent < graph.scopes.size) {scope : Scope} (hscope : scope.parent = some parent)
    (hsymbols : scope.symbols = []) (hchildren : scope.children = [])
    (hhoisting : scope.hoisting = if (tree.kind scope.node).hoists then graph.scopes.size
      else (graph.scope parent).hoisting) : (withScope graph parent scope).Tabled tree := by
  have hsize : (withScope graph parent scope).scopes.size = graph.scopes.size + 1 := by
    simp [withScope]
  have hfields := scope_withScope graph parent scope
  have hold := @parent_withScope_of_lt graph parent scope
  have hnew := hfields graph.scopes.size
  rw [if_pos rfl] at hnew
  constructor
  case parent_lt =>
    intro other found hfound
    rw [(hfields other).1] at hfound
    split at hfound
    · cases hscope.symm.trans hfound
      omega
    · exact h.parent_lt hfound
  case children_eq =>
    intro other
    rw [hsize]
    exact children_withScope_eq_filter h hparent hscope hchildren other
  case hoisting_eq =>
    intro other hother
    rw [hsize] at hother
    rcases Nat.lt_or_eq_of_le (Nat.le_of_lt_succ hother) with hlt | rfl
    · rw [(hold hlt).1, (hold hlt).2.1, (hold hlt).2.2, h.hoisting_eq other hlt]
      split
      · rfl
      · rename_i outer houter
        rw [(hold (Nat.lt_trans (h.parent_lt houter) hlt)).2.1]
    · rw [hnew.1, hnew.2.1, hnew.2.2.2, hscope, hhoisting]
      dsimp only
      rw [(hold hparent).2.1]
  case local?_eq_some_iff =>
    intro other name symbol
    have hlocal : (withScope graph parent scope).local? other name = graph.local? other name := by
      simp only [local?, Scope.get?, (hfields other).2.2.1]
      split
      · rename_i heq
        subst heq
        simp [hsymbols, ScopeGraph.scope]
        rfl
      · rfl
    rw [hlocal]
    exact h.local?_eq_some_iff other name symbol
  case isMutable => exact h.isMutable

end ScopeBuilder

end ScriptCheck
