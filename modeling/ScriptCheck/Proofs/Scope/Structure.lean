import ScriptCheck.Proofs.Scope.Whole

/-!
# The structure of scopes

The scopes of a program and what is in them, said without the walk that makes them: a node
stands in the scope of the innermost node around it that has one, `var` lands in the nearest
scope of a function or of the program, and a name is in a scope exactly if something there
declares it, the first that does.
-/

namespace ScriptCheck

inductive Tree.Contains (tree : Tree) : NodeId → NodeId → Prop
  | refl (id : NodeId) : Contains tree id id
  | step {outer inner part : NodeId} : Contains tree outer inner → part ∈ tree.children inner →
      Contains tree outer part

structure Tree.Innermost (tree : Tree) (opener id : NodeId) : Prop where
  opens : (tree.kind opener).opensScope
  contains : tree.Contains opener id
  innermost : ∀ other, (tree.kind other).opensScope → tree.Contains other id →
    tree.Contains other opener

namespace Declaration

theorem find?_enter (entries : List Declaration) (declaration : Declaration)
    (key : ScopeId × String) : (enter entries declaration).find? (·.key = key) =
      (entries ++ [declaration]).find? (·.key = key) := by
  unfold enter
  split
  · rename_i hmem
    rw [List.find?_append]
    cases hfound : entries.find? (·.key = key) with
    | some found => rfl
    | none =>
        have hne : declaration.key ≠ key := by
          rintro rfl
          obtain ⟨entry, hentry, hkey⟩ := List.mem_map.mp hmem
          exact List.find?_eq_none.mp hfound entry hentry (by simpa using hkey)
        simp [hne]
  · rfl

theorem find?_foldl_enter (declarations entries : List Declaration) (key : ScopeId × String) :
    (declarations.foldl enter entries).find? (·.key = key) =
      (entries ++ declarations).find? (·.key = key) := by
  induction declarations generalizing entries with
  | nil => simp
  | cons declaration rest ih =>
      rw [List.foldl_cons, ih, List.find?_append, find?_enter, ← List.find?_append,
        List.append_assoc, List.singleton_append]

end Declaration

namespace ScopeGraph

variable {graph : ScopeGraph} {tree : Tree} {globals : List String}

/-- Whether `var` lands in a scope: that of a function, of the program or of the global names. -/
def IsHoisting (graph : ScopeGraph) (tree : Tree) (scope : ScopeId) : Prop :=
  scope = globalScope ∨ (tree.kind (graph.scope scope).node).hoists

structure HoistsTo (graph : ScopeGraph) (tree : Tree) (scope target : ScopeId) : Prop where
  within : graph.Within scope target
  isHoisting : graph.IsHoisting tree target
  nearest : ∀ outer, graph.Within scope outer → graph.IsHoisting tree outer →
    graph.Within target outer

/-- The scopes of a tree and the names in them.  Scopes are numbered as their nodes are met in
preorder, behind the global one. -/
structure Structures (graph : ScopeGraph) (tree : Tree) (globals : List String) : Prop where
  nodes_eq : graph.scopes.toList.map Scope.node =
    tree.root :: (tree.preorder tree.root).filter fun id => (tree.kind id).opensScope
  parent_global : (graph.scope globalScope).parent = none
  exists_parent : ∀ scope : Nat, 0 < scope → scope < graph.scopes.size → ∃ parent < scope,
    (graph.scope scope).parent = some parent ∧
      ∀ outer, (graph.scope outer).children.count scope = if outer = parent then 1 else 0
  parent_root : (graph.scope (graph.scopeOf tree.root)).parent = some globalScope
  parent_part : ∀ id < tree.size, ∀ part ∈ tree.children id, (tree.kind part).opensScope →
    (graph.scope (graph.scopeOf part)).parent = some (graph.scopeOf id)
  scopeOf_node : ∀ scope : Nat, 0 < scope → scope < graph.scopes.size →
    graph.scopeOf (graph.scope scope).node = scope
  scopeOf : ∀ id < tree.size, 0 < graph.scopeOf id ∧ graph.scopeOf id < graph.scopes.size ∧
    tree.Innermost (graph.scope (graph.scopeOf id)).node id
  hoisting : ∀ scope < graph.scopes.size, graph.HoistsTo tree scope (graph.scope scope).hoisting
  local?_isSome_iff : ∀ scope name, (graph.local? scope name).isSome ↔
    ∃ declaration ∈ tree.declarations graph globals,
      declaration.scope = scope ∧ declaration.name = name
  local?_eq_some_iff : ∀ scope name symbol, graph.local? scope name = some symbol ↔
    symbol < graph.symbols.size ∧ (graph.symbol symbol).scope = scope ∧
      (graph.symbol symbol).name = name
  first : ∀ symbol < graph.symbols.size,
    (tree.declarations graph globals).find? (·.key = (graph.symbol symbol).declaration.key) =
      some (graph.symbol symbol).declaration

/-! ## The scopes of nodes -/

theorem StandsIn.parent_eq {id around : Nat} (h : graph.StandsIn tree id around)
    (hopens : (tree.kind id).opensScope) :
    (graph.scope (graph.scopeOf id)).parent = some around := by
  unfold StandsIn IsInside at h
  rwa [if_pos hopens] at h

theorem StandsIn.scopeOf_eq {id around : Nat} (h : graph.StandsIn tree id around)
    (hopens : ¬ (tree.kind id).opensScope) : graph.scopeOf id = around := by
  unfold StandsIn IsInside at h
  rwa [if_neg hopens] at h

namespace IsGraphOf

variable (hwell : tree.WellFormed) (h : graph.IsGraphOf tree globals)

include hwell h

theorem exists_standsIn {id : Nat} (hid : id < tree.size) : ∃ around,
    graph.StandsIn tree id around := by
  by_cases hroot : id = tree.root
  · exact ⟨globalScope, hroot ▸ h.describes.root⟩
  · obtain ⟨outer, hcount, -⟩ := hwell.existsUnique_parent hid hroot
    have hchild : id ∈ tree.children outer := List.count_pos_iff.mp (by omega)
    exact ⟨_, h.describes.child outer (Tree.size_gt_of_mem_children hchild) id hchild⟩

/-- Scopes other than the global one belong to one node each. -/
theorem scopeOf_node {scope : Nat} (hpos : 0 < scope) (hlt : scope < graph.scopes.size) :
    (graph.scope scope).node < tree.size ∧ (tree.kind (graph.scope scope).node).opensScope ∧
      graph.scopeOf (graph.scope scope).node = scope := by
  have hnode : ∀ other : Nat, 0 < other → other < graph.scopes.size →
      ((tree.preorder tree.root).filter fun id => (tree.kind id).opensScope)[other - 1]? =
        some (graph.scope other).node := by
    intro other hother hotherLt
    have hlist := congrArg (·[other]?) h.nodes_eq
    obtain ⟨before, rfl⟩ : ∃ before, other = before + 1 := ⟨other - 1, by omega⟩
    simp only [List.getElem?_map, Array.getElem?_toList, List.getElem?_cons_succ] at hlist
    rw [Nat.add_sub_cancel, ← hlist]
    simp [ScopeGraph.scope, hotherLt]
  have hmem := List.mem_filter.mp (List.mem_of_getElem? (hnode scope hpos hlt))
  have hid := hwell.mem_preorder_root.mp hmem.1
  obtain ⟨around, hstands⟩ := h.exists_standsIn hwell hid
  have hparent := hstands.parent_eq hmem.2
  obtain ⟨hotherLt, hsame⟩ := h.describes.opened _ hid hmem.2
  have hother : 0 < graph.scopeOf (graph.scope scope).node :=
    Nat.lt_of_le_of_lt (Nat.zero_le _) (h.tabled.parent_lt hparent)
  refine ⟨hid, hmem.2, ?_⟩
  have hnodup := hwell.nodup_preorder_root.filter fun id => (tree.kind id).opensScope
  have hfirst := hnode _ hother hotherLt
  rw [hsame, ← hnode scope hpos hlt] at hfirst
  have hbound : graph.scopeOf (graph.scope scope).node - 1 <
      ((tree.preorder tree.root).filter fun id => (tree.kind id).opensScope).length :=
    (List.getElem?_eq_some_iff.mp (hfirst.trans (hnode scope hpos hlt))).1
  exact Nat.sub_one_cancel hother hpos ((List.getElem?_inj hbound hnodup).mp hfirst)

theorem parent_eq_none_iff {scope : Nat} (hlt : scope < graph.scopes.size) :
    (graph.scope scope).parent = none ↔ scope = globalScope := by
  constructor
  · intro hnone
    by_contra hne
    have hpos : 0 < scope := Nat.pos_of_ne_zero hne
    obtain ⟨hid, hopens, hscope⟩ := h.scopeOf_node hwell hpos hlt
    obtain ⟨around, hstands⟩ := h.exists_standsIn hwell hid
    have hparent := hstands.parent_eq hopens
    rw [hscope, hnone] at hparent
    cases hparent
  · rintro rfl
    cases hparent : (graph.scope globalScope).parent with
    | none => rfl
    | some parent => exact absurd (h.tabled.parent_lt hparent) (Nat.not_lt_zero parent)

theorem exists_parent {scope : Nat} (hpos : 0 < scope) (hlt : scope < graph.scopes.size) :
    ∃ parent < scope, (graph.scope scope).parent = some parent ∧
      ∀ outer, (graph.scope outer).children.count scope = if outer = parent then 1 else 0 := by
  cases hparent : (graph.scope scope).parent with
  | none =>
      have := (h.parent_eq_none_iff hwell hlt).mp hparent
      exact absurd hpos (this ▸ Nat.lt_irrefl _)
  | some parent =>
      refine ⟨parent, h.tabled.parent_lt hparent, rfl, fun outer => ?_⟩
      rw [h.tabled.children_eq]
      split
      · rename_i heq
        rw [List.count_filter (by rw [hparent, heq]; simp)]
        exact List.count_eq_one_of_mem List.nodup_range (List.mem_range.mpr hlt)
      · rename_i hne
        refine List.count_eq_zero.mpr fun hmem => hne ?_
        have hinside := of_decide_eq_true (List.mem_filter.mp hmem).2
        exact (Option.some.inj (hparent.symm.trans hinside)).symm

theorem hoistsTo {scope : Nat} (hlt : scope < graph.scopes.size) :
    graph.HoistsTo tree scope (graph.scope scope).hoisting := by
  induction scope using Nat.strongRecOn with
  | ind scope ih =>
      rw [h.tabled.hoisting_eq scope hlt]
      cases hparent : (graph.scope scope).parent with
      | none =>
          have hglobal := (h.parent_eq_none_iff hwell hlt).mp hparent
          exact ⟨.refl _, .inl hglobal, fun _ hwithin _ => hwithin⟩
      | some parent =>
          dsimp only
          split
          · rename_i hhoists
            exact ⟨.refl _, .inr hhoists, fun _ hwithin _ => hwithin⟩
          · rename_i hnot
            have hparentLt := h.tabled.parent_lt hparent
            obtain ⟨hwithin, hhoisting, hnearest⟩ :=
              ih parent hparentLt (Nat.lt_trans hparentLt hlt)
            refine ⟨.step hparent hwithin, hhoisting, fun outer houter hhoists => ?_⟩
            cases houter with
            | refl =>
                rcases hhoists with rfl | hhoists
                · exact absurd hparentLt (Nat.not_lt_zero parent)
                · exact absurd hhoists hnot
            | step haround hrest =>
                cases hparent.symm.trans haround
                exact hnearest outer hrest hhoists

theorem innermost {id : Nat} (hid : id < tree.size) :
    0 < graph.scopeOf id ∧ graph.scopeOf id < graph.scopes.size ∧
      tree.Innermost (graph.scope (graph.scopeOf id)).node id := by
  by_cases hopens : (tree.kind id).opensScope
  · obtain ⟨hlt, hnode⟩ := h.describes.opened id hid hopens
    obtain ⟨around, hstands⟩ := h.exists_standsIn hwell hid
    refine ⟨Nat.lt_of_le_of_lt (Nat.zero_le _)
      (h.tabled.parent_lt (hstands.parent_eq hopens)), hlt, ?_⟩
    rw [hnode]
    exact ⟨hopens, .refl id, fun _ _ hcontains => hcontains⟩
  · have hroot : id ≠ tree.root := fun heq => hopens (heq ▸ hwell.opensScope_root)
    obtain ⟨outer, hcount, hunique⟩ := hwell.existsUnique_parent hid hroot
    have hchild : id ∈ tree.children outer := List.count_pos_iff.mp (by omega)
    have houter := Tree.size_gt_of_mem_children hchild
    have hlt := hwell.child_lt houter hchild
    obtain ⟨hpos, hsize, hinner⟩ := innermost houter
    rw [(h.describes.child outer houter id hchild).scopeOf_eq hopens]
    refine ⟨hpos, hsize, hinner.opens, hinner.contains.step hchild,
      fun other hother hcontains => ?_⟩
    cases hcontains with
    | refl => exact absurd hother hopens
    | step hcontains hpart =>
        cases hunique _ hpart
        exact hinner.innermost other hother hcontains
termination_by tree.size - id

end IsGraphOf

/-! ## The names in the scopes -/

namespace IsGraphOf

variable (h : graph.IsGraphOf tree globals)

include h

theorem local?_eq_some_iff (scope : ScopeId) (name : String) (symbol : SymbolId) :
    graph.local? scope name = some symbol ↔ symbol < graph.symbols.size ∧
      (graph.symbol symbol).scope = scope ∧ (graph.symbol symbol).name = name := by
  rw [h.tabled.local?_eq_some_iff]
  by_cases hlt : symbol < graph.symbols.size
  · have hentry : graph.entries[symbol]? = some (graph.symbol symbol).declaration := by
      simp [entries, ScopeGraph.symbol, hlt]
    simp [hentry, Declaration.key, Symbol.declaration, hlt]
  · have hnone : graph.entries[symbol]? = none := by
      simp [entries, Nat.le_of_not_lt hlt]
    simp [hnone, hlt]

theorem find?_declarations (key : ScopeId × String) :
    (tree.declarations graph globals).find? (·.key = key) = graph.entries.find? (·.key = key) := by
  rw [h.entries_eq, Declaration.find?_foldl_enter, List.nil_append]

theorem local?_isSome_iff (scope : ScopeId) (name : String) : (graph.local? scope name).isSome ↔
    ∃ declaration ∈ tree.declarations graph globals,
      declaration.scope = scope ∧ declaration.name = name := by
  have hentries : (scope, name) ∈ graph.entries.map Declaration.key ↔
      (graph.entries.find? (·.key = (scope, name))).isSome := by
    simp [List.find?_isSome]
  rw [h.tabled.local?_isSome_iff, hentries, ← h.find?_declarations, List.find?_isSome]
  simp [Declaration.key]

/-- A symbol is what the first declaration of its name in its scope makes. -/
theorem first {symbol : Nat} (hlt : symbol < graph.symbols.size) :
    (tree.declarations graph globals).find? (·.key = (graph.symbol symbol).declaration.key) =
      some (graph.symbol symbol).declaration := by
  have hentry : graph.entries[symbol]? = some (graph.symbol symbol).declaration := by
    simp [entries, ScopeGraph.symbol, hlt]
  rw [h.find?_declarations]
  cases hfound : graph.entries.find? (·.key = (graph.symbol symbol).declaration.key) with
  | none =>
      exact absurd (List.find?_eq_none.mp hfound _ (List.mem_of_getElem? hentry)) (by simp)
  | some found =>
      have hkey : found.key = (graph.symbol symbol).declaration.key := by
        simpa using List.find?_some hfound
      obtain ⟨other, hother⟩ := List.getElem?_of_mem (List.mem_of_find?_eq_some hfound)
      have hfirst := (h.tabled.local?_eq_some_iff _ _ other).mpr ⟨found, hother, hkey⟩
      have hsecond := (h.tabled.local?_eq_some_iff _ _ symbol).mpr ⟨_, hentry, rfl⟩
      cases hfirst.symm.trans hsecond
      exact hother.symm.trans hentry

end IsGraphOf

/-- **The scope graph of a program is its scope structure.** -/
theorem structures_of_ofTokens {tokens : List Token} {file : String} {tree : Tree}
    (hparse : Tree.ofTokens tokens file = .ok tree) (globals : List String)
    (diagnostics : Diagnostics) :
    (ScopeGraph.build tree globals diagnostics).1.Structures tree globals := by
  have hwell := Tree.wellFormed_of_ofTokens hparse
  have h := isGraphOf_build hwell globals diagnostics
  have hpositive : 0 < (ScopeGraph.build tree globals diagnostics).1.scopes.size := by
    have := congrArg List.length h.nodes_eq
    simp at this
    omega
  have hroot : tree.root < tree.size := by
    rw [hwell.size_eq]
    exact Nat.lt_succ_self _
  exact {
    nodes_eq := h.nodes_eq
    parent_global := (h.parent_eq_none_iff hwell hpositive).mpr rfl
    exists_parent := fun _ hpos hlt => h.exists_parent hwell hpos hlt
    parent_root := h.describes.root.parent_eq hwell.opensScope_root
    parent_part := fun id hid part hpart hopens =>
      (h.describes.child id hid part hpart).parent_eq hopens
    scopeOf_node := fun _ hpos hlt => (h.scopeOf_node hwell hpos hlt).2.2
    scopeOf := fun _ hid => h.innermost hwell hid
    hoisting := fun _ hlt => h.hoistsTo hwell hlt
    local?_isSome_iff := h.local?_isSome_iff
    local?_eq_some_iff := h.local?_eq_some_iff
    first := fun _ hlt => h.first hlt }

/-- A script with scopes of every kind, in which `last` is hoisted out of two of them. -/
def nestedScopes : String :=
  "function f(a) \x7b for (let i = 0; a; i = a) \x7b var last = i; \x7d " ++
    "try \x7b f(last); \x7d catch (e) \x7b const g = x => e; \x7d \x7d"

def nestedParents : List (Option ScopeId) :=
  [none, some 0, some 1, some 2, some 3, some 4, some 3, some 6, some 6, some 8, some 9]

def nestedNames : List (String × ScopeId) :=
  [("Math", 0), ("f", 1), ("a", 2), ("this", 2), ("arguments", 2), ("i", 4), ("last", 2),
    ("e", 8), ("g", 9), ("x", 10)]

theorem structures_nestedScopes :
    ∃ tokens tree, Tree.ofTokens tokens "" = .ok tree ∧
      let graph := (ScopeGraph.build tree ["Math"] (.empty true)).1
      graph.scopes.toList.map Scope.parent = nestedParents ∧
        graph.symbols.toList.map (fun symbol => (symbol.name, symbol.scope)) = nestedNames ∧
        graph.Structures tree ["Math"] := by
  let tokens := (Lexer.tokenize nestedScopes).toOption.getD []
  have hread : ((Tree.ofTokens tokens "").toOption.any fun tree =>
      let graph := (ScopeGraph.build tree ["Math"] (.empty true)).1
      decide (graph.scopes.toList.map Scope.parent = nestedParents ∧
        graph.symbols.toList.map (fun symbol => (symbol.name, symbol.scope)) = nestedNames))
          = true := by
    decide +kernel
  cases htree : Tree.ofTokens tokens "" with
  | error halt =>
      rw [htree] at hread
      cases hread
  | ok tree =>
      rw [htree] at hread
      obtain ⟨hparents, hsymbols⟩ := of_decide_eq_true hread
      exact ⟨tokens, tree, htree, hparents, hsymbols, structures_of_ofTokens htree ["Math"] _⟩

end ScopeGraph

end ScriptCheck
