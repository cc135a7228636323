import ScriptCheck.Proofs.Grammar.Naming
import ScriptCheck.Proofs.Scope.Reporting
import ScriptCheck.Proofs.Scope.Structure

/-!
# What names refer to

A name refers to the declaration of the innermost scope around it that declares the name, be
it before or behind.  What is reported of names can be told at each node by itself: whether it
is assigned to, whether anything around it declares its name, and whether that may be changed.
-/

namespace ScriptCheck

namespace ScopeGraph

variable {graph : ScopeGraph} {tree : Tree} {globals : List String}

/-! ## Looking outwards -/

def Declares (graph : ScopeGraph) (tree : Tree) (globals : List String) (scope : ScopeId)
    (name : String) : Prop :=
  ∃ declaration ∈ tree.declarations graph globals,
    declaration.scope = scope ∧ declaration.name = name

structure Nearest (graph : ScopeGraph) (tree : Tree) (globals : List String) (scope : ScopeId)
    (name : String) (outer : ScopeId) : Prop where
  within : graph.Within scope outer
  declares : graph.Declares tree globals outer name
  nearest : ∀ other, graph.Within scope other → graph.Declares tree globals other name →
    graph.Within outer other

theorem Tabled.le_of_within (h : graph.Tabled tree) {scope outer : Nat}
    (hwithin : graph.Within scope outer) : outer ≤ scope := hwithin.le h.parent_lt

theorem Tabled.eq_of_within (h : graph.Tabled tree) {scope outer : Nat}
    (hwithin : graph.Within scope outer) (hback : graph.Within outer scope) : outer = scope :=
  Nat.le_antisymm (h.le_of_within hwithin) (h.le_of_within hback)

theorem Tabled.lookup?_of_parent (h : graph.Tabled tree) {scope parent : ScopeId} {name : String}
    (hlocal : graph.local? scope name = none) (hparent : (graph.scope scope).parent = some parent) :
    graph.lookup? scope name = graph.lookup? parent name := by
  rw [lookup?, hlocal]
  simp only [hparent, if_pos (h.parent_lt hparent)]

theorem lookup?_of_local {scope : ScopeId} {name : String} {symbol : SymbolId}
    (hlocal : graph.local? scope name = some symbol) : graph.lookup? scope name = some symbol := by
  rw [lookup?, hlocal]

/-- A name is found exactly if a scope around has it. -/
theorem Tabled.lookup?_isSome_iff (h : graph.Tabled tree) {scope : ScopeId} {name : String} :
    (graph.lookup? scope name).isSome ↔
      ∃ outer, graph.Within scope outer ∧ (graph.local? outer name).isSome := by
  constructor
  · intro hfound
    obtain ⟨symbol, hsymbol⟩ := Option.isSome_iff_exists.mp hfound
    obtain ⟨outer, hwithin, hlocal⟩ := within_of_lookup? hsymbol
    exact ⟨outer, hwithin, Option.isSome_of_eq_some hlocal⟩
  · rintro ⟨outer, hwithin, hlocal⟩
    induction hwithin with
    | refl scope =>
        obtain ⟨symbol, hsymbol⟩ := Option.isSome_iff_exists.mp hlocal
        exact Option.isSome_of_eq_some (lookup?_of_local hsymbol)
    | @step scope parent outer haround _ ih =>
        cases hscope : graph.local? scope name with
        | some symbol => exact Option.isSome_of_eq_some (lookup?_of_local hscope)
        | none =>
            rw [h.lookup?_of_parent hscope haround]
            exact ih hlocal

/-- What is found is what the innermost scope has that has the name. -/
theorem Tabled.lookup?_eq_some_iff (h : graph.Tabled tree) {scope : ScopeId} {name : String}
    {symbol : SymbolId} :
    graph.lookup? scope name = some symbol ↔
      ∃ outer, graph.Within scope outer ∧ graph.local? outer name = some symbol ∧
        ∀ other, graph.Within scope other → (graph.local? other name).isSome →
          graph.Within outer other := by
  induction scope using Nat.strongRecOn with
  | ind scope ih =>
      cases hlocal : graph.local? scope name with
      | some found =>
          rw [lookup?_of_local hlocal]
          constructor
          · rintro ⟨⟩
            exact ⟨scope, .refl scope, hlocal, fun _ hwithin _ => hwithin⟩
          · rintro ⟨outer, hwithin, hsymbol, hnearest⟩
            have hback := hnearest scope (.refl scope) (Option.isSome_of_eq_some hlocal)
            cases h.eq_of_within hwithin hback
            exact hlocal.symm.trans hsymbol
      | none =>
          cases hparent : (graph.scope scope).parent with
          | none =>
              have hnone : graph.lookup? scope name = none := by
                rw [lookup?, hlocal]
                simp only [hparent]
              rw [hnone]
              constructor
              · rintro ⟨⟩
              · rintro ⟨outer, hwithin, hsymbol, -⟩
                cases hwithin with
                | refl => exact hlocal.symm.trans hsymbol
                | step haround _ => cases hparent.symm.trans haround
          | some parent =>
              rw [h.lookup?_of_parent hlocal hparent, ih parent (h.parent_lt hparent)]
              refine exists_congr fun outer => ?_
              have hstep : ∀ other, (graph.local? other name).isSome →
                  (graph.Within scope other ↔ graph.Within parent other) := by
                intro other hother
                refine ⟨fun hwithin => ?_, .step hparent⟩
                rcases hwithin.eq_or_of_parent hparent with rfl | hrest
                · rw [hlocal] at hother
                  cases hother
                · exact hrest
              constructor
              · rintro ⟨hwithin, hsymbol, hnearest⟩
                exact ⟨.step hparent hwithin, hsymbol, fun other hother hsome =>
                  hnearest other ((hstep other hsome).mp hother) hsome⟩
              · rintro ⟨hwithin, hsymbol, hnearest⟩
                exact ⟨(hstep outer (Option.isSome_of_eq_some hsymbol)).mp hwithin, hsymbol,
                  fun other hother hsome => hnearest other (.step hparent hother) hsome⟩

namespace IsGraphOf

variable (h : graph.IsGraphOf tree globals)

include h

theorem resolved?_of_nameAt {id : NodeId} {name : String} (hname : tree.nameAt id = some name) :
    graph.resolved? id = graph.lookup? (graph.scopeOf id) name := by
  rw [h.resolved?_eq, lookupAt?, hname]
  rfl

theorem local?_eq_some_iff_first (scope : ScopeId) (name : String) (symbol : SymbolId) :
    graph.local? scope name = some symbol ↔ symbol < graph.symbols.size ∧
      (tree.declarations graph globals).find? (·.key = (scope, name)) =
        some (graph.symbol symbol).declaration := by
  rw [h.local?_eq_some_iff]
  refine and_congr_right fun hlt => ⟨?_, fun hfound => ?_⟩
  · rintro ⟨rfl, rfl⟩
    exact h.first hlt
  · have hkey := List.find?_some hfound
    exact Prod.ext_iff.mp (of_decide_eq_true hkey)

theorem resolved?_isSome_iff {id : NodeId} {name : String} (hname : tree.nameAt id = some name) :
    (graph.resolved? id).isSome ↔
      ∃ outer, graph.Within (graph.scopeOf id) outer ∧ graph.Declares tree globals outer name := by
  rw [h.resolved?_of_nameAt hname, h.tabled.lookup?_isSome_iff]
  simp only [h.local?_isSome_iff, Declares]

theorem resolved?_eq_some_iff {id : NodeId} {name : String} (hname : tree.nameAt id = some name)
    (symbol : SymbolId) :
    graph.resolved? id = some symbol ↔
      ∃ outer, graph.Nearest tree globals (graph.scopeOf id) name outer ∧
        symbol < graph.symbols.size ∧
        (tree.declarations graph globals).find? (·.key = (outer, name)) =
          some (graph.symbol symbol).declaration := by
  rw [h.resolved?_of_nameAt hname, h.tabled.lookup?_eq_some_iff]
  refine exists_congr fun outer => ?_
  rw [h.local?_eq_some_iff_first]
  constructor
  · rintro ⟨hwithin, hfirst, hnearest⟩
    have hsome := Option.isSome_of_eq_some ((h.local?_eq_some_iff_first _ _ _).mpr hfirst)
    exact ⟨⟨hwithin, (h.local?_isSome_iff _ _).mp hsome, fun other hother hdeclares =>
      hnearest other hother ((h.local?_isSome_iff _ _).mpr hdeclares)⟩, hfirst⟩
  · rintro ⟨hnearest, hfirst⟩
    exact ⟨hnearest.within, hfirst, fun other hother hsome =>
      hnearest.nearest other hother ((h.local?_isSome_iff _ _).mp hsome)⟩

end IsGraphOf

end ScopeGraph

/-! ## What is reported of names -/

def Tree.isTarget (tree : Tree) (id : NodeId) : Bool :=
  (List.range tree.size).any fun other =>
    match tree.kind other with
    | .assign _ target _ => target = id
    | _ => false

namespace ScopeGraph

/-- What is wrong with the name at a node, if anything. -/
def problemAt? (graph : ScopeGraph) (tree : Tree) (id : NodeId) : Option Problem :=
  match tree.kind id, graph.resolved? id with
  | .identifier name, none =>
      some (if tree.isTarget id then .assignToUndeclared name else .unresolvedIdentifier name)
  | .identifier name, some symbol =>
      if tree.isTarget id ∧ (graph.symbol symbol).mutable = false then
        some (.assignToConstant name)
      else none
  | _, _ => none

/-- What is reported of the name at a node, if anything. -/
def diagnosticAt? (graph : ScopeGraph) (tree : Tree) (id : NodeId) : Option Diagnostic :=
  (graph.problemAt? tree id).map fun problem =>
    .ofProblem (tree.start id).location problem []

end ScopeGraph

theorem Tree.isTarget_iff (tree : Tree) (id : NodeId) :
    tree.isTarget id = true ↔ ∃ other op value, tree.kind other = .assign op id value := by
  unfold isTarget
  rw [List.any_eq_true]
  constructor
  · rintro ⟨other, -, hother⟩
    split at hother
    · rename_i op target value hkind
      cases of_decide_eq_true hother
      exact ⟨other, op, value, hkind⟩
    · cases hother
  · rintro ⟨other, op, value, hkind⟩
    have hchild : id ∈ tree.children other := by simp [Tree.children, hkind, NodeKind.children]
    exact ⟨other, List.mem_range.mpr (Tree.size_gt_of_mem_children hchild), by simp [hkind]⟩

namespace ScopeGraph

open ScopeBuilder

variable {graph : ScopeGraph} {tree : Tree} {globals : List String}

def noted (graph : ScopeGraph) (tree : Tree) (id : NodeId) : List (NodeId × Problem) :=
  (tree.referencesAt id).flatMap (graph.problems (targets tree.references))

/-- The problem at a node, with the node. -/
def found (graph : ScopeGraph) (tree : Tree) (id : NodeId) : List (NodeId × Problem) :=
  (graph.problemAt? tree id).toList.map (id, ·)

/-- A name is written by some reference exactly if it is assigned to. -/
theorem contains_targets (hwell : tree.WellFormed) {id : NodeId} {name : String}
    (hkind : tree.kind id = .identifier name) :
    (targets tree.references).contains id = tree.isTarget id := by
  rw [Bool.eq_iff_iff, tree.isTarget_iff, List.contains_iff_mem]
  unfold targets Tree.references
  rw [List.mem_filterMap]
  constructor
  · rintro ⟨reference, hmem, hnode⟩
    obtain ⟨other, -, href⟩ := List.mem_flatMap.mp hmem
    unfold Tree.referencesAt at href
    split at href
    · cases List.mem_singleton.mp href
      cases hnode
    · cases List.mem_singleton.mp href
      cases hnode
    · rename_i op target value hassign
      split at href
      · cases List.mem_singleton.mp href
        cases hnode
        exact ⟨other, op, value, hassign⟩
      · cases href
    · cases href
  · rintro ⟨other, op, value, hassign⟩
    have hchild : id ∈ tree.children other := by simp [Tree.children, hassign, NodeKind.children]
    refine ⟨.write id name (if op.binary?.isSome then other else value),
      List.mem_flatMap.mpr ⟨other, ?_, ?_⟩, rfl⟩
    · exact hwell.mem_preorder_root.mpr (Tree.size_gt_of_mem_children hchild)
    · simp [Tree.referencesAt, hassign, hkind]

namespace IsGraphOf

variable (h : graph.IsGraphOf tree globals) (hwell : tree.WellFormed)

include h

/-- The problem of an assignment to a name is that of the name. -/
theorem noted_assign {id target value : NodeId} {op : AssignOp} {name : String}
    (hkind : tree.kind id = .assign op target value)
    (htarget : tree.kind target = .identifier name) :
    graph.noted tree id = graph.found tree target := by
  have hname : tree.nameAt target = some name := by simp [Tree.nameAt, htarget]
  have hresolved := h.resolved?_of_nameAt hname
  have hwritten : tree.isTarget target = true :=
    (tree.isTarget_iff target).mpr ⟨id, op, value, hkind⟩
  unfold noted found problemAt?
  simp only [Tree.referencesAt, hkind, htarget, List.flatMap_singleton, problems, ← hresolved]
  cases graph.resolved? target with
  | none => simp [writeProblems, hwritten]
  | some symbol => cases hmutable : (graph.symbol symbol).mutable <;>
        simp [writeProblems, hwritten, hmutable]

include hwell

omit h in
/-- A name that is assigned to is not read. -/
theorem noted_target {id : NodeId} {name : String} (hkind : tree.kind id = .identifier name)
    (htarget : tree.isTarget id = true) : graph.noted tree id = [] := by
  have hwritten := contains_targets hwell hkind
  simp only [noted, Tree.referencesAt, hkind, List.flatMap_singleton, problems, hwritten, htarget,
    if_true]

theorem noted_identifier {id : NodeId} {name : String} (hkind : tree.kind id = .identifier name)
    (htarget : tree.isTarget id = false) (hname : name ≠ "this") :
    graph.noted tree id = graph.found tree id := by
  have hnamed : tree.nameAt id = some name := by simp [Tree.nameAt, hkind]
  have hresolved := h.resolved?_of_nameAt hnamed
  have hwritten := contains_targets hwell hkind
  unfold noted found problemAt?
  simp only [Tree.referencesAt, hkind, List.flatMap_singleton, problems, hwritten, htarget,
    ← hresolved]
  cases graph.resolved? id <;> simp [readProblems, hname]

omit h hwell in
theorem found_of_not_identifier {id : NodeId} (hkind : ∀ name, tree.kind id ≠ .identifier name) :
    graph.found tree id = [] := by
  unfold found problemAt?
  split
  · rename_i hidentifier _
    exact absurd hidentifier (hkind _)
  · rename_i hidentifier _
    exact absurd hidentifier (hkind _)
  · rfl

omit h hwell in
/-- A node that is no name, and assigns to none, has no problem. -/
theorem noted_other {id : NodeId} (hkind : ∀ name, tree.kind id ≠ .identifier name)
    (hassign : ∀ op target value name, tree.kind id = .assign op target value →
      tree.kind target ≠ .identifier name) : graph.noted tree id = [] := by
  unfold noted Tree.referencesAt
  split
  · rename_i name hidentifier
    exact absurd hidentifier (hkind name)
  · simp only [List.flatMap_singleton, problems]
    split
    · rfl
    · cases graph.lookup? (graph.scopeOf id) "this" <;> simp [readProblems]
  · rename_i op target value hkind
    split
    · rename_i name htarget
      exact absurd htarget (hassign op target value name hkind)
    · rfl
  · rfl

end IsGraphOf

end ScopeGraph

theorem Tree.WellFormed.assign_of_isTarget {tree : Tree} (hwell : tree.WellFormed)
    {id part : NodeId} (hid : id < tree.size) (hpart : part ∈ tree.children id)
    (htarget : tree.isTarget part = true) : ∃ op value, tree.kind id = .assign op part value := by
  obtain ⟨other, op, value, hkind⟩ := (tree.isTarget_iff part).mp htarget
  have hlt := hwell.child_lt hid hpart
  have hroot : part ≠ tree.root := by
    have := hwell.size_eq
    have : id < tree.root + 1 := this ▸ hid
    exact Nat.ne_of_lt (Nat.lt_of_lt_of_le hlt (Nat.le_of_lt_succ this))
  obtain ⟨parent, -, hunique⟩ := hwell.existsUnique_parent (Nat.lt_trans hlt hid) hroot
  have hother : part ∈ tree.children other := by simp [Tree.children, hkind, NodeKind.children]
  cases (hunique id hpart).trans (hunique other hother).symm
  exact ⟨op, value, hkind⟩

theorem Tree.WellFormed.isTarget_value {tree : Tree} (hwell : tree.WellFormed)
    {id target value : NodeId} {op : AssignOp} (hid : id < tree.size)
    (hkind : tree.kind id = .assign op target value) : tree.isTarget value = false := by
  have hchildren : tree.children id = [target, value] := by
    simp [Tree.children, hkind, NodeKind.children]
  refine Bool.eq_false_iff.mpr fun hvalue => ?_
  obtain ⟨_, _, hsame⟩ := hwell.assign_of_isTarget hid (by simp [hchildren]) hvalue
  cases hkind.symm.trans hsame
  have hnodup := hwell.nodup_children id
  simp [hchildren] at hnodup

theorem Tree.WellFormed.preorder_identifier {tree : Tree} (hwell : tree.WellFormed) {id : NodeId}
    {name : String} (hid : id < tree.size) (hkind : tree.kind id = .identifier name) :
    tree.preorder id = [id] := by
  rw [hwell.preorder_eq hid]
  simp [Tree.children, hkind, NodeKind.children]

namespace ScopeGraph

open ScopeBuilder

variable {graph : ScopeGraph} {tree : Tree} {globals : List String}

theorem IsGraphOf.noted_own (h : graph.IsGraphOf tree globals) (hwell : tree.WellFormed)
    (hthis : ∀ id name, tree.kind id = .identifier name → name ≠ "this") {id : NodeId}
    (htop : ∀ name, tree.kind id = .identifier name → tree.isTarget id = false)
    (hassign : ∀ op target value name, tree.kind id = .assign op target value →
      tree.kind target ≠ .identifier name) : graph.noted tree id = graph.found tree id := by
  by_cases hname : ∃ name, tree.kind id = .identifier name
  · obtain ⟨name, hkind⟩ := hname
    exact h.noted_identifier hwell hkind (htop name hkind) (hthis id name hkind)
  · have hkind : ∀ name, tree.kind id ≠ .identifier name := fun name heq => hname ⟨name, heq⟩
    rw [IsGraphOf.found_of_not_identifier hkind]
    exact IsGraphOf.noted_other hkind hassign

/-- The problems of a subtree are those at its nodes: a name that is assigned to follows the
assignment, which speaks for it. -/
theorem IsGraphOf.noted_preorder (h : graph.IsGraphOf tree globals) (hwell : tree.WellFormed)
    (hthis : ∀ id name, tree.kind id = .identifier name → name ≠ "this") {id : NodeId}
    (hid : id < tree.size)
    (htop : ∀ name, tree.kind id = .identifier name → tree.isTarget id = false) :
    (tree.preorder id).flatMap (graph.noted tree) =
    (tree.preorder id).flatMap (graph.found tree) := by
  induction id using Nat.strongRecOn with
  | ind id ih =>
      rw [hwell.preorder_eq hid, List.flatMap_cons, List.flatMap_cons, List.flatMap_assoc,
        List.flatMap_assoc]
      have hpart : ∀ part ∈ tree.children id,
          (∀ name, tree.kind part = .identifier name → tree.isTarget part = false) →
          (tree.preorder part).flatMap (graph.noted tree) =
            (tree.preorder part).flatMap (graph.found tree) := fun part hmem htop =>
        ih part (hwell.child_lt hid hmem) (Nat.lt_trans (hwell.child_lt hid hmem) hid) htop
      by_cases hassign : ∃ op target value name,
          tree.kind id = .assign op target value ∧ tree.kind target = .identifier name
      · obtain ⟨op, target, value, name, hkind, htarget⟩ := hassign
        have hchildren : tree.children id = [target, value] := by
          simp [Tree.children, hkind, NodeKind.children]
        have htargetLt : target < tree.size :=
          Nat.lt_trans (hwell.child_lt hid (by simp [hchildren])) hid
        have hwritten : tree.isTarget target = true :=
          (tree.isTarget_iff target).mpr ⟨id, op, value, hkind⟩
        have hother : ∀ name, tree.kind id ≠ .identifier name := by simp [hkind]
        rw [hchildren]
        simp only [List.flatMap_cons, List.flatMap_nil, List.append_nil,
          hwell.preorder_identifier htargetLt htarget]
        rw [hpart value (by simp [hchildren]) fun _ _ => hwell.isTarget_value hid hkind,
          h.noted_assign hkind htarget, IsGraphOf.noted_target hwell htarget hwritten,
          IsGraphOf.found_of_not_identifier hother]
        simp
      · rw [h.noted_own hwell hthis htop fun op target value name hkind htarget =>
          hassign ⟨op, target, value, name, hkind, htarget⟩]
        refine congrArg _ (List.flatMap_congr fun part hmem => ?_)
        refine hpart part hmem fun name hname => Bool.eq_false_iff.mpr fun htarget => hassign ?_
        obtain ⟨op, value, hkind⟩ := hwell.assign_of_isTarget hid hmem htarget
        exact ⟨op, part, value, name, hkind, hname⟩

/-- What the names of a tree refer to, and what is reported of them when the graph is built.
The only other reports are of names that are declared twice; they come first. -/
structure Resolves (graph : ScopeGraph) (tree : Tree) (globals : List String)
    (before after : Diagnostics) : Prop where
  resolved?_isSome_iff : ∀ id name, tree.nameAt id = some name → ((graph.resolved? id).isSome ↔
    ∃ outer, graph.Within (graph.scopeOf id) outer ∧ graph.Declares tree globals outer name)
  resolved?_eq_some_iff : ∀ id name, tree.nameAt id = some name → ∀ symbol,
    graph.resolved? id = some symbol ↔
      ∃ outer, graph.Nearest tree globals (graph.scopeOf id) name outer ∧
        symbol < graph.symbols.size ∧
        (tree.declarations graph globals).find? (·.key = (outer, name)) =
          some (graph.symbol symbol).declaration
  preorder_perm : (tree.preorder tree.root).Perm (List.range tree.size)
  reported : before.merging = false → ∃ duplicates : List Diagnostic,
    (∀ diagnostic ∈ duplicates, ∃ name, diagnostic.problem = .duplicateDeclaration name) ∧
      after.toList = before.toList ++ duplicates ++
        (tree.preorder tree.root).filterMap (graph.diagnosticAt? tree)

theorem SameNames.problems_eq {later : ScopeGraph} (h : graph.SameNames later tree)
    (written : List NodeId) : later.problems written = graph.problems written := by
  funext reference
  cases reference with
  | read node name => simp only [problems, h.scopeOf_eq, h.lookup?_eq]
  | write node name value =>
      simp only [problems, writeProblems, h.scopeOf_eq, h.lookup?_eq, h.isMutable]

/-- The references of a tree have the problems that are at its nodes. -/
theorem IsGraphOf.problems_references (h : graph.IsGraphOf tree globals) (hwell : tree.WellFormed)
    (hthis : ∀ id name, tree.kind id = .identifier name → name ≠ "this") :
    (tree.references.flatMap (graph.problems (targets tree.references))).map
        (fun problem => Diagnostic.ofProblem (tree.start problem.1).location problem.2 []) =
      (tree.preorder tree.root).filterMap (graph.diagnosticAt? tree) := by
  have hroot : tree.root < tree.size := by
    rw [hwell.size_eq]
    exact Nat.lt_succ_self _
  obtain ⟨body, hprogram⟩ := hwell.program
  have hpreorder := h.noted_preorder hwell hthis hroot fun name hname => by
    change tree.kind tree.root = _ at hprogram
    rw [hprogram] at hname
    cases hname
  have hreferences : tree.references.flatMap (graph.problems (targets tree.references)) =
      (tree.preorder tree.root).flatMap (graph.noted tree) := List.flatMap_assoc
  rw [hreferences, hpreorder, List.map_flatMap, List.filterMap_eq_flatMap_toList]
  refine List.flatMap_congr fun id _ => ?_
  unfold found diagnosticAt?
  cases graph.problemAt? tree id <;> rfl

end ScopeGraph

/-- **Names are resolved by their scopes.**  In a tree that is read from tokens of a text, a name
refers to the innermost declaration around it, and all that is reported of names, behind those
declared twice, are the problems of its nodes in preorder. -/
theorem ScopeGraph.resolves_of_ofTokens {source file : String} {all tokens : List Token}
    {tree : Tree} (hall : Lexer.tokenize source = .ok all) (hsubset : tokens ⊆ all)
    (hparse : Tree.ofTokens tokens file = .ok tree) (globals : List String)
    (diagnostics : Diagnostics) :
    (ScopeGraph.build tree globals diagnostics).1.Resolves tree globals diagnostics
      (ScopeGraph.build tree globals diagnostics).2 := by
  have hwell := Tree.wellFormed_of_ofTokens hparse
  have h := isGraphOf_build hwell globals diagnostics
  have hthis : ∀ id name, tree.kind id = .identifier name → name ≠ "this" := by
    rintro id _ hkind rfl
    exact absurd (Tree.ofText?_of_identifier hall hsubset hparse hkind) (by decide)
  refine ⟨fun id name hname => h.resolved?_isSome_iff hname, fun id name hname symbol =>
    h.resolved?_eq_some_iff hname symbol, hwell.preorder_root_perm, fun hmerging => ?_⟩
  obtain ⟨duplicates, hduplicates, hwalked⟩ :=
    (ScopeBuilder.leaves_walked hwell globals diagnostics).diagnostics
  have hresolved := ScopeBuilder.resolved_build hwell globals diagnostics
  have hreported := hresolved.diagnostics
  have hsame := hresolved.same
  have hproblems := h.problems_references hwell hthis
  rw [ScopeBuilder.build_eq] at hproblems ⊢
  dsimp only at hproblems ⊢
  rw [hsame.problems_eq] at hproblems
  refine ⟨duplicates, hduplicates, ?_⟩
  rw [hreported, hwalked, hproblems, ← List.foldl_append,
    Diagnostics.foldl_report_of_not_merging hmerging]
  simp [Diagnostics.toList]

/-- A script that refers to names in every way: one is written before it is declared, one is not
declared, one is a constant outside and a variable in a block, and `this` is outside functions. -/
def assortedNames : String :=
  "late += this; const c = lost; c = late; \x7b let c; c -= gone; c = c; \x7d var late; none *= 1;"

theorem ScopeGraph.resolves_assortedNames :
    ∃ all tree, Lexer.tokenize assortedNames = .ok all ∧ Tree.ofTokens all "" = .ok tree ∧
      let built := ScopeGraph.build tree [] (.empty false)
      built.2.toList.map Diagnostic.problem = [.unresolvedIdentifier "lost", .assignToConstant "c",
        .unresolvedIdentifier "gone", .assignToUndeclared "none"] ∧
        built.1.Resolves tree [] (.empty false) built.2 := by
  let all := (Lexer.tokenize assortedNames).toOption.getD []
  have hread : (Lexer.tokenize assortedNames).toOption.isSome = true := by decide +kernel
  have hreported : ((Tree.ofTokens all "").toOption.any fun tree =>
      decide ((ScopeGraph.build tree [] (.empty false)).2.toList.map Diagnostic.problem =
        [.unresolvedIdentifier "lost", .assignToConstant "c", .unresolvedIdentifier "gone",
          .assignToUndeclared "none"])) = true := by decide +kernel
  have hall : Lexer.tokenize assortedNames = .ok all := by
    cases htokens : Lexer.tokenize assortedNames with
    | error fault =>
        rw [htokens] at hread
        cases hread
    | ok tokens =>
        simp [all, htokens, Except.toOption]
  cases htree : Tree.ofTokens all "" with
  | error halt =>
      rw [htree] at hreported
      cases hreported
  | ok tree =>
      rw [htree] at hreported
      exact ⟨all, tree, hall, htree, of_decide_eq_true hreported,
        ScopeGraph.resolves_of_ofTokens hall (List.Subset.refl all) htree [] (.empty false)⟩

end ScriptCheck
