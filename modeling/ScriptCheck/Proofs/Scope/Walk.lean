import ScriptCheck.Proofs.Scope.Build

/-!
# The walk over a tree

The walk over a subtree gives every node of the subtree a scope that follows from the
scope around its parent, and touches no other node.  Names are looked up outwards from
there, so the symbol of a name is one of a scope around the node that refers to it.
-/

namespace ScriptCheck.ScopeBuilder

open ScopeGraph

variable {globals : List String} {tree : Tree}

theorem does_scopeInside (builder : ScopeBuilder) (h : builder.graph.Regular globals)
    (marks : Nat → Nat → Prop) (id : NodeId) {around : Nat}
    (haround : around < builder.graph.scopes.size) (kind : NodeKind)
    (hkind : 0 < around ∨ ∃ body, kind = .program body) :
    Does globals marks builder (scopeInside id around kind)
      (fun scope next => next.graph.IsInside kind scope around ∧ (kind.opensScope →
        scope < next.graph.scopes.size ∧ (next.graph.scope scope).node = id)) := by
  cases kind with
  | program _ | function _ =>
      exact (does_openScope builder h marks id haround true (.inl rfl)).mono (fun _ _ h => h)
        fun _ _ hopened => ⟨hopened.1, fun _ => hopened.2⟩
  | block _ | tryStmt _ _ _ | catchClause _ _ | forStmt _ _ _ _ =>
      have hpos : 0 < around := by simpa using hkind
      exact (does_openScope builder h marks id haround false (.inr hpos)).mono (fun _ _ h => h)
        fun _ _ hopened => ⟨hopened.1, fun _ => hopened.2⟩
  | _ => exact .pure h ⟨rfl, fun hopens => by cases hopens⟩

/-- What a node may mark as it is entered: its children, with symbols of scopes around its
inside, and itself, with a symbol of a scope around it. -/
def EnterMarks (tree : Tree) (graph : ScopeGraph) (id scope around node home : Nat) : Prop :=
  (node ∈ tree.children id ∧ graph.Within scope home ∧ 0 < home) ∨
    (node = id ∧ ((tree.kind id).declaresOutside → graph.Within around home ∧ 0 < home))

theorem does_enter (builder : ScopeBuilder) (h : builder.graph.Regular globals) (id : NodeId)
    {scope around : Nat} (hinside : builder.graph.IsInside (tree.kind id) scope around)
    (hkind : 0 < around ∨ ∃ body, tree.kind id = .program body)
    (hlt : around < builder.graph.scopes.size) :
    Does globals (EnterMarks tree builder.graph id scope around)
      builder (enter tree id scope) (fun _ _ => True) := by
  unfold enter
  split
  · rename_i kind declarators hnode
    have haround : 0 < around := by simpa [hnode] using hkind
    rw [hnode] at hinside
    cases hinside
    refine (does_declareVariables builder h haround hlt kind declarators).mono ?_ fun _ _ hQ => hQ
    rintro node home ⟨hmem, hwithin, hpos⟩
    refine .inl ⟨?_, hwithin, hpos⟩
    rw [Tree.children, hnode]
    exact hmem
  · rename_i shape hnode
    have haround : 0 < around := by simpa [hnode] using hkind
    rw [hnode] at hinside
    have hparent : (builder.graph.scope scope).parent = some around := hinside
    have hscope : 0 < scope := Nat.lt_trans haround (h.parent_lt hparent)
    refine (does_declareFunction builder h hparent haround id shape).mono ?_ fun _ _ hQ => hQ
    rintro node home (⟨hmem, rfl⟩ | ⟨rfl, hhome⟩)
    · refine .inl ⟨?_, .refl _, hscope⟩
      rw [Tree.children, hnode]
      exact List.mem_append_left _ hmem
    · refine .inr ⟨rfl, fun houtside => hhome ?_⟩
      simpa [hnode, NodeKind.declaresOutside] using houtside
  · rename_i parameter body hnode
    have haround : 0 < around := by simpa [hnode] using hkind
    rw [hnode] at hinside
    have hparent : (builder.graph.scope scope).parent = some around := hinside
    have hscope : 0 < scope := Nat.lt_trans haround (h.parent_lt hparent)
    refine (does_declareParameter builder h hscope parameter).mono ?_ fun _ _ hQ => hQ
    rintro node home ⟨rfl, rfl⟩
    refine .inl ⟨?_, .refl _, hscope⟩
    rw [Tree.children, hnode]
    exact List.mem_append_left _ (List.mem_singleton.mpr rfl)
  · exact does_note builder h _ _
  · exact does_note builder h _ _
  · unfold noteAssignment
    split
    · exact does_note builder h _ _
    · exact .pure h trivial
  · exact .pure h trivial

/-- The subtrees of `roots`, which fill the range from `lo` to `hi`, were walked over from
the scope around them. -/
structure Visited (globals : List String) (tree : Tree) (lo hi : Nat) (roots : List Nat)
    (around : Nat) (before after : ScopeBuilder) : Prop where
  regular : after.graph.Regular globals
  grows : before.graph.Extends after.graph
  size_eq : after.graph.nodeScopes.size = before.graph.nodeScopes.size
  resolutions : after.graph.resolutions = before.graph.resolutions
  scopeOf_outside : ∀ node, node < lo ∨ hi ≤ node →
    after.graph.scopeOf node = before.graph.scopeOf node
  declared_outside : ∀ node, node < lo ∨ hi ≤ node →
    after.graph.declared? node = before.graph.declared? node
  root : ∀ node ∈ roots, after.graph.StandsIn tree node around
  child : ∀ node, lo ≤ node → node < hi → ∀ part ∈ tree.children node,
    after.graph.StandsIn tree part (after.graph.scopeOf node)
  opened : ∀ node, lo ≤ node → node < hi → after.graph.OpenedBy tree node
  declares : ∀ node, lo ≤ node → node < hi → ∃ scope, after.graph.StandsIn tree node scope ∧
    ((tree.kind node).declaresOutside → after.graph.DeclaresIn node scope)

/-- What has to hold before subtrees are walked over: nodes below their roots declare
nothing yet, and what the roots declare lies around them. -/
structure Ready (globals : List String) (tree : Tree) (lo hi : Nat) (roots : List Nat)
    (around : Nat) (builder : ScopeBuilder) : Prop where
  regular : builder.graph.Regular globals
  around_pos : ∀ node ∈ roots, 0 < around ∨ ∃ body, tree.kind node = .program body
  around_lt : around < builder.graph.scopes.size
  le_size : hi ≤ builder.graph.nodeScopes.size
  root : ∀ node ∈ roots, builder.graph.DeclaresIn node around
  below : ∀ node, lo ≤ node → node < hi → node ∉ roots → builder.graph.declared? node = none

def withNodeScope (builder : ScopeBuilder) (id : NodeId) (scope : ScopeId) : ScopeBuilder :=
  { builder with
    graph := { builder.graph with
      nodeScopes := builder.graph.nodeScopes.setIfInBounds id scope } }

theorem scopeOf_withNodeScope_self {builder : ScopeBuilder} {id : Nat}
    (h : id < builder.graph.nodeScopes.size) (scope : ScopeId) :
    (withNodeScope builder id scope).graph.scopeOf id = scope := by
  simp [withNodeScope, scopeOf, h]

theorem scopeOf_withNodeScope_of_ne {id other : Nat} (h : other ≠ id) (builder : ScopeBuilder)
    (scope : ScopeId) :
    (withNodeScope builder id scope).graph.scopeOf other = builder.graph.scopeOf other := by
  have hne : ¬ id = other := fun he => h he.symm
  simp [withNodeScope, scopeOf, hne]

/-- The node has its scope; what it declares and the walk over its parts are still to come. -/
structure Placed (globals : List String) (tree : Tree) (id scope around : Nat)
    (before after : ScopeBuilder) : Prop where
  regular : after.graph.Regular globals
  grows : before.graph.Extends after.graph
  declared : ∀ node, after.graph.declared? node = before.graph.declared? node
  size_eq : after.graph.nodeScopes.size = before.graph.nodeScopes.size
  resolutions : after.graph.resolutions = before.graph.resolutions
  own : after.graph.scopeOf id = scope
  others : ∀ node, node ≠ id → after.graph.scopeOf node = before.graph.scopeOf node
  inside : after.graph.IsInside (tree.kind id) scope around
  opened : after.graph.OpenedBy tree id

theorem placed_scopeInside {id mid around : Nat} {builder : ScopeBuilder}
    (hready : Ready globals tree mid (id + 1) [id] around builder) :
    Placed globals tree id (scopeInside id around (tree.kind id) builder).1 around builder
      (withNodeScope (scopeInside id around (tree.kind id) builder).2 id
        (scopeInside id around (tree.kind id) builder).1) := by
  have hkind := hready.around_pos id (List.mem_singleton.mpr rfl)
  obtain ⟨hopened, hinside, hopener⟩ :=
    does_scopeInside builder hready.regular (fun _ _ => False) id
    hready.around_lt (tree.kind id) hkind
  generalize scopeInside id around (tree.kind id) builder = result at hopened hinside hopener ⊢
  obtain ⟨scope, opened⟩ := result
  have hplaced : opened.graph.Extends (withNodeScope opened id scope).graph := .of_eq rfl rfl
  have hid : id < opened.graph.nodeScopes.size := by
    rw [hopened.nodeScopes]
    exact hready.le_size
  have hown := scopeOf_withNodeScope_self hid scope
  constructor
  case regular => exact regular_of_same_scopes hopened.regular rfl (Nat.le_refl _) fun _ => rfl
  case grows => exact hopened.grows.trans hplaced
  case declared =>
    intro node
    rcases hopened.declared node with hsame | ⟨_, _, _, hfalse⟩
    · exact hsame
    · exact hfalse.elim
  case size_eq =>
    rw [← hopened.nodeScopes]
    exact Array.size_setIfInBounds
  case resolutions => exact hopened.resolutions
  case own => exact hown
  case others =>
    intro node hne
    rw [scopeOf_withNodeScope_of_ne hne]
    exact congrArg (·.getD node 0) hopened.nodeScopes
  case inside => exact hplaced.isInside hinside
  case opened =>
    unfold OpenedBy
    rw [hown]
    exact hopener

section

variable {id mid around scope : Nat} {builder placed entered done : ScopeBuilder}

/-- With the scope of a node and what it declares in place, the walk over its parts can
begin. -/
theorem ready_children
    (hbelow : ∀ part : Nat, part ∈ tree.children id → mid ≤ part ∧ part < id)
    (hready : Ready globals tree mid (id + 1) [id] around builder)
    (hplaced : Placed globals tree id scope around builder placed)
    (hentered : Steps globals (EnterMarks tree placed.graph id scope around) placed entered) :
    Ready globals tree mid id (tree.children id) scope entered := by
  have haround := Nat.lt_of_lt_of_le hready.around_lt
    (Nat.le_trans hplaced.grows.scopes_le hentered.grows.scopes_le)
  obtain ⟨hle, hlt⟩ := (hentered.grows.isInside hplaced.inside).bounds hentered.regular haround
  have hnone : ∀ node, mid ≤ node → node < id → placed.graph.declared? node = none := by
    intro node hmid hid
    rw [hplaced.declared]
    exact hready.below node hmid (by omega) (by simp; omega)
  have hpos : 0 < scope := by
    rcases hready.around_pos id (List.mem_singleton.mpr rfl) with hpos | ⟨body, hbody⟩
    · exact Nat.lt_of_lt_of_le hpos hle
    · have hinside := hplaced.inside
      rw [hbody] at hinside
      exact Nat.lt_of_le_of_lt (Nat.zero_le _)
        (hentered.regular.parent_lt (hentered.grows.parent_eq_some hinside))
  refine ⟨hentered.regular, fun _ _ => .inl hpos, hlt, ?_, ?_, ?_⟩
  · have hsize := hready.le_size
    rw [hentered.nodeScopes, hplaced.size_eq]
    omega
  · intro part hpart symbol hsymbol
    obtain ⟨hmid, hid⟩ := hbelow part hpart
    rcases hentered.declared part with hsame | ⟨found, hfound, hfoundLt, hmarks⟩
    · rw [hsame, hnone part hmid hid] at hsymbol
      cases hsymbol
    · rw [hfound] at hsymbol
      cases hsymbol
      rcases hmarks with ⟨-, hwithin, hpos⟩ | ⟨rfl, -⟩
      · exact ⟨hfoundLt, hentered.grows.within hwithin, hpos⟩
      · exact absurd hid (Nat.lt_irrefl _)
  · intro node hmid hid hnot
    rcases hentered.declared node with hsame | ⟨found, -, -, ⟨hmem, -⟩ | ⟨rfl, -⟩⟩
    · rw [hsame]
      exact hnone node hmid hid
    · exact absurd hmem hnot
    · exact absurd hid (Nat.lt_irrefl _)

/-- What an entered node declares outside lies around it. -/
theorem declaresIn_entered
    (hbelow : ∀ part : Nat, part ∈ tree.children id → mid ≤ part ∧ part < id)
    (hready : Ready globals tree mid (id + 1) [id] around builder)
    (hplaced : Placed globals tree id scope around builder placed)
    (hentered : Steps globals (EnterMarks tree placed.graph id scope around) placed entered)
    (houtside : (tree.kind id).declaresOutside) : entered.graph.DeclaresIn id around := by
  rcases hentered.declared id with hsame | ⟨symbol, hsymbol, hlt, hmarks⟩
  · exact (hplaced.grows.trans hentered.grows).declaresIn (hsame.trans (hplaced.declared id))
      (hready.root id (List.mem_singleton.mpr rfl))
  · intro other hother
    rw [hsymbol] at hother
    cases hother
    rcases hmarks with ⟨hmem, -⟩ | ⟨-, hhome⟩
    · exact absurd (hbelow id hmem).2 (Nat.lt_irrefl _)
    · obtain ⟨hwithin, hpos⟩ := hhome houtside
      exact ⟨hlt, hentered.grows.within hwithin, hpos⟩

/-- The walk over a node in three steps: a scope for the node, what the node declares, and
the walk over its parts. -/
theorem visited_of_parts (hmid : mid ≤ id)
    (hbelow : ∀ part : Nat, part ∈ tree.children id → mid ≤ part ∧ part < id)
    (hready : Ready globals tree mid (id + 1) [id] around builder)
    (hplaced : Placed globals tree id scope around builder placed)
    (hentered : Steps globals (EnterMarks tree placed.graph id scope around) placed entered)
    (hvisited : Visited globals tree mid id (tree.children id) scope entered done) :
    Visited globals tree mid (id + 1) [id] around builder done := by
  have hscopeOf : ∀ node, entered.graph.scopeOf node = placed.graph.scopeOf node := by
    intro node
    simp only [scopeOf, hentered.nodeScopes]
  have hgrows : placed.graph.Extends done.graph := hentered.grows.trans hvisited.grows
  have hown : done.graph.scopeOf id = scope := by
    rw [hvisited.scopeOf_outside id (.inr (Nat.le_refl id)), hscopeOf, hplaced.own]
  have hstands : done.graph.StandsIn tree id around := by
    unfold StandsIn
    rw [hown]
    exact hgrows.isInside hplaced.inside
  constructor
  case regular => exact hvisited.regular
  case grows => exact hplaced.grows.trans hgrows
  case size_eq => rw [hvisited.size_eq, hentered.nodeScopes, hplaced.size_eq]
  case resolutions => rw [hvisited.resolutions, hentered.resolutions, hplaced.resolutions]
  case scopeOf_outside =>
    intro node hnode
    rw [hvisited.scopeOf_outside node (by omega), hscopeOf, hplaced.others node (by omega)]
  case declared_outside =>
    intro node hnode
    rw [hvisited.declared_outside node (by omega), ← hplaced.declared]
    rcases hentered.declared node with hsame | ⟨_, _, _, ⟨hmem, _⟩ | ⟨heq, _⟩⟩
    · exact hsame
    · have hbounds := hbelow node hmem
      omega
    · omega
  case root =>
    intro node hnode
    cases List.mem_singleton.mp hnode
    exact hstands
  case child =>
    intro node hlo hhi part hpart
    rcases Nat.lt_or_eq_of_le (Nat.le_of_lt_succ hhi) with hlt | rfl
    · exact hvisited.child node hlo hlt part hpart
    · rw [hown]
      exact hvisited.root part hpart
  case opened =>
    intro node hlo hhi
    rcases Nat.lt_or_eq_of_le (Nat.le_of_lt_succ hhi) with hlt | rfl
    · exact hvisited.opened node hlo hlt
    · exact hgrows.openedBy (hown.trans hplaced.own.symm) hplaced.opened
  case declares =>
    intro node hlo hhi
    rcases Nat.lt_or_eq_of_le (Nat.le_of_lt_succ hhi) with hlt | rfl
    · exact hvisited.declares node hlo hlt
    · refine ⟨around, hstands, fun houtside => ?_⟩
      exact hvisited.grows.declaresIn (hvisited.declared_outside _ (.inr (Nat.le_refl _)))
        (declaresIn_entered hbelow hready hplaced hentered houtside)

/-- The walk over a node, from the walk over its parts. -/
theorem visited_node (depth : Nat) (hmid : mid ≤ id)
    (hbelow : ∀ part : Nat, part ∈ tree.children id → mid ≤ part ∧ part < id)
    (hready : Ready globals tree mid (id + 1) [id] around builder)
    (hchildren : ∀ scope next, Ready globals tree mid id (tree.children id) scope next →
      Visited globals tree mid id (tree.children id) scope next
        ((tree.children id).forM (fun child => visit tree depth child scope) next).2) :
    Visited globals tree mid (id + 1) [id] around builder
      (visit tree (depth + 1) id around builder).2 := by
  have hplaced := placed_scopeInside hready
  have hrun : visit tree (depth + 1) id around builder =
      (tree.children id).forM (fun child => visit tree depth child
        (scopeInside id around (tree.kind id) builder).1) (enter tree id
          (scopeInside id around (tree.kind id) builder).1 (withNodeScope
            (scopeInside id around (tree.kind id) builder).2 id
            (scopeInside id around (tree.kind id) builder).1)).2 := rfl
  rw [hrun]
  generalize (scopeInside id around (tree.kind id) builder).1 = scope at hplaced ⊢
  generalize withNodeScope _ id scope = placed at hplaced ⊢
  obtain ⟨hentered, -⟩ := does_enter placed hplaced.regular id hplaced.inside
    (hready.around_pos id (List.mem_singleton.mpr rfl))
    (Nat.lt_of_lt_of_le hready.around_lt hplaced.grows.scopes_le)
  exact visited_of_parts hmid hbelow hready hplaced hentered
    (hchildren scope _ (ready_children hbelow hready hplaced hentered))

end

/-- Walks over neighbouring ranges of nodes, one after the other. -/
theorem Visited.append {lo mid hi around : Nat} {roots more : List Nat} {a b c : ScopeBuilder}
    (hlo : lo ≤ mid) (hhi : mid ≤ hi) (hroots : ∀ node ∈ roots, node < mid)
    (hbelow : ∀ node, lo ≤ node → node < mid → ∀ part : Nat, part ∈ tree.children node → part < mid)
    (h : Visited globals tree lo mid roots around a b)
    (hmore : Visited globals tree mid hi more around b c) :
    Visited globals tree lo hi (roots ++ more) around a c := by
  constructor
  case regular => exact hmore.regular
  case grows => exact h.grows.trans hmore.grows
  case size_eq => rw [hmore.size_eq, h.size_eq]
  case resolutions => rw [hmore.resolutions, h.resolutions]
  case scopeOf_outside =>
    intro node hnode
    rw [hmore.scopeOf_outside node (by omega), h.scopeOf_outside node (by omega)]
  case declared_outside =>
    intro node hnode
    rw [hmore.declared_outside node (by omega), h.declared_outside node (by omega)]
  case root =>
    intro node hnode
    rcases List.mem_append.mp hnode with hnode | hnode
    · exact hmore.grows.standsIn (hmore.scopeOf_outside node (.inl (hroots node hnode)))
        (h.root node hnode)
    · exact hmore.root node hnode
  case child =>
    intro node hnodeLo hnodeHi part hpart
    rcases Nat.lt_or_ge node mid with hlt | hge
    · rw [hmore.scopeOf_outside node (.inl hlt)]
      have hpartLt := hbelow node hnodeLo hlt part hpart
      exact hmore.grows.standsIn (hmore.scopeOf_outside part (.inl hpartLt))
        (h.child node hnodeLo hlt part hpart)
    · exact hmore.child node hge hnodeHi part hpart
  case opened =>
    intro node hnodeLo hnodeHi
    rcases Nat.lt_or_ge node mid with hlt | hge
    · exact hmore.grows.openedBy (hmore.scopeOf_outside node (.inl hlt)) (h.opened node hnodeLo hlt)
    · exact hmore.opened node hge hnodeHi
  case declares =>
    intro node hnodeLo hnodeHi
    rcases Nat.lt_or_ge node mid with hlt | hge
    · obtain ⟨scope, hstands, hdeclares⟩ := h.declares node hnodeLo hlt
      refine ⟨scope, hmore.grows.standsIn (hmore.scopeOf_outside node (.inl hlt)) hstands,
        fun houtside => ?_⟩
      exact hmore.grows.declaresIn (hmore.declared_outside node (.inl hlt)) (hdeclares houtside)
    · exact hmore.declares node hge hnodeHi

/-- Walking over subtrees can begin with the first ones. -/
theorem Ready.first {lo mid id scope : Nat} {roots : List Nat} {builder : ScopeBuilder}
    (hmid : mid ≤ id)
    (h : Ready globals tree lo (id + 1) (roots ++ [id]) scope builder) :
    Ready globals tree lo mid roots scope builder where
  regular := h.regular
  around_pos node hnode := h.around_pos node (List.mem_append_left _ hnode)
  around_lt := h.around_lt
  le_size := Nat.le_trans (by omega) h.le_size
  root node hnode := h.root node (List.mem_append_left _ hnode)
  below node hlo hlt hnot := by
    refine h.below node hlo (by omega) fun hmem => ?_
    rcases List.mem_append.mp hmem with hmem | hmem
    · exact hnot hmem
    · rw [List.mem_singleton] at hmem
      omega

/-- After the first subtrees, walking over the last one can begin. -/
theorem Ready.last {lo mid id scope : Nat} {roots : List Nat} {builder next : ScopeBuilder}
    (hlo : lo ≤ mid) (hmid : mid ≤ id) (hroots : ∀ node ∈ roots, node < mid)
    (h : Ready globals tree lo (id + 1) (roots ++ [id]) scope builder)
    (hvisited : Visited globals tree lo mid roots scope builder next) :
    Ready globals tree mid (id + 1) [id] scope next where
  regular := hvisited.regular
  around_pos node hnode := h.around_pos node (List.mem_append_right _ hnode)
  around_lt := Nat.lt_of_lt_of_le h.around_lt hvisited.grows.scopes_le
  le_size := by
    rw [hvisited.size_eq]
    exact h.le_size
  root node hnode := by
    have heq := List.mem_singleton.mp hnode
    exact hvisited.grows.declaresIn (hvisited.declared_outside node (.inr (by omega)))
      (h.root node (List.mem_append_right _ hnode))
  below node hge hlt hnot := by
    rw [hvisited.declared_outside node (.inr hge)]
    refine h.below node (by omega) hlt fun hmem => ?_
    rcases List.mem_append.mp hmem with hmem | hmem
    · have hbound := hroots node hmem
      omega
    · exact hnot hmem

/-- The walk over the subtrees of a forest, deep enough to reach all of its nodes. -/
theorem visited_forest {lo hi : Nat} {roots : List (Nat × Part)}
    (h : Forest tree.nodes lo hi roots) {depth scope : Nat} {builder : ScopeBuilder}
    (hdepth : hi ≤ depth)
    (hready : Ready globals tree lo hi (roots.map Prod.fst) scope builder) :
    Visited globals tree lo hi (roots.map Prod.fst) scope builder
      ((roots.map Prod.fst).forM (fun child => visit tree depth child scope) builder).2 := by
  induction h generalizing depth scope builder with
  | nil lo =>
      exact ⟨hready.regular, .refl _, rfl, rfl, fun _ _ => rfl, fun _ _ => rfl, fun _ hnode => (by
        simp at hnode), fun _ _ _ => by omega, fun _ _ _ => by omega, fun _ _ _ => by omega⟩
  | @snoc lo mid roots id part hbefore hbelow' hinside hsuits ihBefore ihBelow =>
      obtain ⟨depth, rfl⟩ : ∃ rest, depth = rest + 1 := ⟨depth - 1, by omega⟩
      have hroots : ∀ node ∈ roots.map Prod.fst, node < mid := by
        intro node hnode
        obtain ⟨⟨_, sort⟩, hmem, rfl⟩ := List.mem_map.mp hnode
        exact (hbefore.root_bounds hmem).2.1
      have hchildren : tree.children id = (kindAt tree.nodes id).parts.map Prod.fst :=
        (NodeKind.map_fst_parts _).symm
      have hparts : ∀ part : Nat, part ∈ tree.children id → mid ≤ part ∧ part < id := by
        intro part hpart
        rw [hchildren] at hpart
        obtain ⟨⟨_, sort⟩, hmem, rfl⟩ := List.mem_map.mp hpart
        have hbounds := hbelow'.root_bounds hmem
        exact ⟨hbounds.1, hbounds.2.1⟩
      rw [List.map_append] at hready ⊢
      rw [List.forM_eq_forM, List.forM_append]
      have hfirst := ihBefore (Nat.le_trans (Nat.le_succ_of_le hbelow'.le) hdepth)
        (hready.first hbelow'.le)
      have hlast := visited_node depth hbelow'.le hparts
        (hready.last hbefore.le hbelow'.le hroots hfirst) fun scope next hnext => ?_
      · refine hfirst.append hbefore.le (Nat.le_succ_of_le hbelow'.le) hroots ?_ hlast
        intro node hlo hlt part hpart
        obtain ⟨first, -, hbelow⟩ := hbefore.below_of_mem hlo hlt
        rw [Tree.children, ← NodeKind.map_fst_parts] at hpart
        obtain ⟨⟨_, sort⟩, hmem, rfl⟩ := List.mem_map.mp hpart
        exact Nat.lt_trans (hbelow.root_bounds hmem).2.1 hlt
      · rw [hchildren] at hnext ⊢
        exact ihBelow (by omega) hnext

/-! ## Resolution -/

theorem describes_of_resolution {graph later : ScopeGraph} (h : graph.Describes tree globals)
    (hscopes : later.scopes = graph.scopes) (hnodes : later.nodeScopes = graph.nodeScopes)
    (hdeclarations : later.declarations = graph.declarations)
    (hsize : later.symbols.size = graph.symbols.size)
    (hsymbols : ∀ symbol, (later.symbol symbol).scope = (graph.symbol symbol).scope)
    (hresolved : ∀ node symbol, later.resolved? node = some symbol →
      graph.resolved? node = some symbol ∨
        ∃ name, graph.lookup? (graph.scopeOf node) name = some symbol) :
    later.Describes tree globals := by
  have hregular : later.Regular globals :=
    regular_of_same_scopes h.regular hscopes (Nat.le_of_eq hsize.symm) fun _ => hsymbols _
  have hscope : ∀ scope, later.scope scope = graph.scope scope := by
    intro scope
    simp only [ScopeGraph.scope, hscopes]
  have hgrows : graph.Extends later :=
    ⟨Nat.le_of_eq (by rw [hscopes]), fun _ => by rw [hscope], fun _ => by rw [hscope],
      fun _ => by rw [hscope], Nat.le_of_eq hsize.symm, fun _ => hsymbols _⟩
  have hscopeOf : ∀ node, later.scopeOf node = graph.scopeOf node := by
    intro node
    simp only [scopeOf, hnodes]
  have hstands : ∀ node scope, later.StandsIn tree node scope ↔ graph.StandsIn tree node scope := by
    intro node scope
    simp only [StandsIn, IsInside, hscope, hscopeOf]
  refine ⟨hregular, (hstands _ _).mpr h.root, ?_, ?_, ?_, ?_⟩
  · intro node hnode part hpart
    rw [hstands, hscopeOf]
    exact h.child node hnode part hpart
  · intro node hnode
    exact hgrows.openedBy (hscopeOf node) (h.opened node hnode)
  · intro node hnode houtside scope hscope
    refine hgrows.declaresIn ?_ (h.declares node hnode houtside scope ((hstands _ _).mp hscope))
    simp only [declared?, hdeclarations]
  · intro node symbol hsymbol
    have hlocal : ∀ name, later.local? globalScope name = graph.local? globalScope name := by
      intro name
      rw [local?, hscope, local?]
    have hvisible : graph.Visible globals (graph.scopeOf node) symbol := by
      rcases hresolved node symbol hsymbol with hold | ⟨name, hfound⟩
      · exact h.resolves node symbol hold
      · obtain ⟨outer, hwithin, hentry⟩ := within_of_lookup? hfound
        have houter := (h.regular.entry hentry).2
        refine ⟨houter ▸ hwithin, fun hzero => ?_⟩
        rw [← houter, hzero] at hentry
        exact ⟨name, h.regular.global hentry, hentry⟩
    refine ⟨?_, ?_⟩
    · rw [hscopeOf, hsymbols]
      exact hgrows.within hvisible.within
    · rw [hsymbols]
      simpa only [hlocal] using hvisible.global

theorem resolved?_markResolved (builder : ScopeBuilder) (node other : NodeId) (symbol : SymbolId)
    {found : SymbolId}
    (h : (markResolved node symbol builder).2.graph.resolved? other = some found) :
    (node = other ∧ found = symbol) ∨ builder.graph.resolved? other = some found := by
  change (builder.graph.resolutions.setIfInBounds node (some symbol)).getD other none =
    some found at h
  by_cases heq : node = other
  · subst heq
    by_cases hlt : node < builder.graph.resolutions.size
    · simp [hlt] at h
      exact .inl ⟨rfl, h.symm⟩
    · simp [hlt] at h
  · exact .inr (by simpa [resolved?, heq] using h)

theorem describes_markResolved {builder : ScopeBuilder} (h : builder.graph.Describes tree globals)
    {node : NodeId} {name : String} {symbol : SymbolId}
    (hfound : builder.graph.lookup? (builder.graph.scopeOf node) name = some symbol) :
    (markResolved node symbol builder).2.graph.Describes tree globals := by
  refine describes_of_resolution h rfl rfl rfl rfl (fun _ => rfl) fun other found hother => ?_
  rcases resolved?_markResolved builder node other symbol hother with ⟨rfl, rfl⟩ | hold
  · exact .inr ⟨name, hfound⟩
  · exact .inl hold

theorem describes_recordWrite {builder : ScopeBuilder} (h : builder.graph.Describes tree globals)
    (symbol : SymbolId) (value : NodeId) :
    (recordWrite symbol value builder).2.graph.Describes tree globals := by
  refine describes_of_resolution h rfl rfl rfl ?_ (scope_symbol_recordWrite builder symbol value)
    fun _ _ hsame => .inl hsame
  exact Array.size_modify

theorem bind_apply {α β : Type} (computation : Build α) (f : α → Build β)
    (builder : ScopeBuilder) :
    (computation >>= f) builder = f (computation builder).1 (computation builder).2 := rfl

theorem describes_resolveRead {builder : ScopeBuilder} (h : builder.graph.Describes tree globals)
    (node : NodeId) (name : String) :
    (resolveRead tree node name builder).2.graph.Describes tree globals := by
  have hlookup : graph? (fun graph => graph.lookup? (graph.scopeOf node) name) builder =
      (builder.graph.lookup? (builder.graph.scopeOf node) name, builder) := rfl
  rw [resolveRead, bind_apply, hlookup]
  cases hfound : builder.graph.lookup? (builder.graph.scopeOf node) name with
  | some symbol => exact describes_markResolved h hfound
  | none =>
      dsimp only
      split
      · exact h
      · exact h

theorem describes_resolveWrite {builder : ScopeBuilder} (h : builder.graph.Describes tree globals)
    (node : NodeId) (name : String) (value : NodeId) :
    (resolveWrite tree node name value builder).2.graph.Describes tree globals := by
  have hlookup : graph? (fun graph => graph.lookup? (graph.scopeOf node) name) builder =
      (builder.graph.lookup? (builder.graph.scopeOf node) name, builder) := rfl
  rw [resolveWrite, bind_apply, hlookup]
  cases hfound : builder.graph.lookup? (builder.graph.scopeOf node) name with
  | none => exact h
  | some symbol =>
      have hmarked := describes_markResolved h hfound
      generalize hnext : (markResolved node symbol builder).2 = next at hmarked
      change ((if (((markResolved node symbol builder).2.graph).symbol symbol).mutable then
        recordWrite symbol value else report tree node (.assignToConstant name) : Build Unit)
          (markResolved node symbol builder).2).2.graph.Describes _ _
      rw [hnext]
      split
      · exact describes_recordWrite hmarked symbol value
      · exact hmarked

theorem forM_keeps {α : Type} {P : ScopeBuilder → Prop} {f : α → Build Unit}
    (hf : ∀ a builder, P builder → P (f a builder).2) (items : List α) {builder : ScopeBuilder}
    (h : P builder) : P (items.forM f builder).2 := by
  induction items generalizing builder with
  | nil => exact h
  | cons item rest ih => exact ih (hf item builder h)

theorem describes_resolve {builder : ScopeBuilder} (h : builder.graph.Describes tree globals)
    (references : List Reference) :
    (resolve tree references builder).2.graph.Describes tree globals := by
  unfold resolve
  refine forM_keeps (P := fun next => next.graph.Describes tree globals) ?_ references h
  rintro (⟨node, name⟩ | ⟨node, name, value⟩) next hnext
  · dsimp only
    split
    · exact hnext
    · exact describes_resolveRead hnext node name
  · exact describes_resolveWrite hnext node name value

/-! ## The whole graph -/

def globalOnly (tree : Tree) : ScopeGraph :=
  { ScopeGraph.empty tree.size with scopes := #[⟨tree.root, none, 0, [], []⟩] }

theorem regular_globalOnly (tree : Tree) : (globalOnly tree).Regular globals := by
  have hscope : ∀ scope : Nat, ((globalOnly tree).scope scope).parent = none ∧
      ((globalOnly tree).scope scope).symbols = [] := by
    intro scope
    cases scope with
    | zero => exact ⟨rfl, rfl⟩
    | succ scope => exact ⟨rfl, rfl⟩
  refine ⟨fun {scope} _ hparent => ?_, fun hpos hlt => ?_, fun {scope} _ _ hfound => ?_,
    fun hfound => ?_⟩
  · rw [(hscope scope).1] at hparent
    cases hparent
  · change _ < 1 at hlt
    omega
  · rw [local?, Scope.get?, (hscope scope).2] at hfound
    cases hfound
  · rw [local?, Scope.get?, (hscope _).2] at hfound
    cases hfound

theorem does_declareGlobals (tree : Tree) (builder : ScopeBuilder)
    (h : builder.graph.Regular globals) (node : NodeId) :
    Does globals (fun _ _ => False) builder (globals.forM fun name => do
      let _ ← declare tree globalScope node name .global) (fun _ _ => True) := by
  refine .forM h fun name hname next hnext => ?_
  refine Does.bind ((does_declare next hnext.regular globalScope node name .global
    fun _ => hname).mono ?_ fun _ _ hQ => hQ) fun _ after hafter _ => .pure hafter.regular trivial
  rintro _ _ ⟨-, hkind, -⟩
  cases hkind

/-- With the global names declared, the walk over the program can begin. -/
theorem ready_root (h : tree.WellFormed) {before builder : ScopeBuilder}
    (hgraph : before.graph = globalOnly tree)
    (hsteps : Steps globals (fun _ _ => False) before builder) :
    Ready globals tree 0 (tree.root + 1) [tree.root] globalScope builder := by
  have hnone : ∀ node, builder.graph.declared? node = none := by
    intro node
    rcases hsteps.declared node with hsame | ⟨_, _, _, hfalse⟩
    · rw [hsame, hgraph]
      change (Array.replicate tree.size none).getD node none = none
      rw [Array.getD_eq_getD_getElem?, Array.getElem?_replicate]
      split <;> rfl
    · exact hfalse.elim
  refine ⟨hsteps.regular, ?_, ?_, ?_, ?_, fun node _ _ _ => hnone node⟩
  · intro node hnode
    cases List.mem_singleton.mp hnode
    exact .inr h.program
  · refine Nat.lt_of_lt_of_le ?_ hsteps.grows.scopes_le
    rw [hgraph]
    exact Nat.zero_lt_one
  · rw [hsteps.nodeScopes, hgraph]
    simp [globalOnly, ScopeGraph.empty, h.size_eq]
  · intro node _ symbol hsymbol
    rw [hnone node] at hsymbol
    cases hsymbol

end ScriptCheck.ScopeBuilder

namespace ScriptCheck

open ScopeBuilder ScopeGraph

theorem ScopeGraph.describes_build {tree : Tree} (h : tree.WellFormed) (globals : List String)
    (diagnostics : Diagnostics) :
    (ScopeGraph.build tree globals diagnostics).1.Describes tree globals := by
  let opened : ScopeBuilder := ⟨globalOnly tree, [], diagnostics⟩
  let declared := (globals.forM (fun name => do
    let _ ← declare tree globalScope tree.root name .global) opened).2
  let walked := (visit tree (tree.size + 1) tree.root globalScope declared).2
  have hsize : tree.root < tree.size := by
    rw [h.size_eq]
    exact Nat.lt_succ_self _
  change ((resolve tree walked.references.reverse walked).2).graph.Describes tree globals
  refine describes_resolve ?_ _
  obtain ⟨hglobals, -⟩ := does_declareGlobals tree opened (regular_globalOnly tree) tree.root
  have hready : Ready globals tree 0 (tree.root + 1) [tree.root] globalScope declared :=
    ready_root h rfl hglobals
  have hvisited : Visited globals tree 0 (tree.root + 1) [tree.root] globalScope declared
    walked := by
    refine visited_node tree.size (Nat.zero_le _) (fun part hpart => ?_) hready
      fun scope next hnext => ?_
    · exact ⟨Nat.zero_le _, h.child_lt hsize hpart⟩
    · rw [Tree.children, ← NodeKind.map_fst_parts] at hnext ⊢
      exact visited_forest h.below (Nat.le_of_lt hsize) hnext
  have hnodes : ∀ node : Nat, node < tree.size → node < tree.root + 1 := by
    intro node hnode
    rwa [h.size_eq] at hnode
  refine ⟨hvisited.regular, hvisited.root _ (List.mem_singleton.mpr rfl),
    fun node hnode => hvisited.child node (Nat.zero_le _) (hnodes node hnode),
    fun node hnode => hvisited.opened node (Nat.zero_le _) (hnodes node hnode), ?_, ?_⟩
  · intro node hnode houtside scope hscope
    obtain ⟨around, hstands, hdeclares⟩ :=
      hvisited.declares node (Nat.zero_le _) (hnodes node hnode)
    cases hscope.unique hstands
    exact hdeclares houtside
  · intro node symbol hsymbol
    rw [resolved?, hvisited.resolutions, hglobals.resolutions] at hsymbol
    change (Array.replicate tree.size none).getD node none = some symbol at hsymbol
    rw [Array.getD_eq_getD_getElem?, Array.getElem?_replicate] at hsymbol
    split at hsymbol <;> cases hsymbol

end ScriptCheck
