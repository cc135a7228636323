import ScriptCheck.Tree.Basic

/-!
# The layout of syntax trees

Which parts a node has, of which sort each part is, and how the nodes of a script
lie in their arena: every node directly after those below it, so that a subtree
fills a range of indices that ends with its root.
-/

namespace ScriptCheck

/-- The sorts of places that a node can stand in. -/
inductive Part where
  | statement | expression | declarator | parameter | property | handler | target | initialiser
deriving DecidableEq, Repr

namespace NodeKind

def isExpression : NodeKind → Bool
  | literal _ | identifier _ | thisExpr | array _ | object _ | function _ => true
  | unary .. | binary .. | logical .. | assign .. | conditional .. => true
  | call .. | newExpr .. | member .. | sequence _ => true
  | _ => false

def isStatement : NodeKind → Bool
  | block _ | empty | expressionStmt _ | declaration .. | ifStmt .. | returnStmt _ => true
  | whileStmt .. | forStmt .. | tryStmt .. | throwStmt _ | breakStmt | continueStmt => true
  | function shape => shape.kind = .declaration
  | _ => false

/-- The parts of a node in source order, each with its sort. -/
def parts : NodeKind → List (NodeId × Part)
  | program body | block body => body.map (·, .statement)
  | empty | breakStmt | continueStmt | thisExpr => []
  | parameter _ | literal _ | identifier _ => []
  | expressionStmt expr => [(expr, .expression)]
  | declaration _ declarators => declarators.map (·, .declarator)
  | declarator _ init => init.toList.map (·, .expression)
  | ifStmt test consequent alternate =>
      [(test, .expression), (consequent, .statement)] ++ alternate.toList.map (·, .statement)
  | returnStmt argument => argument.toList.map (·, .expression)
  | whileStmt test body => [(test, .expression), (body, .statement)]
  | forStmt init test update body =>
      init.toList.map (·, .initialiser) ++ test.toList.map (·, .expression) ++
        update.toList.map (·, .expression) ++ [(body, .statement)]
  | tryStmt body handler finalizer =>
      [(body, .statement)] ++ handler.toList.map (·, .handler) ++
        finalizer.toList.map (·, .statement)
  | catchClause param body => param.toList.map (·, .parameter) ++ [(body, .statement)]
  | throwStmt argument => [(argument, .expression)]
  | function shape =>
      shape.parameters.map (·, .parameter) ++
        [(shape.body, if shape.expressionBody then .expression else .statement)]
  | array elements => elements.map (·, .expression)
  | object properties => properties.map (·, .property)
  | property _ value => [(value, .expression)]
  | unary _ argument => [(argument, .expression)]
  | binary _ left right => [(left, .expression), (right, .expression)]
  | logical _ left right => [(left, .expression), (right, .expression)]
  | assign _ target value => [(target, .target), (value, .expression)]
  | conditional test consequent alternate =>
      [(test, .expression), (consequent, .expression), (alternate, .expression)]
  | call callee arguments | newExpr callee arguments =>
      (callee, .expression) :: arguments.map (·, .expression)
  | member owner (.named _) => [(owner, .expression)]
  | member owner (.computed key) => [(owner, .expression), (key, .expression)]
  | sequence expressions => expressions.map (·, .expression)

theorem map_fst_parts (kind : NodeKind) : kind.parts.map Prod.fst = kind.children := by
  cases kind with
  | member owner key => cases key <;> rfl
  | _ => simp [parts, children, Function.comp_def]

theorem mem_children_of_mem_parts {kind : NodeKind} {id : NodeId} {part : Part}
    (h : (id, part) ∈ kind.parts) : id ∈ kind.children := by
  rw [← map_fst_parts]
  exact List.mem_map_of_mem h

end NodeKind

/-- Whether nodes of a kind can stand in a place of a sort. -/
def Part.admits : Part → NodeKind → Bool
  | .statement, kind => kind.isStatement
  | .expression, kind => kind.isExpression
  | .declarator, .declarator _ _ => true
  | .parameter, .parameter _ => true
  | .property, .property _ _ => true
  | .handler, .catchClause _ _ => true
  | .target, .identifier _ => true
  | .target, .member _ _ => true
  | .initialiser, .declaration _ _ => true
  | .initialiser, kind => kind.isExpression
  | _, _ => false

def kindAt (nodes : Array Node) (id : NodeId) : NodeKind := (nodes.getD id default).kind

/-- The nodes from `lo` on and before `hi` are the subtrees of `roots`, one after the
other.  Every node lies directly after the subtrees of its parts and suits the place
it stands in. -/
inductive Forest (nodes : Array Node) : Nat → Nat → List (Nat × Part) → Prop
  | nil (lo : Nat) : Forest nodes lo lo []
  | snoc {lo mid : Nat} {roots : List (Nat × Part)} {id : Nat} {part : Part}
      (before : Forest nodes lo mid roots) (below : Forest nodes mid id (kindAt nodes id).parts)
      (inside : id < nodes.size) (suits : part.admits (kindAt nodes id)) :
      Forest nodes lo (id + 1) (roots ++ [(id, part)])

namespace Forest

variable {nodes : Array Node} {lo mid hi : Nat} {roots more : List (Nat × Part)}

theorem le (h : Forest nodes lo hi roots) : lo ≤ hi := by
  induction h with
  | nil => exact Nat.le_refl _
  | snoc _ _ _ _ ihBefore ihBelow => omega

theorem root_bounds (h : Forest nodes lo hi roots) {id : Nat} {part : Part}
    (hmem : (id, part) ∈ roots) : lo ≤ id ∧ id < hi ∧ id < nodes.size := by
  induction h with
  | nil => simp at hmem
  | snoc hbefore hbelow' hinside hsuits ihBefore ihBelow =>
      have hle := hbefore.le
      have hbelow := hbelow'.le
      rcases List.mem_append.mp hmem with hmem | hmem
      · have hb := ihBefore hmem
        omega
      · cases List.mem_singleton.mp hmem
        omega

theorem root_suits (h : Forest nodes lo hi roots) {id : Nat} {part : Part}
    (hmem : (id, part) ∈ roots) : part.admits (kindAt nodes id) := by
  induction h with
  | nil => simp at hmem
  | snoc hbefore hbelow hinside hsuits ihBefore ihBelow =>
      rcases List.mem_append.mp hmem with hmem | hmem
      · exact ihBefore hmem
      · cases List.mem_singleton.mp hmem
        exact hsuits

theorem append (h : Forest nodes lo mid roots) (hmore : Forest nodes mid hi more) :
    Forest nodes lo hi (roots ++ more) := by
  induction hmore with
  | nil => simpa using h
  | snoc hbefore hbelow hinside hsuits ihBefore ihBelow =>
      rw [← List.append_assoc]
      exact .snoc (ihBefore h) hbelow hinside hsuits

/-- A forest falls into the forest of its first trees and that of the others. -/
theorem split (h : Forest nodes lo hi (roots ++ more)) :
    ∃ mid, Forest nodes lo mid roots ∧ Forest nodes mid hi more := by
  generalize hall : roots ++ more = all at h
  induction h generalizing more with
  | nil lo =>
      obtain ⟨rfl, rfl⟩ := List.append_eq_nil_iff.mp hall
      exact ⟨lo, .nil lo, .nil lo⟩
  | @snoc lo mid front id part hbefore hbelow hinside hsuits ihBefore ihBelow =>
      rcases List.eq_nil_or_concat more with rfl | ⟨init, last, rfl⟩
      · rw [List.append_nil] at hall
        exact ⟨id + 1, hall ▸ .snoc hbefore hbelow hinside hsuits, .nil _⟩
      · rw [List.concat_eq_append, ← List.append_assoc] at hall
        obtain ⟨rfl, hlast⟩ := List.append_inj' hall rfl
        cases List.singleton_inj.mp hlast
        obtain ⟨cut, hroots, hinit⟩ := ihBefore rfl
        rw [List.concat_eq_append]
        exact ⟨cut, hroots, .snoc hinit hbelow hinside hsuits⟩

/-- A single tree may stand in any place that its root suits. -/
theorem replace_part {id : Nat} {part other : Part} (h : Forest nodes lo hi [(id, part)])
    (hsuits : other.admits (kindAt nodes id)) : Forest nodes lo hi [(id, other)] := by
  generalize hone : [(id, part)] = one at h
  cases h with
  | nil => simp at hone
  | snoc hbefore hbelow hinside _ =>
      rw [← List.nil_append [(id, part)]] at hone
      obtain ⟨rfl, hlast⟩ := List.append_inj' hone rfl
      cases List.singleton_inj.mp hlast
      exact .snoc hbefore hbelow hinside hsuits

/-- Appending a node to the arena leaves the subtrees in it what they were. -/
theorem push (h : Forest nodes lo hi roots) (hhi : hi ≤ nodes.size) (node : Node) :
    Forest (nodes.push node) lo hi roots := by
  induction h with
  | nil lo => exact .nil lo
  | @snoc lo mid front id part hbefore hbelow hinside hsuits ihBefore ihBelow =>
      have hmid : mid ≤ nodes.size := Nat.le_trans hbelow.le (by omega)
      have hkind : kindAt (nodes.push node) id = kindAt nodes id := by
        have hne : id ≠ nodes.size := Nat.ne_of_lt hinside
        simp [kindAt, Array.getElem?_push, hne]
      refine .snoc (ihBefore hmid) ?_ (by rw [Array.size_push]; omega) (by rwa [hkind])
      rw [hkind]
      exact ihBelow (by omega)

/-- A node of the range lies directly after the subtrees of its parts. -/
theorem below_of_mem (h : Forest nodes lo hi roots) {id : Nat} (hlo : lo ≤ id)
    (hhi : id < hi) : ∃ first, lo ≤ first ∧ Forest nodes first id (kindAt nodes id).parts := by
  induction h with
  | nil => omega
  | @snoc lo mid front last part hbefore hbelow' hinside hsuits ihBefore ihBelow =>
      have hle := hbefore.le
      rcases Nat.lt_or_ge id mid with hid | hid
      · exact ihBefore hlo hid
      · rcases Nat.lt_or_eq_of_le (Nat.le_of_lt_succ hhi) with hlast | rfl
        · obtain ⟨first, hfirst, hbelow⟩ := ihBelow hid hlast
          exact ⟨first, by omega, hbelow⟩
        · exact ⟨mid, hle, hbelow'⟩

end Forest

/-- A tree that a grammar can give: its last node is the program, which lies after its
statements, and there are no other nodes. -/
structure Tree.WellFormed (tree : Tree) : Prop where
  size_eq : tree.size = tree.root + 1
  program : ∃ body, tree.kind tree.root = .program body
  below : Forest tree.nodes 0 tree.root (tree.kind tree.root).parts

theorem Tree.function?_eq_some_iff {tree : Tree} {id : NodeId} {shape : FunctionShape} :
    tree.function? id = some shape ↔ tree.kind id = .function shape := by
  unfold Tree.function?
  cases tree.kind id with
  | function other => simp
  | _ => simp

theorem Tree.function?_eq_none_iff {tree : Tree} {id : NodeId} :
    tree.function? id = none ↔ ∀ shape, tree.kind id ≠ .function shape := by
  simp only [Option.eq_none_iff_forall_ne_some, ne_eq, Tree.function?_eq_some_iff]

namespace Tree.WellFormed

variable {tree : Tree}

theorem forest_below (h : tree.WellFormed) {id : Nat} (hid : id < tree.size) :
    ∃ first, Forest tree.nodes first id (tree.kind id).parts := by
  have hsize := h.size_eq
  rcases Nat.lt_or_ge id tree.root with hlt | hge
  · obtain ⟨first, -, hbelow⟩ := h.below.below_of_mem (Nat.zero_le id) hlt
    exact ⟨first, hbelow⟩
  · have heq : id = tree.root := by omega
    subst heq
    exact ⟨0, h.below⟩

theorem part_lt (h : tree.WellFormed) {id part : Nat} {sort : Part} (hid : id < tree.size)
    (hpart : (part, sort) ∈ (tree.kind id).parts) : part < id := by
  obtain ⟨first, hbelow⟩ := h.forest_below hid
  exact (hbelow.root_bounds hpart).2.1

theorem child_lt (h : tree.WellFormed) {id child : Nat} (hid : id < tree.size)
    (hchild : child ∈ tree.children id) : child < id := by
  rw [Tree.children, ← NodeKind.map_fst_parts] at hchild
  obtain ⟨⟨_, sort⟩, hpart, rfl⟩ := List.mem_map.mp hchild
  exact h.part_lt hid hpart

theorem part_suits (h : tree.WellFormed) {id part : Nat} {sort : Part}
    (hid : id < tree.size) (hpart : (part, sort) ∈ (tree.kind id).parts) :
    sort.admits (tree.kind part) := by
  obtain ⟨first, hbelow⟩ := h.forest_below hid
  exact hbelow.root_suits hpart

end Tree.WellFormed

end ScriptCheck
