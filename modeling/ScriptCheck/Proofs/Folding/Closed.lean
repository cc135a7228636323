import ScriptCheck.Proofs.Folding.Memo
import ScriptCheck.Proofs.Tree.Layout
import ScriptCheck.Proofs.Value.Identity

/-!
# Expressions without names

An expression without names folds to a value that is made of its own arrays and objects: the
identities in it are nodes of the expression.  So the operands of an operator fold to values
that share no identity.
-/

namespace ScriptCheck

theorem Forest.below_root {nodes : Array Node} {lo hi : Nat} {roots : List (Nat × Part)}
    (h : Forest nodes lo hi roots) {id : Nat} {part : Part} (hmem : (id, part) ∈ roots) :
    ∃ first, lo ≤ first ∧ id < hi ∧ Forest nodes first id (kindAt nodes id).parts := by
  obtain ⟨hlo, hhi, -⟩ := h.root_bounds hmem
  obtain ⟨first, hfirst, hbelow⟩ := h.below_of_mem hlo hhi
  exact ⟨first, hfirst, hhi, hbelow⟩

namespace Folding

/-- An expression of literals, operators, conditions, arrays, objects and member accesses, each
by a name or by a key that folds to nothing but texts and numbers. -/
inductive Closed (tree : Tree) (graph : ScopeGraph) : NodeId → Prop
  | literal {id : NodeId} {literal : Literal} (kind : tree.kind id = .literal literal) :
      Closed tree graph id
  | unary {id argument : NodeId} {op : UnaryOp} (kind : tree.kind id = .unary op argument)
      (inner : Closed tree graph argument) : Closed tree graph id
  | binary {id left right : NodeId} {op : BinaryOp} (kind : tree.kind id = .binary op left right)
      (first : Closed tree graph left) (second : Closed tree graph right) : Closed tree graph id
  | logical {id left right : NodeId} {op : LogicalOp}
      (kind : tree.kind id = .logical op left right) (first : Closed tree graph left)
      (second : Closed tree graph right) : Closed tree graph id
  | conditional {id test consequent alternate : NodeId}
      (kind : tree.kind id = .conditional test consequent alternate)
      (tested : Closed tree graph test) (first : Closed tree graph consequent)
      (second : Closed tree graph alternate) : Closed tree graph id
  | array {id : NodeId} {elements : List NodeId} (kind : tree.kind id = .array elements)
      (each : ∀ element ∈ elements, Closed tree graph element) : Closed tree graph id
  | object {id : NodeId} {properties : List NodeId} (kind : tree.kind id = .object properties)
      (each : ∀ property ∈ properties, ∀ key value,
        tree.kind property = .property key value → Closed tree graph value) : Closed tree graph id
  | named {id owner : NodeId} {name : String} (kind : tree.kind id = .member owner (.named name))
      (inner : Closed tree graph owner) : Closed tree graph id
  | computed {id owner key : NodeId} (kind : tree.kind id = .member owner (.computed key))
      (inner : Closed tree graph owner) (keyed : Closed tree graph key)
      (texts : ∀ value, (tryFold tree graph key (Memo.empty tree)).1 = some value →
        isText value = true) : Closed tree graph id

variable {tree : Tree} {graph : ScopeGraph}

def propertyValue? : NodeKind → Option NodeId
  | .property _ value => some value
  | _ => none

def isClosed (tree : Tree) (graph : ScopeGraph) : Nat → NodeId → Bool
  | 0, _ => false
  | depth + 1, id =>
      match tree.kind id with
      | .literal _ => true
      | .unary _ argument => isClosed tree graph depth argument
      | .binary _ left right | .logical _ left right =>
          isClosed tree graph depth left && isClosed tree graph depth right
      | .conditional test consequent alternate =>
          isClosed tree graph depth test && isClosed tree graph depth consequent &&
            isClosed tree graph depth alternate
      | .array elements => elements.all (isClosed tree graph depth)
      | .object properties => properties.all fun property =>
        (propertyValue? (tree.kind property)).all (isClosed tree graph depth)
      | .member owner (.named _) => isClosed tree graph depth owner
      | .member owner (.computed key) =>
          isClosed tree graph depth owner && isClosed tree graph depth key &&
            (tryFold tree graph key (Memo.empty tree)).1.all isText
      | _ => false

theorem closed_of_isClosed {depth : Nat} {id : NodeId} (h : isClosed tree graph depth id = true) :
    Closed tree graph id := by
  induction depth generalizing id with
  | zero => cases h
  | succ depth ih =>
      rw [isClosed] at h
      cases hkind : tree.kind id with
      | literal => exact .literal hkind
      | unary op argument =>
          rw [hkind] at h
          exact .unary hkind (ih h)
      | binary op left right =>
          rw [hkind] at h
          obtain ⟨hleft, hright⟩ := Bool.and_eq_true_iff.mp h
          exact .binary hkind (ih hleft) (ih hright)
      | logical op left right =>
          rw [hkind] at h
          obtain ⟨hleft, hright⟩ := Bool.and_eq_true_iff.mp h
          exact .logical hkind (ih hleft) (ih hright)
      | conditional test consequent alternate =>
          rw [hkind] at h
          obtain ⟨hboth, halternate⟩ := Bool.and_eq_true_iff.mp h
          obtain ⟨htest, hconsequent⟩ := Bool.and_eq_true_iff.mp hboth
          exact .conditional hkind (ih htest) (ih hconsequent) (ih halternate)
      | array elements =>
          rw [hkind] at h
          have heach : ∀ element ∈ elements, isClosed tree graph depth element = true :=
            List.all_eq_true.mp h
          exact .array hkind fun element helement => ih (heach element helement)
      | object properties =>
          rw [hkind] at h
          refine .object hkind fun property hproperty key value hvalue => ih ?_
          have heach := List.all_eq_true.mp h property hproperty
          rwa [hvalue] at heach
      | member owner key =>
          rw [hkind] at h
          cases key with
          | named name => exact .named hkind (ih h)
          | computed key =>
              obtain ⟨hboth, htexts⟩ := Bool.and_eq_true_iff.mp h
              obtain ⟨howner, hkey⟩ := Bool.and_eq_true_iff.mp hboth
              refine .computed hkind (ih howner) (ih hkey) fun value hvalue => ?_
              rwa [hvalue] at htexts
      | _ =>
          rw [hkind] at h
          cases h

theorem isText_of_derivesIn {key : NodeId} {height : Nat} {value : Value}
    (h : DerivesIn tree graph height key value)
    (htexts : ∀ value, (tryFold tree graph key (Memo.empty tree)).1 = some value →
      isText value = true) : isText value = true :=
  htexts value (((tryFold_of_sound (Sound.empty tree graph) key).2 value).mpr ⟨height, h⟩)

/-- The identities of a value lie between two nodes. -/
def Spans (first last : Nat) (value : Value) : Prop :=
  ∀ tag ∈ value.identities, first ≤ tag ∧ tag ≤ last

theorem Spans.of_isPrimitive {first last : Nat} {value : Value} (h : value.isPrimitive = true) :
    Spans first last value := by
  intro tag htag
  rw [Value.identities_of_isPrimitive h] at htag
  cases htag

theorem Spans.mono {first last first' last' : Nat} {value : Value} (h : Spans first last value)
    (hfirst : first' ≤ first) (hlast : last ≤ last') : Spans first' last' value := by
  intro tag htag
  have hbounds := h tag htag
  omega

theorem Spans.of_get? {first last : Nat} {value inner : Value} {name : String}
    (h : Spans first last value) (hget : value.get? name = some inner) : Spans first last inner :=
  fun tag htag => h tag (Value.mem_identities_of_get? hget htag)

/-- A literal has its own node for an identity, which closes the range. -/
theorem Spans.array {first id : Nat} {values : List Value} (hself : first ≤ id)
    (h : ∀ value ∈ values, Spans first id value) : Spans first id (.array id values) := by
  intro tag htag
  rcases List.mem_cons.mp htag with rfl | htag
  · exact ⟨hself, Nat.le_refl _⟩
  · obtain ⟨value, hvalue, hin⟩ := Value.mem_elementIdentities.mp htag
    exact h value hvalue tag hin

theorem Spans.object {first id : Nat} {members : List (String × Value)} (hself : first ≤ id)
    (h : ∀ entry ∈ members, Spans first id entry.2) : Spans first id (.object id members) := by
  intro tag htag
  rcases List.mem_cons.mp htag with rfl | htag
  · exact ⟨hself, Nat.le_refl _⟩
  · obtain ⟨entry, hentry, hin⟩ := Value.mem_memberIdentities.mp htag
    exact h entry hentry tag hin

theorem Adds.imp_of_mem {R S : NodeId → Value → Prop} {properties : List NodeId}
    {record all : List (String × Value)} (h : Adds tree R properties record all)
    (himp : ∀ property ∈ properties, ∀ key value member,
      tree.kind property = .property key value → R value member → S value member) :
    Adds tree S properties record all := by
  induction h with
  | nil => exact .nil _
  | cons hkind hfirst _ ih =>
      refine .cons hkind (himp _ List.mem_cons_self _ _ _ hkind hfirst) (ih fun other hother => ?_)
      exact himp other (List.mem_cons_of_mem _ hother)

/-- All members of an object literal are those of some property. -/
theorem Adds.spans {R : NodeId → Value → Prop} {first last : Nat} {properties : List NodeId}
    {record all : List (String × Value)} (h : Adds tree R properties record all)
    (hrecord : ∀ entry ∈ record, Spans first last entry.2)
    (hmember : ∀ property ∈ properties, ∀ key value member,
      tree.kind property = .property key value → R value member → Spans first last member) :
    ∀ entry ∈ all, Spans first last entry.2 := by
  induction h with
  | nil => exact hrecord
  | @cons property value rest key member record all hkind hfirst _ ih =>
      refine ih (fun entry hentry => ?_) fun other hother =>
        hmember other (List.mem_cons_of_mem _ hother)
      rcases Record.eq_or_mem_of_mem_insert hentry with rfl | hentry
      · exact hmember property List.mem_cons_self key value member hkind hfirst
      · exact hrecord entry hentry

theorem isPrimitive_of_literal (literal : Literal) : literal.value.isPrimitive = true := by
  cases literal <;> rfl

theorem binary_of_foldBinary {op : BinaryOp} {a b value : Value}
    (h : foldBinary op a b = some value) : Value.binary op a b = some value := by
  unfold foldBinary at h
  split at h
  · exact h
  · cases h

theorem isPrimitive_of_foldUnary {op : UnaryOp} {operand value : Value}
    (h : foldUnary op operand = some value) : value.isPrimitive = true := by
  cases op with
  | minus | plus | bitNot =>
      rw [foldUnary] at h
      split at h
      · exact Value.isPrimitive_of_unary h
      · cases h
  | not | typeof | void =>
      cases h
      rfl
  | delete => cases h

theorem exists_of_forall₂ {R : NodeId → Value → Prop} {ids : List NodeId} {values : List Value}
    (h : List.Forall₂ R ids values) {value : Value} (hmem : value ∈ values) :
    ∃ id ∈ ids, R id value := by
  induction h with
  | nil => cases hmem
  | cons hfirst _ ih =>
      rcases List.mem_cons.mp hmem with rfl | hmem
      · exact ⟨_, List.mem_cons_self, hfirst⟩
      · obtain ⟨id, hid, hvalue⟩ := ih hmem
        exact ⟨id, List.mem_cons_of_mem _ hid, hvalue⟩

theorem forall₂_imp_of_mem {R S : NodeId → Value → Prop} {ids : List NodeId} {values : List Value}
    (h : List.Forall₂ R ids values) (himp : ∀ id ∈ ids, ∀ value, R id value → S id value) :
    List.Forall₂ S ids values := by
  induction h with
  | nil => exact .nil
  | cons hfirst _ ih =>
      refine .cons (himp _ List.mem_cons_self _ hfirst) (ih fun id hid => ?_)
      exact himp id (List.mem_cons_of_mem _ hid)

/-- The identities in what an expression without names folds to are nodes of the expression. -/
theorem Closed.spans {height : Nat} {id first : Nat} {value : Value} (h : Closed tree graph id)
    (hderives : DerivesIn tree graph height id value)
    (hbelow : Forest tree.nodes first id (tree.kind id).parts) : Spans first id value := by
  induction height generalizing id first value with
  | zero => exact hderives.elim
  | succ height ih =>
      have hpart : ∀ {part : Nat} {sort : Part} {value : Value}, Closed tree graph part →
          (part, sort) ∈ (tree.kind id).parts → DerivesIn tree graph height part value →
            Spans first id value := by
        intro part sort value hclosed hmem hvalue
        obtain ⟨start, hstart, hlt, hforest⟩ := hbelow.below_root hmem
        exact (ih hclosed hvalue hforest).mono hstart (Nat.le_of_lt hlt)
      have hself : first ≤ id := hbelow.le
      cases h with
      | literal hkind =>
          cases (Rule.literal_iff hkind).mp hderives
          exact .of_isPrimitive (isPrimitive_of_literal _)
      | unary hkind hclosed =>
          obtain ⟨operand, -, hvalue⟩ := (Rule.unary_iff hkind).mp hderives
          exact .of_isPrimitive (isPrimitive_of_foldUnary hvalue)
      | binary hkind hleft hright =>
          obtain ⟨a, -, b, -, hvalue⟩ := (Rule.binary_iff hkind).mp hderives
          exact .of_isPrimitive (Value.isPrimitive_of_binary (binary_of_foldBinary hvalue))
      | logical hkind hleft hright =>
          obtain ⟨value', hvalue, hresult⟩ := (Rule.logical_iff hkind).mp hderives
          rw [hkind] at hpart
          split at hresult
          · subst hresult
            exact hpart hleft List.mem_cons_self hvalue
          · exact hpart hright (List.mem_cons_of_mem _ List.mem_cons_self) hresult
      | conditional hkind htest hconsequent halternate =>
          obtain ⟨condition, -, hresult⟩ := (Rule.conditional_iff hkind).mp hderives
          rw [hkind] at hpart
          split at hresult
          · exact hpart hconsequent (List.mem_cons_of_mem _ List.mem_cons_self) hresult
          · exact hpart halternate (List.mem_cons_of_mem _ (List.mem_cons_of_mem _
              List.mem_cons_self)) hresult
      | array hkind hclosed =>
          obtain ⟨values, heach, rfl⟩ := (Rule.array_iff hkind).mp hderives
          rw [hkind] at hpart
          have hmembers : ∀ value ∈ values, Spans first id value := by
            intro value hvalue
            obtain ⟨element, helement, hderived⟩ := exists_of_forall₂ heach hvalue
            exact hpart (hclosed element helement) (List.mem_map_of_mem helement) hderived
          exact .array hself hmembers
      | object hkind hclosed =>
          obtain ⟨members, hadds, rfl⟩ := (Rule.object_iff hkind).mp hderives
          have hmembers : ∀ entry ∈ members, Spans first id entry.2 := by
            refine hadds.spans (fun entry hentry => by cases hentry) ?_
            intro property hproperty key value member hkeyed hmember
            have hmem : (property, Part.property) ∈ (tree.kind id).parts := by
              rw [hkind]
              exact List.mem_map_of_mem hproperty
            obtain ⟨start, hstart, hlt, hforest⟩ := hbelow.below_root hmem
            have hpropertyKind : kindAt tree.nodes property = .property key value := hkeyed
            rw [hpropertyKind] at hforest
            obtain ⟨inner, hinner, hbefore, hdeeper⟩ := hforest.below_root List.mem_cons_self
            exact (ih (hclosed property hproperty key value hkeyed) hmember hdeeper).mono
              (Nat.le_trans hstart hinner) (Nat.le_of_lt (Nat.lt_trans hbefore hlt))
          exact .object hself hmembers
      | named hkind hclosed =>
          obtain ⟨whole, hwhole, hget⟩ := (Rule.named_iff hkind).mp hderives
          rw [hkind] at hpart
          exact (hpart hclosed List.mem_cons_self hwhole).of_get? hget
      | computed hkind hclosed hkeyed htexts =>
          obtain ⟨whole, hwhole, name, -, hget⟩ := (Rule.computed_iff hkind).mp hderives
          rw [hkind] at hpart
          exact (hpart hclosed List.mem_cons_self hwhole).of_get? hget

/-- The operands of an operator fold to values that share no identity. -/
theorem Closed.apart {height : Nat} {id left right : Nat} {op : BinaryOp} {a b : Value}
    (htree : tree.WellFormed) (hid : id < tree.size) (hkind : tree.kind id = .binary op left right)
    (hleft : Closed tree graph left) (hright : Closed tree graph right)
    (ha : DerivesIn tree graph height left a) (hb : DerivesIn tree graph height right b) :
    a.Apart b := by
  obtain ⟨first, hbelow⟩ := htree.forest_below hid
  rw [hkind] at hbelow
  have hpair : Forest tree.nodes first id ([(left, .expression)] ++ [(right, .expression)]) :=
    hbelow
  obtain ⟨mid, hbefore, hafter⟩ := hpair.split
  obtain ⟨start, -, hlt, hforest⟩ := hbefore.below_root List.mem_cons_self
  obtain ⟨next, hnext, -, hother⟩ := hafter.below_root List.mem_cons_self
  have hspan := hleft.spans ha hforest
  have hspan' := hright.spans hb hother
  intro tag htag hmem
  have hbounds := hspan tag htag
  have hbounds' := hspan' tag hmem
  omega

end Folding

end ScriptCheck
