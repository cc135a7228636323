import Mathlib.Data.List.Forall2
import ScriptCheck.Proofs.Grammar.Writing

/-!
# Expressions in an arena

What it is for a node to stand for an expression.  A node keeps doing so when others are
appended to the arena.
-/

namespace ScriptCheck

/-! ## Expressions in an arena -/

mutual

/-- A node stands for a place. -/
def Place.StandsAt (nodes : Array Node) : Place → NodeId → Prop
  | .identifier name, id => kindAt nodes id = .identifier name
  | .named owner name, id =>
      ∃ ownerId, kindAt nodes id = .member ownerId (.named name) ∧ owner.StandsAt nodes ownerId
  | .computed owner key, id =>
      ∃ ownerId keyId, kindAt nodes id = .member ownerId (.computed keyId) ∧
        owner.StandsAt nodes ownerId ∧ key.StandsAt nodes keyId

/-- A node stands for an expression: it is of the right kind, and so are the nodes of its
parts. -/
def Expression.StandsAt (nodes : Array Node) : Expression → NodeId → Prop
  | .literal written, id => kindAt nodes id = .literal written.literal
  | .this, id => kindAt nodes id = .thisExpr
  | .place place, id => place.StandsAt nodes id
  | .array elements, id => ∃ ids, kindAt nodes id = .array ids ∧ ItemsStandAt nodes elements ids
  | .object properties, id =>
      ∃ ids, kindAt nodes id = .object ids ∧ PropertiesStandAt nodes properties ids
  | .unary op argument, id =>
      ∃ argumentId, kindAt nodes id = .unary op argumentId ∧ argument.StandsAt nodes argumentId
  | .binary op left right, id =>
      ∃ leftId rightId, kindAt nodes id = .binary op leftId rightId ∧
        left.StandsAt nodes leftId ∧ right.StandsAt nodes rightId
  | .logical op left right, id =>
      ∃ leftId rightId, kindAt nodes id = .logical op leftId rightId ∧
        left.StandsAt nodes leftId ∧ right.StandsAt nodes rightId
  | .assign op target value, id =>
      ∃ targetId valueId, kindAt nodes id = .assign op targetId valueId ∧
        target.StandsAt nodes targetId ∧ value.StandsAt nodes valueId
  | .conditional test consequent alternate, id =>
      ∃ testId consequentId alternateId,
        kindAt nodes id = .conditional testId consequentId alternateId ∧
          test.StandsAt nodes testId ∧ consequent.StandsAt nodes consequentId ∧
            alternate.StandsAt nodes alternateId
  | .call callee arguments, id =>
      ∃ calleeId ids, kindAt nodes id = .call calleeId ids ∧
        callee.StandsAt nodes calleeId ∧ ItemsStandAt nodes arguments ids
  | .construct callee arguments, id =>
      ∃ calleeId ids, kindAt nodes id = .newExpr calleeId ids ∧
        callee.StandsAt nodes calleeId ∧ ItemsStandAt nodes arguments ids
  | .sequence first second rest, id =>
      ∃ firstId secondId ids, kindAt nodes id = .sequence (firstId :: secondId :: ids) ∧
        first.StandsAt nodes firstId ∧ second.StandsAt nodes secondId ∧
          ItemsStandAt nodes rest ids

def ItemsStandAt (nodes : Array Node) : List Expression → List NodeId → Prop
  | [], [] => True
  | item :: rest, id :: ids => item.StandsAt nodes id ∧ ItemsStandAt nodes rest ids
  | _, _ => False

def PropertiesStandAt (nodes : Array Node) : List (String × Expression) → List NodeId → Prop
  | [], [] => True
  | (key, value) :: rest, id :: ids =>
      (∃ valueId, kindAt nodes id = .property key valueId ∧ value.StandsAt nodes valueId) ∧
        PropertiesStandAt nodes rest ids
  | _, _ => False

end

/-! ## Arenas that grow -/

/-- One arena goes on from another: the kinds of its nodes are what they were. -/
structure Appends (before after : Array Node) : Prop where
  size_le : before.size ≤ after.size
  kindAt_eq : ∀ id < before.size, kindAt after id = kindAt before id

namespace Appends

variable {before between after : Array Node}

theorem refl (nodes : Array Node) : Appends nodes nodes := ⟨Nat.le_refl _, fun _ _ => rfl⟩

theorem trans (h : Appends before between) (h' : Appends between after) :
    Appends before after where
  size_le := Nat.le_trans h.size_le h'.size_le
  kindAt_eq id hid := by
    rw [h'.kindAt_eq id (Nat.lt_of_lt_of_le hid h.size_le), h.kindAt_eq id hid]

theorem push (nodes : Array Node) (node : Node) : Appends nodes (nodes.push node) where
  size_le := by simp
  kindAt_eq id hid := by simp [kindAt, Array.getElem?_push, Nat.ne_of_lt hid]

/-- A node of the arena is what it was; only one outside it is an empty statement. -/
theorem kindAt_of_ne_empty (h : Appends before after) {id : NodeId}
    (hne : kindAt before id ≠ .empty) : kindAt after id = kindAt before id := by
  by_cases hid : id < before.size
  · exact h.kindAt_eq id hid
  · exact absurd (by simp [kindAt, Nat.not_lt.mp hid]; rfl) hne

end Appends

@[simp] theorem kindAt_push_size (nodes : Array Node) (node : Node) :
    kindAt (nodes.push node) nodes.size = node.kind := by simp [kindAt]

/-! ## Nodes that keep standing -/

theorem itemsStandAt_iff {nodes : Array Node} {items : List Expression} {ids : List NodeId} :
    ItemsStandAt nodes items ids ↔ List.Forall₂ (Expression.StandsAt nodes) items ids := by
  induction items generalizing ids with
  | nil => cases ids <;> simp [ItemsStandAt]
  | cons item rest ih => cases ids <;> simp [ItemsStandAt, ih]

def PropertyStandsAt (nodes : Array Node) (property : String × Expression) (id : NodeId) : Prop :=
  ∃ valueId, kindAt nodes id = .property property.1 valueId ∧ property.2.StandsAt nodes valueId

theorem propertiesStandAt_iff {nodes : Array Node} {properties : List (String × Expression)}
    {ids : List NodeId} :
    PropertiesStandAt nodes properties ids ↔
      List.Forall₂ (PropertyStandsAt nodes) properties ids := by
  induction properties generalizing ids with
  | nil => cases ids <;> simp [PropertiesStandAt]
  | cons property rest ih =>
      cases ids <;> simp [PropertiesStandAt, PropertyStandsAt, ih]

theorem Appends.kindAt {before after : Array Node} (h : Appends before after) {id : NodeId}
    {kind : NodeKind} (hkind : ScriptCheck.kindAt before id = kind) (hne : kind ≠ .empty) :
    ScriptCheck.kindAt after id = kind := by
  subst hkind
  exact h.kindAt_of_ne_empty hne

mutual

theorem Place.StandsAt.appends {before after : Array Node} (h : Appends before after) :
    ∀ {place : Place} {id : NodeId}, place.StandsAt before id → place.StandsAt after id
  | .identifier name, id, hplace => by
    rw [Place.StandsAt] at *
    exact h.kindAt hplace (by simp)
  | .named owner name, id, hplace => by
    rw [Place.StandsAt] at *
    obtain ⟨ownerId, hkind, howner⟩ := hplace
    exact ⟨ownerId, h.kindAt hkind (by simp), Expression.StandsAt.appends h howner⟩
  | .computed owner key, id, hplace => by
    rw [Place.StandsAt] at *
    obtain ⟨ownerId, keyId, hkind, howner, hkey⟩ := hplace
    exact ⟨ownerId, keyId, h.kindAt hkind (by simp), Expression.StandsAt.appends h howner,
      Expression.StandsAt.appends h hkey⟩

/-- Nodes that are appended leave those of an expression what they are. -/
theorem Expression.StandsAt.appends {before after : Array Node} (h : Appends before after) :
    ∀ {e : Expression} {id : NodeId}, e.StandsAt before id → e.StandsAt after id
  | .literal written, id, he => by
    rw [Expression.StandsAt] at *
    exact h.kindAt he (by simp)
  | .this, id, he => by
    rw [Expression.StandsAt] at *
    exact h.kindAt he (by simp)
  | .place place, id, he => by
    rw [Expression.StandsAt] at *
    exact Place.StandsAt.appends h he
  | .array elements, id, he => by
    rw [Expression.StandsAt] at *
    obtain ⟨ids, hkind, helements⟩ := he
    exact ⟨ids, h.kindAt hkind (by simp), ItemsStandAt.appends h helements⟩
  | .object properties, id, he => by
    rw [Expression.StandsAt] at *
    obtain ⟨ids, hkind, hproperties⟩ := he
    exact ⟨ids, h.kindAt hkind (by simp), PropertiesStandAt.appends h hproperties⟩
  | .unary op argument, id, he => by
    rw [Expression.StandsAt] at *
    obtain ⟨argumentId, hkind, hargument⟩ := he
    exact ⟨argumentId, h.kindAt hkind (by simp), Expression.StandsAt.appends h hargument⟩
  | .binary op left right, id, he => by
    rw [Expression.StandsAt] at *
    obtain ⟨leftId, rightId, hkind, hleft, hright⟩ := he
    exact ⟨leftId, rightId, h.kindAt hkind (by simp), Expression.StandsAt.appends h hleft,
      Expression.StandsAt.appends h hright⟩
  | .logical op left right, id, he => by
    rw [Expression.StandsAt] at *
    obtain ⟨leftId, rightId, hkind, hleft, hright⟩ := he
    exact ⟨leftId, rightId, h.kindAt hkind (by simp), Expression.StandsAt.appends h hleft,
      Expression.StandsAt.appends h hright⟩
  | .assign op target value, id, he => by
    rw [Expression.StandsAt] at *
    obtain ⟨targetId, valueId, hkind, htarget, hvalue⟩ := he
    exact ⟨targetId, valueId, h.kindAt hkind (by simp), Place.StandsAt.appends h htarget,
      Expression.StandsAt.appends h hvalue⟩
  | .conditional test consequent alternate, id, he => by
    rw [Expression.StandsAt] at *
    obtain ⟨testId, consequentId, alternateId, hkind, htest, hconsequent, halternate⟩ := he
    exact ⟨testId, consequentId, alternateId, h.kindAt hkind (by simp),
      Expression.StandsAt.appends h htest, Expression.StandsAt.appends h hconsequent,
      Expression.StandsAt.appends h halternate⟩
  | .call callee arguments, id, he => by
    rw [Expression.StandsAt] at *
    obtain ⟨calleeId, ids, hkind, hcallee, harguments⟩ := he
    exact ⟨calleeId, ids, h.kindAt hkind (by simp), Expression.StandsAt.appends h hcallee,
      ItemsStandAt.appends h harguments⟩
  | .construct callee arguments, id, he => by
    rw [Expression.StandsAt] at *
    obtain ⟨calleeId, ids, hkind, hcallee, harguments⟩ := he
    exact ⟨calleeId, ids, h.kindAt hkind (by simp), Expression.StandsAt.appends h hcallee,
      ItemsStandAt.appends h harguments⟩
  | .sequence first second rest, id, he => by
    rw [Expression.StandsAt] at *
    obtain ⟨firstId, secondId, ids, hkind, hfirst, hsecond, hrest⟩ := he
    exact ⟨firstId, secondId, ids, h.kindAt hkind (by simp), Expression.StandsAt.appends h hfirst,
      Expression.StandsAt.appends h hsecond, ItemsStandAt.appends h hrest⟩

theorem ItemsStandAt.appends {before after : Array Node} (h : Appends before after) :
    ∀ {items : List Expression} {ids : List NodeId}, ItemsStandAt before items ids →
      ItemsStandAt after items ids
  | [], [], _ => by simp [ItemsStandAt]
  | [], _ :: _, hitems => by simp [ItemsStandAt] at hitems
  | item :: rest, [], hitems => by simp [ItemsStandAt] at hitems
  | item :: rest, id :: ids, hitems => by
    rw [ItemsStandAt] at *
    exact ⟨Expression.StandsAt.appends h hitems.1, ItemsStandAt.appends h hitems.2⟩

theorem PropertiesStandAt.appends {before after : Array Node} (h : Appends before after) :
    ∀ {properties : List (String × Expression)} {ids : List NodeId},
      PropertiesStandAt before properties ids → PropertiesStandAt after properties ids
  | [], [], _ => by simp [PropertiesStandAt]
  | [], _ :: _, hproperties => by simp [PropertiesStandAt] at hproperties
  | property :: rest, [], hproperties => by simp [PropertiesStandAt] at hproperties
  | (key, value) :: rest, id :: ids, hproperties => by
    rw [PropertiesStandAt] at *
    obtain ⟨⟨valueId, hkind, hvalue⟩, hrest⟩ := hproperties
    exact ⟨⟨valueId, h.kindAt hkind (by simp), Expression.StandsAt.appends h hvalue⟩,
      PropertiesStandAt.appends h hrest⟩

end

end ScriptCheck
