import ScriptCheck.Proofs.Tree.Layout

/-!
# The function around a node

The node that a node is part of, and the innermost function that contains a node.
-/

namespace ScriptCheck

theorem Forest.exists_parent {nodes : Array Node} {lo hi : Nat} {roots : List (Nat × Part)}
    (h : Forest nodes lo hi roots) {id : Nat} (hlo : lo ≤ id) (hhi : id < hi) :
    id ∈ roots.map Prod.fst ∨
      ∃ parent < hi, id < parent ∧ id ∈ (kindAt nodes parent).parts.map Prod.fst := by
  induction h with
  | nil => omega
  | @snoc lo mid front last part hbefore hbelow' hinside hsuits ihBefore ihBelow =>
      have hbelow := hbelow'.le
      by_cases hmid : id < mid
      · rcases ihBefore hlo hmid with hroot | ⟨parent, hlt, hid, hpart⟩
        · exact .inl (by simpa using Or.inl hroot)
        · exact .inr ⟨parent, by omega, hid, hpart⟩
      · by_cases hlast : id = last
        · exact .inl (by simp [hlast])
        · rcases ihBelow (by omega) (by omega) with hpart | ⟨parent, hlt, hid, hpart⟩
          · exact .inr ⟨last, by omega, by omega, hpart⟩
          · exact .inr ⟨parent, by omega, hid, hpart⟩

namespace Tree

/-- The node that a node is a part of. -/
def parent? (tree : Tree) (id : Nat) : Option Nat :=
  (List.range tree.size).find? fun parent =>
    decide (id < parent) && (tree.children parent).contains id

/-- The innermost function that a node is inside of, none outside every function. -/
def functionAround? (tree : Tree) (id : Nat) : Option Nat :=
  match tree.parent? id with
  | none => none
  | some parent =>
      if id < parent ∧ parent < tree.size then
        if (tree.function? parent).isSome then some parent else tree.functionAround? parent
      else none
termination_by tree.size - id

variable {tree : Tree} {id parent : Nat}

theorem parent?_spec (h : tree.parent? id = some parent) :
    id < parent ∧ parent < tree.size ∧ id ∈ tree.children parent := by
  have hmem := List.mem_of_find?_eq_some h
  have hfound := List.find?_some h
  simp only [Bool.and_eq_true, decide_eq_true_eq, List.contains_iff_mem] at hfound
  exact ⟨hfound.1, List.mem_range.mp hmem, hfound.2⟩

theorem functionAround?_of_parent (h : tree.parent? id = some parent) :
    tree.functionAround? id =
      if (tree.function? parent).isSome then some parent else tree.functionAround? parent := by
  obtain ⟨hlt, hsize, -⟩ := parent?_spec h
  rw [functionAround?, h]
  exact if_pos ⟨hlt, hsize⟩

namespace WellFormed

/-- Every node but the program is a part of another. -/
theorem exists_parent? (h : tree.WellFormed) (hid : id < tree.root) :
    ∃ parent, tree.parent? id = some parent := by
  have hsize := h.size_eq
  have hpart : ∃ parent, id < parent ∧ parent < tree.size ∧ id ∈ tree.children parent := by
    rcases h.below.exists_parent (Nat.zero_le id) hid with hroot | ⟨parent, hlt, hafter, hpart⟩
    · refine ⟨tree.root, hid, by omega, ?_⟩
      rwa [children, ← NodeKind.map_fst_parts]
    · refine ⟨parent, hafter, by omega, ?_⟩
      rwa [children, ← NodeKind.map_fst_parts]
  obtain ⟨parent, hlt, hparent, hmem⟩ := hpart
  cases hfound : tree.parent? id with
  | some found => exact ⟨found, rfl⟩
  | none =>
      rw [parent?, List.find?_eq_none] at hfound
      have hnot := hfound parent (List.mem_range.mpr hparent)
      simp [hlt, hmem] at hnot

theorem parent?_root (h : tree.WellFormed) : tree.parent? tree.root = none := by
  have hsize := h.size_eq
  cases hfound : tree.parent? tree.root with
  | none => rfl
  | some parent =>
      obtain ⟨hlt, hparent, -⟩ := parent?_spec hfound
      omega

end WellFormed

end Tree

end ScriptCheck
