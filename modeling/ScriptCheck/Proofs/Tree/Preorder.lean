import ScriptCheck.Proofs.Tree.SourceOrder

/-!
# The nodes of a tree in preorder

A node comes before its parts, and the nodes of one part before those of the next.
-/

namespace ScriptCheck

namespace Tree

def preorderWithin (tree : Tree) : Nat → NodeId → List NodeId
  | 0, _ => []
  | depth + 1, id => id :: (tree.children id).flatMap (tree.preorderWithin depth)

def preorder (tree : Tree) (id : NodeId) : List NodeId := tree.preorderWithin (id + 1) id

variable {tree : Tree}

namespace WellFormed

/-- Parts lie before their node, so a depth greater than the node is enough. -/
theorem preorderWithin_eq (h : tree.WellFormed) {id : NodeId} (hid : id < tree.size)
    {depth : Nat} (hdepth : id < depth) : tree.preorderWithin depth id = tree.preorder id := by
  induction id using Nat.strongRecOn generalizing depth with
  | ind id ih =>
      cases depth with
      | zero => exact absurd hdepth (Nat.not_lt_zero id)
      | succ depth =>
          refine congrArg (id :: ·) (List.flatMap_congr fun child hchild => ?_)
          have hlt := h.child_lt hid hchild
          have hsize := Nat.lt_trans hlt hid
          rw [ih child hlt hsize (Nat.lt_of_lt_of_le hlt (Nat.le_of_lt_succ hdepth)),
            ih child hlt hsize hlt]

/-- The subtree of a node is the node and then the subtrees of its parts. -/
theorem preorder_eq (h : tree.WellFormed) {id : NodeId} (hid : id < tree.size) :
    tree.preorder id = id :: (tree.children id).flatMap tree.preorder := by
  refine congrArg (id :: ·) (List.flatMap_congr fun child hchild => ?_)
  have hlt := h.child_lt hid hchild
  exact h.preorderWithin_eq (Nat.lt_trans hlt hid) hlt

theorem preorder_perm (h : tree.WellFormed) {first id : Nat} (hid : id < tree.size)
    (hle : first ≤ id)
    (hparts : ((tree.children id).flatMap tree.preorder).Perm (List.range' first (id - first))) :
    (tree.preorder id).Perm (List.range' first (id + 1 - first)) := by
  have hrange : List.range' first (id + 1 - first) = List.range' first (id - first) ++ [id] := by
    rw [show id + 1 - first = (id - first) + 1 by omega, List.range'_1_concat,
      show first + (id - first) = id by omega]
  rw [h.preorder_eq hid, hrange]
  exact (hparts.cons id).trans (List.perm_append_singleton id _).symm

end WellFormed

end Tree

/-- The subtrees of a forest have the nodes of its range, each once. -/
theorem Forest.preorder_perm {tree : Tree} (h : tree.WellFormed) {lo hi : Nat}
    {roots : List (Nat × Part)} (hforest : Forest tree.nodes lo hi roots) :
    ((roots.map Prod.fst).flatMap tree.preorder).Perm (List.range' lo (hi - lo)) := by
  induction hforest with
  | nil => simp
  | @snoc lo mid front id part hbefore hbelow hinside hsuits ihBefore ihBelow =>
      have hlo := hbefore.le
      have hmid := hbelow.le
      rw [NodeKind.map_fst_parts] at ihBelow
      have hlast := h.preorder_perm hinside hmid ihBelow
      rw [List.map_append, List.flatMap_append, List.map_singleton, List.flatMap_singleton,
        show id + 1 - lo = (mid - lo) + (id + 1 - mid) by omega, ← List.range'_append_1,
        show lo + (mid - lo) = mid by omega]
      exact ihBefore.append hlast

namespace Tree.WellFormed

variable {tree : Tree}

theorem nodup_children (h : tree.WellFormed) (id : NodeId) : (tree.children id).Nodup := by
  rcases Nat.lt_or_ge id tree.size with hid | hid
  · have hnodup := h.perm_children.nodup_iff.mpr List.nodup_range
    exact (List.nodup_flatMap.mp hnodup).1 id (List.mem_range.mpr hid)
  · cases hchildren : tree.children id with
    | nil => exact List.nodup_nil
    | cons part rest =>
        have hpart : part ∈ tree.children id := by simp [hchildren]
        exact absurd (Tree.size_gt_of_mem_children hpart) (Nat.not_lt.mpr hid)

/-- The preorder of a tree has every node once. -/
theorem preorder_root_perm (h : tree.WellFormed) :
    (tree.preorder tree.root).Perm (List.range tree.size) := by
  have hroot : tree.root < tree.size := by
    rw [h.size_eq]
    exact Nat.lt_succ_self _
  have hbelow := h.below.preorder_perm h
  rw [NodeKind.map_fst_parts] at hbelow
  have hall := h.preorder_perm hroot (Nat.zero_le _) hbelow
  rwa [Nat.sub_zero, ← List.range_eq_range', ← h.size_eq] at hall

theorem mem_preorder_root (h : tree.WellFormed) {id : NodeId} :
    id ∈ tree.preorder tree.root ↔ id < tree.size := by
  rw [h.preorder_root_perm.mem_iff, List.mem_range]

theorem nodup_preorder_root (h : tree.WellFormed) : (tree.preorder tree.root).Nodup :=
  h.preorder_root_perm.nodup_iff.mpr List.nodup_range

end Tree.WellFormed

end ScriptCheck
