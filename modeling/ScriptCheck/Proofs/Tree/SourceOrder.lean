import Mathlib.Data.List.Nodup
import Mathlib.Data.List.Pairwise
import ScriptCheck.Proofs.Grammar.Layout
import ScriptCheck.Proofs.Grammar.Order
import ScriptCheck.Proofs.Token.Rising

/-!
# Trees in the order of their source

The arena of a script is a tree: its root is the last node, and every other node is a child
of exactly one.  The text that a node was read from lies within that of its parent, and the
texts of siblings follow one another.
-/

namespace ScriptCheck

/-! ## Parents -/

theorem Forest.perm {nodes : Array Node} {lo hi : Nat} {roots : List (Nat × Part)}
    (h : Forest nodes lo hi roots) :
    ((List.range' lo (hi - lo)).flatMap (fun id => (kindAt nodes id).children) ++
      roots.map Prod.fst).Perm (List.range' lo (hi - lo)) := by
  induction h with
  | nil lo => simp
  | @snoc lo mid roots id part hbefore' hbelow' hinside hsuits ihBefore ihBelow =>
      have hle := hbefore'.le
      have hle' := hbelow'.le
      have hrange : List.range' lo (id + 1 - lo) =
          List.range' lo (mid - lo) ++ (List.range' mid (id - mid) ++ [id]) := by
        rw [show id + 1 - lo = (mid - lo) + ((id - mid) + 1) by omega, ← List.range'_append_1,
          show lo + (mid - lo) = mid by omega, ← List.range'_append_1,
          show mid + (id - mid) = id by omega]
        rfl
      rw [NodeKind.map_fst_parts] at ihBelow
      rw [hrange]
      refine List.perm_iff_count.mpr fun other => ?_
      have hbefore := ihBefore.count_eq other
      have hbelow := ihBelow.count_eq other
      simp only [List.flatMap_append, List.flatMap_singleton, List.map_append, List.map_cons,
        List.map_nil, List.count_append] at *
      omega

namespace Tree

variable {tree : Tree}

/-- The children of all nodes are all nodes but the root, each once. -/
theorem WellFormed.perm_children (h : tree.WellFormed) :
    ((List.range tree.size).flatMap tree.children).Perm (List.range tree.root) := by
  have hbelow := h.below.perm
  rw [NodeKind.map_fst_parts, Nat.sub_zero, ← List.range_eq_range'] at hbelow
  rw [h.size_eq, List.range_succ, List.flatMap_append, List.flatMap_singleton]
  exact hbelow

theorem size_gt_of_mem_children {id child : NodeId} (h : child ∈ tree.children id) :
    id < tree.size := by
  refine Nat.lt_of_not_le fun hle => ?_
  have hnode : tree.node id = default := by
    unfold Tree.size at hle
    simp [Tree.node, hle]
  rw [Tree.children, Tree.kind, hnode] at h
  cases h

/-- A node that is not the root is a child once, of one node. -/
theorem WellFormed.existsUnique_parent (h : tree.WellFormed) {id : NodeId} (hid : id < tree.size)
    (hroot : id ≠ tree.root) :
    ∃ parent, (tree.children parent).count id = 1 ∧
      ∀ other, id ∈ tree.children other → other = parent := by
  have hperm := h.perm_children
  have hle : id ≤ tree.root := Nat.le_of_lt_succ (by rwa [h.size_eq] at hid)
  have hnodup := hperm.nodup_iff.mpr List.nodup_range
  rw [List.nodup_flatMap] at hnodup
  have hmem : id ∈ (List.range tree.size).flatMap tree.children :=
    hperm.mem_iff.mpr (List.mem_range.mpr (Nat.lt_of_le_of_ne hle hroot))
  obtain ⟨parent, hparent, hchild⟩ := List.mem_flatMap.mp hmem
  refine ⟨parent, List.count_eq_one_of_mem (hnodup.1 parent hparent) hchild, fun other hother => ?_⟩
  refine Decidable.byContradiction fun hne => ?_
  have hsymm : Std.Symm (Function.onFun List.Disjoint tree.children) :=
    ⟨fun _ _ h _ hfirst hsecond => h hsecond hfirst⟩
  have hdisjoint := hnodup.2.forall
    (List.mem_range.mpr (size_gt_of_mem_children hother)) hparent hne
  exact hdisjoint hother hchild

end Tree

/-! ## Spans -/

section Spans

variable {stream : TokenStream} {read : List Token} {stop : Position} {nodes : Array Node}
  {id child lo hi i j i' j' : Nat}

def spanAt (nodes : Array Node) (id : NodeId) : Span := (nodes.getD id default).span

theorem ReadFrom.start_lt_stop (hstream : stream.OfRising read stop)
    (h : ReadFrom stream nodes id i j) :
    (spanAt nodes id).start.offset < (spanAt nodes id).stop.offset := by
  have hlt := h.lt
  have hstop := h.stop_lt
  unfold spanAt
  rw [h.start_eq, h.stop_eq]
  have hfirst := hstream.start_lt_stop (by omega : i + 1 < stream.size)
  rcases Nat.lt_or_eq_of_le (by omega : i ≤ j - 1) with hmany | hone
  · have hlast := hstream.start_lt_stop (by omega : j - 1 + 1 < stream.size)
    have hbetween := hstream.stop_le_start hmany (by omega)
    omega
  · rwa [← hone]

/-- What is read from tokens among those of another lies within it. -/
theorem ReadFrom.within (hstream : stream.OfRising read stop)
    (h : ReadFrom stream nodes id i j) (h' : ReadFrom stream nodes child i' j') (hi : i ≤ i')
    (hj : j' ≤ j) :
    (spanAt nodes id).start.offset ≤ (spanAt nodes child).start.offset ∧
      (spanAt nodes child).stop.offset ≤ (spanAt nodes id).stop.offset := by
  have hlt := h'.lt
  have hstop := h.stop_lt
  unfold spanAt
  rw [h.start_eq, h.stop_eq, h'.start_eq, h'.stop_eq]
  constructor
  · rcases Nat.lt_or_eq_of_le hi with hlater | rfl
    · have hfirst := hstream.start_lt_stop (by omega : i + 1 < stream.size)
      have hbetween := hstream.stop_le_start hlater (by omega)
      omega
    · exact Nat.le_refl _
  · rcases Nat.lt_or_eq_of_le (by omega : j' - 1 ≤ j - 1) with hearlier | heq
    · have hlast := hstream.start_lt_stop (by omega : j - 1 + 1 < stream.size)
      have hbetween := hstream.stop_le_start hearlier (by omega)
      omega
    · exact Nat.le_of_eq (congrArg (fun k => (stream.get k).span.stop.offset) heq)

theorem ReadFrom.stop_le_start (hstream : stream.OfRising read stop)
    (h : ReadFrom stream nodes id i j) (h' : ReadFrom stream nodes child i' j') (hle : j ≤ i') :
    (spanAt nodes id).stop.offset ≤ (spanAt nodes child).start.offset := by
  have hlt := h.lt
  have hlt' := h'.lt
  have hstop := h'.stop_lt
  unfold spanAt
  rw [h.stop_eq, h'.start_eq]
  exact hstream.stop_le_start (by omega) (by omega)

end Spans

/-- The arena is a tree in the order of the source. -/
structure Tree.InSourceOrder (tree : Tree) : Prop where
  root_last : tree.size = tree.root + 1
  parent : ∀ id < tree.size, id ≠ tree.root → ∃ parent, (tree.children parent).count id = 1 ∧
    ∀ other, id ∈ tree.children other → other = parent
  child_lt : ∀ id, ∀ child ∈ tree.children id, child < id
  within : ∀ id, ∀ child ∈ tree.children id,
    (tree.span id).start.offset ≤ (tree.span child).start.offset ∧
      (tree.span child).stop.offset ≤ (tree.span id).stop.offset
  child_nonempty : ∀ id, ∀ child ∈ tree.children id,
    (tree.span child).start.offset < (tree.span child).stop.offset
  siblings : ∀ id, (tree.children id).Pairwise fun child later =>
    (tree.span child).stop.offset ≤ (tree.span later).start.offset

/-- What is read from the tokens of a text, or from some of the first of them, is a tree in
the order of the text. -/
theorem Tree.inSourceOrder_of_tokenize {source file : String} {all : List Token} {n : Nat}
    {tree : Tree} (hall : Lexer.tokenize source = .ok all)
    (htree : Tree.ofTokens (all.take n) file = .ok tree) : tree.InSourceOrder := by
  have hformed := Tree.wellFormed_of_ofTokens htree
  obtain ⟨read, stop, hstream⟩ := TokenStream.ofRising_of_tokenize hall n
  have hordered := Tree.orderedBelow_of_ofTokens hstream.closed htree
  have hread : ∀ id, tree.children id ≠ [] → ∃ i j,
      ReadFrom (TokenStream.ofTokens (all.take n)) tree.nodes id i j ∧
        Strung (TokenStream.ofTokens (all.take n)) tree.nodes i j
          ((tree.children id).map .node) := by
    intro id hne
    obtain ⟨child, hchild⟩ := List.exists_mem_of_ne_nil _ hne
    exact hordered id (size_gt_of_mem_children hchild) hne
  refine ⟨hformed.size_eq, fun id hid => hformed.existsUnique_parent hid, ?_, ?_, ?_, ?_⟩
  · intro id child hchild
    exact hformed.child_lt (size_gt_of_mem_children hchild) hchild
  · intro id child hchild
    obtain ⟨i, j, hfrom, hstrung⟩ := hread id (List.ne_nil_of_mem hchild)
    obtain ⟨i', j', hi, hj, hfrom'⟩ := hstrung.readFrom_of_mem hchild
    exact hfrom.within hstream hfrom' hi hj
  · intro id child hchild
    obtain ⟨i, j, hfrom, hstrung⟩ := hread id (List.ne_nil_of_mem hchild)
    obtain ⟨i', j', -, -, hfrom'⟩ := hstrung.readFrom_of_mem hchild
    exact hfrom'.start_lt_stop hstream
  · intro id
    by_cases hne : tree.children id = []
    · rw [hne]
      exact .nil
    · obtain ⟨i, j, hfrom, hstrung⟩ := hread id hne
      refine hstrung.pairwise_readFrom.imp ?_
      rintro child later ⟨i, j, i', j', hfrom, hfrom', hle⟩
      exact hfrom.stop_le_start hstream hfrom' hle

/-- A script of which the theorem below leaves out the last statement. -/
def cutScript : String := "if ((a)) f(-b, \x7bc\x7d); else p => q; d"

theorem inSourceOrder_cutScript :
    ∃ all tree, Lexer.tokenize cutScript = .ok all ∧ all.length = 23 ∧
      Tree.ofTokens (all.take 21) "" = .ok tree ∧ tree.root = 14 ∧ tree.InSourceOrder := by
  have hall : ((Lexer.tokenize cutScript).toOption.any
      fun all => decide (all.length = 23)) = true := by decide +kernel
  have hread : ((Tree.ofTokens (((Lexer.tokenize cutScript).toOption.getD []).take 21)
    "").toOption.any
      fun tree => decide (tree.root = 14)) = true := by decide +kernel
  cases htokens : Lexer.tokenize cutScript with
  | error fault =>
      rw [htokens] at hall
      cases hall
  | ok all =>
      rw [htokens] at hall hread
      change ((Tree.ofTokens (all.take 21) "").toOption.any _) = true at hread
      cases htree : Tree.ofTokens (all.take 21) "" with
      | error halt =>
          rw [htree] at hread
          cases hread
      | ok tree =>
          rw [htree] at hread
          exact ⟨all, tree, rfl, of_decide_eq_true hall, htree, of_decide_eq_true hread,
            Tree.inSourceOrder_of_tokenize htokens htree⟩

end ScriptCheck
