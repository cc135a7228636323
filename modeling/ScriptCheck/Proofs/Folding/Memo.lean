import Mathlib.Data.List.Nodup
import Mathlib.Data.List.Perm.Subperm
import ScriptCheck.Check.Program
import ScriptCheck.Proofs.Folding.Derivation

/-!
# The memo of folding

The memo and the mark on the nodes under way are transparent: whatever was asked before, a
node folds to a value exactly if the value has a derivation.

A node that is met again while it is being folded is one that each node under way needs,
itself among them, at a smaller height.  So it has no derivation at all, and to give it no
value is never premature.
-/

namespace ScriptCheck.Folding

variable {tree : Tree} {graph : ScopeGraph}

/-! ## What a computation with the memo finds -/

/-- What a memo holds while the nodes of a path are being folded: they are marked, and each
result that is kept is the right one. -/
structure Sound (tree : Tree) (graph : ScopeGraph) (path : List NodeId) (memo : Memo) :
    Prop where
  size_eq : memo.size = tree.size
  active : ∀ id, memo.getD id .unseen = .active ↔ id ∈ path
  known : ∀ id result, memo.getD id .unseen = .known result →
    ∀ value, result = some value ↔ Derives tree graph id value

/-- Each node of a path has a derivation only through one of a part of the computation. -/
def Needed {α : Type} (tree : Tree) (graph : ScopeGraph) (path : List NodeId)
    (D : Nat → α → Prop) : Prop :=
  ∀ id ∈ path, ∀ height value, DerivesIn tree graph (height + 1) id value →
    ∃ lower ≤ height, ∃ result, D lower result

/-- Where every node under way needs what a computation looks for, the computation finds
exactly what `D` allows at some height, and leaves a sound memo. -/
structure Finds {α : Type} (tree : Tree) (graph : ScopeGraph) (path : List NodeId)
    (computation : Fold α) (D : Nat → α → Prop) : Prop where
  mono : ∀ {height higher result}, height ≤ higher → D height result → D higher result
  run : Needed tree graph path D → ∀ memo, Sound tree graph path memo →
    ∃ found next, computation.run memo = (found, next) ∧ Sound tree graph path next ∧
      ∀ result, found = some result ↔ ∃ height, D height result

namespace Finds

variable {α β : Type} {path : List NodeId}

theorem congr {computation : Fold α} {D E : Nat → α → Prop}
    (h : Finds tree graph path computation D) (hiff : ∀ height result, D height result ↔
      E height result) : Finds tree graph path computation E := by
  have heq : D = E := by
    funext height result
    exact propext (hiff height result)
  exact heq ▸ h

theorem ofOption (found : Option α) :
    Finds tree graph path (ofOption found) (fun _ result => found = some result) := by
  refine ⟨fun _ h => h, fun _ memo hsound => ⟨found, memo, rfl, hsound, fun result => ?_⟩⟩
  exact ⟨fun h => ⟨0, h⟩, fun ⟨_, h⟩ => h⟩

theorem pure (result : α) :
    Finds tree graph path (pure result) (fun _ other => result = other) :=
  (ofOption (some result)).congr fun _ _ => by simp

theorem failure : Finds tree graph path (failure : Fold α) (fun _ _ => False) :=
  (ofOption none).congr fun _ _ => ⟨fun h => (by cases h), False.elim⟩

theorem run_bind {computation : Fold α} (f : α → Fold β) {memo next : Memo} {found : Option α}
    (h : computation.run memo = (found, next)) :
    (computation >>= f).run memo =
      (found.elim (none, next) fun a => (f a).run next : Option β × Memo) := by
  rw [OptionT.run_bind]
  change (Option.elim (computation.run memo).1 _ _ : StateM Memo (Option β))
    (computation.run memo).2 = _
  rw [h]
  cases found <;> rfl

/-- The second computation is needed with what the first has found, which is all that it
could have found. -/
theorem bind {computation : Fold α} {f : α → Fold β} {D : Nat → α → Prop}
    {E : α → Nat → β → Prop} (h : Finds tree graph path computation D)
    (hf : ∀ a, Finds tree graph path (f a) (E a)) :
    Finds tree graph path (computation >>= f)
      (fun height result => ∃ a, D height a ∧ E a height result) := by
  constructor
  · intro height higher result hle ⟨a, ha, hresult⟩
    exact ⟨a, h.mono hle ha, (hf a).mono hle hresult⟩
  · intro hneeded memo hsound
    have hfirst : Needed tree graph path D := by
      intro id hid height value hderives
      obtain ⟨lower, hle, _, a, ha, _⟩ := hneeded id hid height value hderives
      exact ⟨lower, hle, a, ha⟩
    obtain ⟨found, next, hrun, hnext, hfound⟩ := h.run hfirst memo hsound
    have hbind := run_bind f hrun
    cases found with
    | none =>
        refine ⟨none, next, hbind, hnext, fun result => ⟨fun hnone => (by cases hnone), ?_⟩⟩
        intro ⟨height, a, ha, _⟩
        have hnone := (hfound a).mpr ⟨height, ha⟩
        cases hnone
    | some a =>
        have honly : ∀ height other, D height other → other = a := by
          intro height other hother
          exact (Option.some.inj ((hfound other).mpr ⟨height, hother⟩)).symm
        have hsecond : Needed tree graph path (E a) := by
          intro id hid height value hderives
          obtain ⟨lower, hle, result, other, hother, hresult⟩ :=
            hneeded id hid height value hderives
          exact ⟨lower, hle, result, honly _ _ hother ▸ hresult⟩
        obtain ⟨last, final, hlast, hfinal, hresult⟩ := (hf a).run hsecond next hnext
        refine ⟨last, final, hbind.trans hlast, hfinal, fun result => ?_⟩
        rw [hresult]
        constructor
        · intro ⟨height, hheight⟩
          obtain ⟨lower, hlower⟩ := (hfound a).mp rfl
          exact ⟨max lower height, a, h.mono (Nat.le_max_left ..) hlower,
            (hf a).mono (Nat.le_max_right ..) hheight⟩
        · intro ⟨height, other, hother, hheight⟩
          exact ⟨height, honly _ _ hother ▸ hheight⟩

theorem ite {condition : Prop} [Decidable condition] {first second : Fold α}
    {D E : Nat → α → Prop} (hfirst : Finds tree graph path first D)
    (hsecond : Finds tree graph path second E) :
    Finds tree graph path (if condition then first else second)
      (fun height result => if condition then D height result else E height result) := by
  by_cases hcondition : condition
  · simpa only [hcondition, if_true] using hfirst
  · simpa only [hcondition, if_false] using hsecond

theorem mapM {fold : NodeId → Fold Value} {R : Nat → NodeId → Value → Prop}
    (h : ∀ id, Finds tree graph path (fold id) (fun height value => R height id value))
    (ids : List NodeId) : Finds tree graph path (ids.mapM fold)
      (fun height values => List.Forall₂ (R height) ids values) := by
  induction ids with
  | nil =>
      refine (pure ([] : List Value)).congr fun _ values => ?_
      rw [List.forall₂_nil_left_iff, eq_comm]
  | cons id rest ih =>
      rw [List.mapM_cons]
      refine ((h id).bind fun value => ih.bind fun values => pure (value :: values)).congr ?_
      intro height all
      constructor
      · rintro ⟨value, hvalue, values, hvalues, rfl⟩
        exact .cons hvalue hvalues
      · intro hall
        cases hall with
        | cons hvalue hvalues => exact ⟨_, hvalue, _, hvalues, rfl⟩

theorem foldProperties {fold : NodeId → Fold Value} {R : Nat → NodeId → Value → Prop}
    (h : ∀ id, Finds tree graph path (fold id) (fun height value => R height id value))
    (properties : List NodeId) (record : List (String × Value)) :
    Finds tree graph path (foldProperties tree fold properties record)
      (fun height all => Adds tree (R height) properties record all) := by
  induction properties generalizing record with
  | nil =>
      refine (pure record).congr fun _ all => ?_
      constructor
      · rintro rfl
        exact .nil record
      · intro hadds
        cases hadds
        rfl
  | cons property rest ih =>
      unfold Folding.foldProperties
      split
      · rename_i key value hkind
        refine ((h value).bind fun member => ih (Record.insert key member record)).congr ?_
        intro height all
        constructor
        · rintro ⟨member, hmember, hrest⟩
          exact .cons hkind hmember hrest
        · intro hadds
          cases hadds with
          | cons hkind' hfirst hothers =>
              cases hkind.symm.trans hkind'
              exact ⟨_, hfirst, hothers⟩
      · rename_i hkind
        refine failure.congr fun _ _ => ⟨False.elim, fun hadds => ?_⟩
        cases hadds with
        | cons hkind' _ _ => exact hkind _ _ hkind'

end Finds

theorem finds_foldNode {path : List NodeId} {fold : NodeId → Fold Value}
    {R : Nat → NodeId → Value → Prop}
    (h : ∀ id, Finds tree graph path (fold id) (fun height value => R height id value))
    (id : NodeId) : Finds tree graph path (foldNode tree graph fold id)
      (fun height value => Rule tree graph (R height) id value) := by
  unfold foldNode
  cases hkind : tree.kind id with
  | literal literal =>
      exact (Finds.pure literal.value).congr fun _ _ => (Rule.literal_iff hkind).symm
  | identifier name =>
      refine ((Finds.ofOption (onlyWrite? graph id)).bind fun write => (h write).bind fun value =>
        Finds.ite (Finds.pure value) Finds.failure).congr fun height value => ?_
      rw [Rule.name_iff hkind]
      constructor
      · rintro ⟨write, honly, stored, hstored, hvalue⟩
        by_cases hprimitive : stored.isPrimitive = true
        · rw [if_pos hprimitive] at hvalue
          exact ⟨write, honly, hvalue ▸ hstored, hvalue ▸ hprimitive⟩
        · rw [if_neg hprimitive] at hvalue
          exact hvalue.elim
      · rintro ⟨write, honly, hstored, hprimitive⟩
        exact ⟨write, honly, value, hstored, by rw [if_pos hprimitive]⟩
  | unary op argument =>
      exact ((h argument).bind fun operand => Finds.ofOption (foldUnary op operand)).congr
        fun _ _ => (Rule.unary_iff hkind).symm
  | logical op left right =>
      refine (Finds.bind (E := fun first height value =>
        if settles op first then first = value else R height right value) (h left) ?_).congr
          fun _ _ => (Rule.logical_iff hkind).symm
      intro first
      cases op <;> cases htruthy : first.truthy
      · simpa [settles, htruthy] using Finds.pure first
      · simpa [settles, htruthy] using h right
      · simpa [settles, htruthy] using h right
      · simpa [settles, htruthy] using Finds.pure first
  | binary op left right =>
      exact ((h left).bind fun a => (h right).bind fun b =>
        Finds.ofOption (foldBinary op a b)).congr fun _ _ => (Rule.binary_iff hkind).symm
  | conditional test consequent alternate =>
      exact ((h test).bind fun _ => Finds.ite (h consequent) (h alternate)).congr
        fun _ _ => (Rule.conditional_iff hkind).symm
  | array elements =>
      exact ((Finds.mapM h elements).bind fun values => Finds.pure (Value.array id values)).congr
        fun _ _ => (Rule.array_iff hkind).symm
  | object properties =>
      exact ((Finds.foldProperties h properties []).bind fun members =>
        Finds.pure (Value.object id members)).congr fun _ _ => (Rule.object_iff hkind).symm
  | member owner key =>
      cases key with
      | named name =>
          refine ((h owner).bind fun whole => (Finds.pure name).bind fun name =>
            Finds.ofOption (whole.get? name)).congr fun _ _ => ?_
          rw [Rule.named_iff hkind]
          simp
      | computed key =>
          refine ((h owner).bind fun whole => ((h key).bind fun name =>
            Finds.pure name.text).bind fun name => Finds.ofOption (whole.get? name)).congr
              fun _ _ => ?_
          rw [Rule.computed_iff hkind]
          simp
  | _ =>
      refine Finds.failure.congr fun _ _ => ⟨False.elim, fun hrule => ?_⟩
      cases hrule <;> simp_all

/-! ## The memo is transparent -/

theorem not_derives_of_needed {path : List NodeId} {id : NodeId} (hid : id ∈ path)
    (h : Needed tree graph path (fun height value => DerivesIn tree graph height id value))
    (value : Value) : ¬ Derives tree graph id value := by
  refine not_derives_of_descent (fun height value hderives => ?_) value
  cases height with
  | zero => exact hderives.elim
  | succ height =>
      obtain ⟨lower, hle, result, hlower⟩ := h id hid height value hderives
      exact ⟨lower, Nat.lt_succ_of_le hle, result, hlower⟩

/-- To fold a node takes its rule, which every node under way needs then, and the node
itself among them. -/
theorem Needed.inside {path : List NodeId} {id : NodeId}
    (h : Needed tree graph path (fun height value => DerivesIn tree graph height id value)) :
    Needed tree graph (id :: path)
      (fun height value => Rule tree graph (DerivesIn tree graph height) id value) := by
  intro other hother height value hderives
  rcases List.mem_cons.mp hother with rfl | hother
  · exact ⟨height, Nat.le_refl _, value, hderives⟩
  · obtain ⟨lower, hle, result, hlower⟩ := h other hother height value hderives
    exact ⟨height, Nat.le_refl _, result, DerivesIn.mono (Nat.le_succ_of_le hle) hlower⟩

theorem derives_iff_exists_rule {id : NodeId} {value : Value} :
    Derives tree graph id value ↔
      ∃ height, Rule tree graph (DerivesIn tree graph height) id value := by
  constructor
  · rintro ⟨height, hderives⟩
    exact ⟨height, hderives.succ⟩
  · rintro ⟨height, hrule⟩
    exact ⟨height + 1, hrule⟩

theorem kind_of_size_le {id : NodeId} (hid : tree.size ≤ id) : tree.kind id = .empty := by
  simp [Tree.kind, Tree.node, Array.getElem?_eq_none hid]
  rfl

theorem not_derives_of_size_le {id : NodeId} (hid : tree.size ≤ id) (value : Value) :
    ¬ Derives tree graph id value := by
  intro hderives
  have hkind := kind_of_size_le hid
  obtain ⟨height, hrule⟩ := derives_iff_exists_rule.mp hderives
  cases hrule <;> simp_all

theorem getD_set_self {memo : Memo} {id : NodeId} (hid : id < memo.size) (status : Status) :
    (memo.setIfInBounds id status).getD id .unseen = status := by
  simp [hid]

theorem getD_set_of_ne {memo : Memo} {id other : NodeId} (hne : other ≠ id) (status : Status) :
    (memo.setIfInBounds id status).getD other .unseen = memo.getD other .unseen := by
  simp [Ne.symm hne]

namespace Sound

variable {path : List NodeId} {memo : Memo} {id : NodeId}

theorem not_mem_of_unseen (h : Sound tree graph path memo)
    (hunseen : memo.getD id .unseen = .unseen) : id ∉ path := by
  intro hmem
  rw [(h.active id).mpr hmem] at hunseen
  cases hunseen

theorem mark (h : Sound tree graph path memo) (hid : id < tree.size) :
    Sound tree graph (id :: path) (memo.setIfInBounds id .active) := by
  have hlt : id < memo.size := h.size_eq ▸ hid
  constructor
  · simpa using h.size_eq
  · intro other
    by_cases heq : other = id
    · subst heq
      simp only [getD_set_self hlt, List.mem_cons_self]
    · rw [getD_set_of_ne heq, h.active, List.mem_cons, or_iff_right heq]
  · intro other result hknown
    by_cases heq : other = id
    · rw [heq, getD_set_self hlt] at hknown
      cases hknown
    · rw [getD_set_of_ne heq] at hknown
      exact h.known other result hknown

/-- Keeping the right result of the innermost node takes it off the path. -/
theorem keep (h : Sound tree graph (id :: path) memo) (hid : id < tree.size) (hnew : id ∉ path)
    {result : Option Value} (hresult : ∀ value, result = some value ↔ Derives tree graph id value) :
    Sound tree graph path (memo.setIfInBounds id (.known result)) := by
  have hlt : id < memo.size := h.size_eq ▸ hid
  constructor
  · simpa using h.size_eq
  · intro other
    by_cases heq : other = id
    · rw [heq, getD_set_self hlt]
      simp [hnew]
    · rw [getD_set_of_ne heq, h.active, List.mem_cons, or_iff_right heq]
  · intro other kept hknown
    by_cases heq : other = id
    · rw [heq, getD_set_self hlt] at hknown
      cases hknown
      exact heq ▸ hresult
    · rw [getD_set_of_ne heq] at hknown
      exact h.known other kept hknown

theorem empty (tree : Tree) (graph : ScopeGraph) : Sound tree graph [] (Memo.empty tree) := by
  have hunseen : ∀ id : NodeId, (Memo.empty tree).getD id .unseen = .unseen := by
    intro id
    rw [Memo.empty, Array.getD_eq_getD_getElem?, Array.getElem?_replicate]
    split <;> rfl
  constructor
  · simp [Memo.empty]
  · intro id
    simp [hunseen]
  · intro id result hknown
    rw [hunseen] at hknown
    cases hknown

end Sound

section

variable {memo : Memo} {id : NodeId} (depth : Nat)

theorem get_bind {α : Type} (f : Memo → StateM Memo α) (memo : Memo) :
    (get >>= f : StateM Memo α) memo = f memo memo :=
  rfl

theorem foldWithin_of_known {result : Option Value}
    (h : memo.getD id .unseen = .known result) :
    (foldWithin tree graph (depth + 1) id).run memo = (result, memo) := by
  rw [foldWithin, OptionT.run_mk, get_bind, h]
  rfl

theorem foldWithin_of_active (h : memo.getD id .unseen = .active) :
    (foldWithin tree graph (depth + 1) id).run memo = (none, memo) := by
  rw [foldWithin, OptionT.run_mk, get_bind, h]
  rfl

theorem foldWithin_of_unseen (h : memo.getD id .unseen = .unseen) {result : Option Value}
    {next : Memo} (hnode : (foldNode tree graph (foldWithin tree graph depth) id).run
      (memo.setIfInBounds id .active) = (result, next)) :
    (foldWithin tree graph (depth + 1) id).run memo =
      (result, next.setIfInBounds id (.known result)) := by
  rw [foldWithin, OptionT.run_mk, get_bind, h]
  exact congrArg (fun pair => (pair.1, pair.2.setIfInBounds id (.known pair.1))) hnode

end

/-- A node that is met for the first time is folded by its rule, with the node on the path,
and what is found is kept. -/
theorem Sound.run_unseen {depth : Nat} {path : List NodeId} {memo : Memo} {id : NodeId}
    (h : Sound tree graph path memo) (hid : id < tree.size)
    (hunseen : memo.getD id .unseen = .unseen)
    (hneeded : Needed tree graph path (fun height value => DerivesIn tree graph height id value))
    (hinner : ∀ other, Finds tree graph (id :: path) (foldWithin tree graph depth other)
      (fun height value => DerivesIn tree graph height other value)) :
    ∃ found next, (foldWithin tree graph (depth + 1) id).run memo = (found, next) ∧
      Sound tree graph path next ∧ ∀ value, found = some value ↔ Derives tree graph id value := by
  obtain ⟨found, next, hnode, hnext, hfound⟩ :=
    (finds_foldNode hinner id).run hneeded.inside _ (h.mark hid)
  have hright : ∀ value, found = some value ↔ Derives tree graph id value := by
    intro value
    rw [hfound, derives_iff_exists_rule]
  exact ⟨found, _, foldWithin_of_unseen depth hunseen hnode,
    hnext.keep hid (h.not_mem_of_unseen hunseen) hright, hright⟩

/-- An index outside the tree leaves no trace in the memo and has no value. -/
theorem Sound.run_outside (depth : Nat) {path : List NodeId} {memo : Memo} {id : NodeId}
    (h : Sound tree graph path memo) (hid : tree.size ≤ id)
    (hunseen : memo.getD id .unseen = .unseen) :
    (foldWithin tree graph (depth + 1) id).run memo = (none, memo) := by
  have hset : ∀ status, memo.setIfInBounds id status = memo := by
    intro status
    rw [Array.setIfInBounds, dif_neg (by rw [h.size_eq]; exact Nat.not_lt.mpr hid)]
  have hnode : (foldNode tree graph (foldWithin tree graph depth) id).run
      (memo.setIfInBounds id .active) = (none, memo) := by
    rw [foldNode, kind_of_size_le hid, hset]
    rfl
  rw [foldWithin_of_unseen depth hunseen hnode, hset]

/-- Nodes under way are distinct, so a depth of the number of nodes that are not under way and
one more is enough to find what a node folds to. -/
theorem finds_foldWithin {depth : Nat} {path : List NodeId} (hnodup : path.Nodup)
    (hpath : ∀ id ∈ path, id < tree.size) (hdepth : tree.size < depth + path.length)
    (id : NodeId) : Finds tree graph path (foldWithin tree graph depth id)
      (fun height value => DerivesIn tree graph height id value) := by
  induction depth generalizing path id with
  | zero =>
      have hsub : path ⊆ List.range tree.size := fun id hid => List.mem_range.mpr (hpath id hid)
      have hle := (hnodup.subperm hsub).length_le
      rw [List.length_range] at hle
      omega
  | succ depth ih =>
      refine ⟨fun hle => DerivesIn.mono hle, fun hneeded memo hsound => ?_⟩
      cases hstatus : memo.getD id .unseen with
      | known result =>
          exact ⟨result, memo, foldWithin_of_known depth hstatus, hsound,
            hsound.known id result hstatus⟩
      | active =>
          have hnone := not_derives_of_needed ((hsound.active id).mp hstatus) hneeded
          refine ⟨none, memo, foldWithin_of_active depth hstatus, hsound, fun value => ?_⟩
          exact ⟨fun hsome => (by cases hsome), fun hderives => (hnone value hderives).elim⟩
      | unseen =>
          rcases Nat.lt_or_ge id tree.size with hid | hid
          · refine hsound.run_unseen hid hstatus hneeded fun other => ih ?_ ?_ ?_ other
            · exact List.nodup_cons.mpr ⟨hsound.not_mem_of_unseen hstatus, hnodup⟩
            · exact List.forall_mem_cons.mpr ⟨hid, hpath⟩
            · rw [List.length_cons]
              omega
          · refine ⟨none, memo, hsound.run_outside depth hid hstatus, hsound, fun value => ?_⟩
            exact ⟨fun hsome => (by cases hsome),
              fun hderives => (not_derives_of_size_le hid value hderives).elim⟩

/-- The memo after the nodes of a list were asked for in turn. -/
def afterQueries (tree : Tree) (graph : ScopeGraph) : List NodeId → Memo → Memo
  | [], memo => memo
  | id :: rest, memo => afterQueries tree graph rest (tryFold tree graph id memo).2

theorem tryFold_of_sound {memo : Memo} (h : Sound tree graph [] memo) (id : NodeId) :
    Sound tree graph [] (tryFold tree graph id memo).2 ∧
      ∀ value, (tryFold tree graph id memo).1 = some value ↔ Derives tree graph id value := by
  have hfinds : Finds tree graph [] (foldWithin tree graph (tree.size + 1) id)
      (fun height value => DerivesIn tree graph height id value) := by
    refine finds_foldWithin List.nodup_nil (fun _ hmem => (by cases hmem)) ?_ id
    simp
  obtain ⟨result, next, hrun, hnext, hresult⟩ :=
    hfinds.run (fun _ hmem => (by cases hmem)) memo h
  rw [tryFold, hrun]
  exact ⟨hnext, hresult⟩

theorem Sound.afterQueries {memo : Memo} (h : Sound tree graph [] memo) (queries : List NodeId) :
    Sound tree graph [] (afterQueries tree graph queries memo) := by
  induction queries generalizing memo with
  | nil => exact h
  | cons id rest ih => exact ih (tryFold_of_sound h id).1

/-- The memo is transparent: after whichever queries, a node folds as it does at first, and it
folds to a value exactly if the value has a finite derivation.  So names that are defined by
one another have no value from wherever they are asked for. -/
theorem tryFold_afterQueries (tree : Tree) (graph : ScopeGraph) (queries : List NodeId)
    (id : NodeId) :
    (tryFold tree graph id (afterQueries tree graph queries (Memo.empty tree))).1 =
        (tryFold tree graph id (Memo.empty tree)).1 ∧
      (∀ value, (tryFold tree graph id (afterQueries tree graph queries (Memo.empty tree))).1 =
        some value ↔ Derives tree graph id value) ∧
      (Relation.TransGen (Reads tree graph) id id →
        (tryFold tree graph id (afterQueries tree graph queries (Memo.empty tree))).1 = none) := by
  have hempty := Sound.empty tree graph
  have hfresh := (tryFold_of_sound hempty id).2
  have hused := (tryFold_of_sound (hempty.afterQueries queries) id).2
  refine ⟨Option.ext fun value => (hused value).trans (hfresh value).symm, hused, fun hcycle => ?_⟩
  rw [Option.eq_none_iff_forall_ne_some]
  exact fun value hsome => not_derives_of_cycle hcycle value ((hused value).mp hsome)

/-- Two names that are defined by each other, and one that is a text. -/
def mutualNames : String := "let a = b; let b = a; let c = 'x' + 'y'; c;"

theorem tryFold_afterQueries_mutualNames :
    ∃ tree, Tree.ofSource mutualNames "" = .ok tree ∧
      Relation.TransGen (Reads tree (ScopeGraph.build tree [] (.empty false)).1) 0 0 ∧
      (tryFold tree (ScopeGraph.build tree [] (.empty false)).1 0
        (afterQueries tree (ScopeGraph.build tree [] (.empty false)).1 [3, 0]
          (Memo.empty tree))).1 = none ∧
      (tryFold tree (ScopeGraph.build tree [] (.empty false)).1 11
        (afterQueries tree (ScopeGraph.build tree [] (.empty false)).1 [3, 0]
          (Memo.empty tree))).1 = some (.string "xy") ∧
      Derives tree (ScopeGraph.build tree [] (.empty false)).1 11 (.string "xy") := by
  have hread : ((Tree.ofSource mutualNames "").toOption.any fun tree =>
      let graph := (ScopeGraph.build tree [] (.empty false)).1
      (tree.kind 0).name = "Identifier" ∧ (tree.kind 3).name = "Identifier" ∧
        onlyWrite? graph 0 = some 3 ∧ onlyWrite? graph 3 = some 0 ∧
        (tryFold tree graph 11 (afterQueries tree graph [3, 0] (Memo.empty tree))).1.any
          (Value.strictEquals (.string "xy"))) = true := by
    decide +kernel
  have hname : ∀ kind : NodeKind, kind.name = "Identifier" → ∃ name, kind = .identifier name := by
    intro kind h
    cases kind with
    | identifier name => exact ⟨name, rfl⟩
    | _ => simp [NodeKind.name] at h
  cases htree : Tree.ofSource mutualNames "" with
  | error halt =>
      rw [htree] at hread
      cases hread
  | ok tree =>
      rw [htree] at hread
      obtain ⟨hfirst, hsecond, hforth, hback, hfolds⟩ := of_decide_eq_true hread
      obtain ⟨b, hb⟩ := hname _ hfirst
      obtain ⟨a, ha⟩ := hname _ hsecond
      have hcycle : Relation.TransGen
          (Reads tree (ScopeGraph.build tree [] (.empty false)).1) 0 0 :=
        .tail (.single (.write hb hforth)) (.write ha hback)
      obtain ⟨value, hvalue, hsame⟩ := (Option.any_eq_true _ _).mp hfolds
      have hxy : value = .string "xy" := by
        cases value with
        | string text =>
            have htext : "xy" = text := by simpa [Value.strictEquals] using hsame
            rw [htext]
        | _ => simp [Value.strictEquals] at hsame
      subst hxy
      exact ⟨tree, rfl, hcycle, (tryFold_afterQueries tree _ [3, 0] 0).2.2 hcycle, hvalue,
        ((tryFold_afterQueries tree _ [3, 0] 11).2.1 _).mp hvalue⟩

end ScriptCheck.Folding
