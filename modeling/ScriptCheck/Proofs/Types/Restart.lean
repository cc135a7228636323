import ScriptCheck.Proofs.Types.Follow
import ScriptCheck.Proofs.Types.Merge
import ScriptCheck.Proofs.Types.Slot

/-!
# Where joins end

A merge goes down a limited number of levels.  Members that do not merge are joined
instead, and that join counts its levels from the start, so what is limited is the way
from one start to the next and not the number of starts.  A join ends exactly where the
starts do, after at most `levelsPerStart` levels for each; and there are objects that
reach themselves through a union for which the starts never end.
-/

namespace ScriptCheck.Ty

open TypeStore
open JoinM (ofTypes Below)

/-! ## Counting starts -/

/-- A merge with some levels left, which leaves what does not merge to `restart`. -/
def mergeLevels (restart : Merger) : Nat → Merger
  | 0 => mergeStep (fun _ _ => true) true (fun _ _ => failure) restart
  | levels + 1 => mergeStep (fun _ _ => true) false (mergeLevels restart levels) restart

/-- A merge that starts at most so often, one start inside another, and that has no
other bound. -/
def mergeStarting : Nat → Merger
  | 0 => fun _ _ => failure
  | starts + 1 => mergeLevels (mergeStarting starts) (structuralDepth + 1)

/-- A join whose merges start at most so often, one start inside another. -/
def joinStarting (starts : Nat) (a b : Ty) : JoinM Ty := joinWith (mergeStarting starts) a b

/-- How many levels of merges there are between two starts. -/
def levelsPerStart : Nat := structuralDepth + 2

variable {restart restart' : Merger}

theorem below_mergeLevels (h : restart.Below restart') (levels : Nat) :
    (mergeLevels restart levels).Below (mergeLevels restart' levels) := by
  induction levels with
  | zero => exact below_mergeStep (fun _ _ hkeeps => hkeeps) true (.refl _) h
  | succ levels ih => exact below_mergeStep (fun _ _ hkeeps => hkeeps) false ih h

theorem mergeStarting_below_succ (starts : Nat) :
    (mergeStarting starts).Below (mergeStarting (starts + 1)) := by
  induction starts with
  | zero => exact fun _ _ => .failure _
  | succ starts ih => exact below_mergeLevels ih _

/-- Nothing is looked at further inside once a merge is too deep. -/
theorem mergeStep_tooDeep (keeps : TypeId → TypeId → Bool)
    (deeper restart deeper' restart' : Merger) :
    mergeStep keeps true deeper restart = mergeStep keeps true deeper' restart' := by
  funext a b
  simp [mergeStep]

theorem merge_below_succ (bound depth : Nat) :
    Merger.Below (merge bound depth) (merge (bound + 1) depth) := by
  induction bound generalizing depth with
  | zero =>
      intro a b
      rw [merge]
      exact .failure _
  | succ bound ih =>
      intro a b
      rw [merge_succ, merge_succ (bound + 1)]
      exact below_mergeStep (fun _ _ hkeeps => hkeeps) _ (ih _) (ih _) a b

theorem merge_below_of_le {bound bound' : Nat} (h : bound ≤ bound') (depth : Nat) :
    Merger.Below (merge bound depth) (merge bound' depth) := by
  induction h with
  | refl => exact .refl _
  | step _ ih => exact fun a b => (ih a b).trans (merge_below_succ _ depth a b)

theorem merge_below_mergeLevels (bound depth : Nat) :
    Merger.Below (merge bound depth)
      (mergeLevels (mergeStarting bound) (structuralDepth + 1 - depth)) := by
  induction bound generalizing depth with
  | zero =>
      intro a b
      rw [merge]
      exact .failure _
  | succ bound ih =>
      intro a b
      rw [merge_succ]
      have hrestart : Merger.Below (merge bound 0) (mergeStarting (bound + 1)) := ih 0
      by_cases hdepth : structuralDepth < depth
      · have hlevels : structuralDepth + 1 - depth = 0 := by omega
        rw [decide_eq_true hdepth, hlevels, mergeLevels,
          mergeStep_tooDeep _ (merge bound (depth + 1)) (merge bound 0) (fun _ _ => failure)]
        exact .refl _
      · have hlevels : structuralDepth + 1 - depth =
            structuralDepth + 1 - (depth + 1) + 1 := by omega
        rw [decide_eq_false hdepth, hlevels]
        apply below_mergeStep (fun _ _ hkeeps => hkeeps) false _ hrestart a b
        intro x y
        exact (ih (depth + 1) x y).trans (below_mergeLevels (mergeStarting_below_succ bound) _ x y)

/-- A start with some levels left needs a bound for the levels and for later starts. -/
theorem mergeLevels_below_merge {starts bound : Nat}
    (hstarts : (mergeStarting starts).Below (merge bound 0)) {levels : Nat}
    (hlevels : levels ≤ structuralDepth + 1) :
    (mergeLevels (mergeStarting starts) levels).Below
      (merge (bound + levels + 1) (structuralDepth + 1 - levels)) := by
  have hrestart : ∀ levels, (mergeStarting starts).Below (merge (bound + levels) 0) :=
    fun levels a b => (hstarts a b).trans (merge_below_of_le (Nat.le_add_right _ _) 0 a b)
  induction levels with
  | zero =>
      intro a b
      rw [merge_succ, decide_eq_true (by omega), mergeLevels,
        mergeStep_tooDeep _ (fun _ _ => failure) (mergeStarting starts)]
      exact .refl _
  | succ levels ih =>
      intro a b
      have hdepth : structuralDepth + 1 - (levels + 1) + 1 = structuralDepth + 1 - levels := by
        omega
      rw [merge_succ, decide_eq_false (by omega), hdepth]
      exact below_mergeStep (fun _ _ hkeeps => hkeeps) false (ih (by omega)) (hrestart _) a b

theorem mergeStarting_below_merge (starts : Nat) :
    (mergeStarting starts).Below (merge (levelsPerStart * starts) 0) := by
  induction starts with
  | zero => exact fun _ _ => .failure _
  | succ starts ih =>
      have hlevels := mergeLevels_below_merge ih (Nat.le_refl (structuralDepth + 1))
      have hbound : levelsPerStart * starts + (structuralDepth + 1) + 1 =
          levelsPerStart * (starts + 1) := by
        rw [Nat.mul_succ, levelsPerStart]
        omega
      rw [hbound, Nat.sub_self] at hlevels
      exact hlevels

/-- Some bound suffices for a join exactly when the starts inside it end, and each start
takes no more than `levelsPerStart` of it. -/
theorem join_isSome_iff_starts_end (a b : Ty) (store : TypeStore) :
    ((∃ bound, (join bound a b store).isSome) ↔
      ∃ starts, (joinStarting starts a b store).isSome) ∧
    ∀ starts result, joinStarting starts a b store = some result →
      join (levelsPerStart * starts) a b store = some result := by
  have hbounded : ∀ starts result, joinStarting starts a b store = some result →
      join (levelsPerStart * starts) a b store = some result :=
    fun starts => below_joinWith (mergeStarting_below_merge starts) a b store
  refine ⟨⟨?_, ?_⟩, hbounded⟩
  · rintro ⟨bound, hjoin⟩
    obtain ⟨result, hresult⟩ := Option.isSome_iff_exists.mp hjoin
    have hstarting : joinStarting (bound + 1) a b store = some result :=
      below_joinWith (merge_below_mergeLevels bound 0) a b store result hresult
    exact ⟨bound + 1, by rw [hstarting]; rfl⟩
  · rintro ⟨starts, hjoin⟩
    obtain ⟨result, hresult⟩ := Option.isSome_iff_exists.mp hjoin
    exact ⟨levelsPerStart * starts, by rw [hbounded starts result hresult]; rfl⟩

/-! ## Starts without end -/

/-- Every known member has been asked for, so that reading members changes nothing. -/
def Settled (store : TypeStore) : Prop :=
  ∀ id name value, (store.shape id).slot? name ≠ some (.known value)

instance : IsPreorder TypeStore (fun store next => Settled store → next = store) where
  refl _ _ := rfl
  trans store next last h hlast hsettled := by
    have hnext := h hsettled
    subst hnext
    exact hlast hsettled

theorem Settled.declaredMember {store : TypeStore} (h : Settled store) (id : TypeId)
    (name : String) : (declaredMember id name store).2 = store := by
  cases hslot : (store.shape id).slot? name with
  | none => rw [declaredMember_of_none hslot]
  | some slot =>
      cases slot with
      | declared member => rw [declaredMember_of_declared hslot]
      | known value => exact absurd hslot (h id name value)

theorem Settled.equivalent {store : TypeStore} (h : Settled store) (a b : Ty) :
    (equivalent a b store).2 = store :=
  follows_equivalent (R := fun store next => Settled store → next = store) store
    (fun _ id name hsettled => hsettled.declaredMember id name) a b h

theorem joinWith_eq_none {merger : Merger} {a : Ty} {first incoming : TypeId}
    {rest : List TypeId} {store : TypeStore} (ha : a.variants = first :: rest)
    (hleft : (a.isUnknown store).1 = false)
    (hright : ((plain incoming).isUnknown store).1 = false)
    (h : merger first incoming store = none) : joinWith merger a (plain incoming) store = none := by
  have habsorb : absorb merger incoming a.variants store = none := by
    rw [ha]
    exact JoinM.bind_eq_none h
  rw [joinWith_of_known hleft hright]
  exact JoinM.bind_eq_none (JoinM.bind_eq_none habsorb)

/-- Three objects with the same names.  The first has itself or the second as its `p`,
the other two have themselves. -/
def knot : JoinM (Ty × Ty) := do
  let truth ← ofTypes (ofValue (.bool true))
  let first ← ofTypes (object [])
  let second ← ofTypes (object [("x", truth)])
  let either ← join 1 first second
  ofTypes (setMember 1 "p" either)
  ofTypes (setMember 1 "x" truth)
  ofTypes (setMember 2 "p" second)
  let third ← ofTypes (object [("x", truth)])
  ofTypes (setMember 3 "p" third)
  return (first, third)

/-- The store that the three objects end up in. -/
def knotted : TypeStore where
  nextTag := 7
  shapes :=
    let own (id : TypeId) (tag inner : Nat) : Shape := {
      kind := .object
      mutable := true
      indexer := some ⟨.string, none⟩
      members := [("p", plain id), ("x", plain 0)]
      constant := some (.object tag
        [("p", .object inner [("x", .bool true)]), ("x", .bool true)]) }
    #[{ kind := .boolean, constant := some (.bool true) },
      { kind := .object
        mutable := true
        indexer := some ⟨.string, none⟩
        members := [("p", union [1, 2]), ("x", plain 0)] },
      own 2 4 1, own 3 6 5]

theorem knot_eq : knot {} = some ((plain 1, plain 3), knotted) := by rfl

theorem settled_knotted : Settled knotted := by
  intro id name value hslot
  obtain ⟨hmember, hvalue⟩ := Shape.slot?_eq_known_iff.mp hslot
  match id with
  | 0 | 1 | id + 4 => cases hvalue
  | 2 | 3 =>
      by_cases hp : "p" = name
      · subst hp
        cases hmember
      by_cases hx : "x" = name
      · subst hx
        cases hmember
      simp [knotted, TypeStore.shape, Shape.value?, Value.get?, Record.get?, hp, hx] at hvalue

theorem equivalent_knotted : equivalent (plain 1) (plain 3) knotted = (true, knotted) := by
  have hresult : (equivalent (plain 1) (plain 3) knotted).1 = true := by decide +kernel
  exact Prod.ext hresult (settled_knotted.equivalent _ _)

/-- The `p` of the first is a union, so its join with the `p` of the third, which is the
third, starts with what was to be merged in the first place. -/
theorem merge_knotted (bound : Nat) : merge bound 0 1 3 knotted = none := by
  induction bound with
  | zero => rfl
  | succ bound ih =>
      have hjoin : joinMemberWith (merge bound 1) (merge bound 0) (union [1, 2]) (plain 3)
          knotted = none :=
        joinWith_eq_none rfl rfl rfl ih
      have hleft : ofTypes (declaredMember 1 "p") knotted =
          some (some (union [1, 2]), knotted) := rfl
      have hright : ofTypes (declaredMember 3 "p") knotted = some (some (plain 3), knotted) := rfl
      have hmembers : joinMembers (joinMemberWith (merge bound 1) (merge bound 0)) 1 3
          ["p", "x"] [] knotted = none :=
        (JoinM.bind_eq_of_some hleft).trans
          ((JoinM.bind_eq_of_some hright).trans (JoinM.bind_eq_none hjoin))
      have hshape : ∀ id, ofTypes (shapeOf id) knotted = some (knotted.shape id, knotted) :=
        fun _ => rfl
      have hequivalent : ofTypes (equivalent (plain 1) (plain 3)) knotted =
          some (true, knotted) :=
        congrArg some equivalent_knotted
      rw [merge_succ, mergeStep, if_neg (by decide), JoinM.bind_eq_of_some (hshape 1),
        JoinM.bind_eq_of_some (hshape 3), if_neg (by decide), if_neg (by decide),
        JoinM.bind_eq_of_some hequivalent]
      have hallowed : ∀ condition : Bool,
          (guard (condition || true) : JoinM Unit) knotted = some ((), knotted) := by
        intro condition
        rw [guard_or_true]
        rfl
      exact (JoinM.bind_eq_of_some (hshape 1)).trans ((JoinM.bind_eq_of_some (hshape 3)).trans
        ((JoinM.bind_eq_of_some (hallowed _)).trans (JoinM.bind_eq_none hmembers)))

/-- No bound suffices for the join of the first and the third. -/
theorem join_knot_eq_none :
    ∃ a b store, knot {} = some ((a, b), store) ∧ ∀ bound, join bound a b store = none := by
  refine ⟨plain 1, plain 3, knotted, knot_eq, fun bound => ?_⟩
  exact joinWith_eq_none rfl rfl rfl (merge_knotted bound)

end ScriptCheck.Ty
