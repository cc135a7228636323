import Mathlib.Data.Option.Basic
import ScriptCheck.Types.Join

/-!
# One level of a merge

A merge looks at two plain types and then at what they have inside, either one level
deeper or, by way of a join, from the start again.  `mergeStep` is that one level, with
the two ways inside as parameters and with a say in which types may be kept in the
place of which others.  It is monotone in all three, so merges with different bounds
can be compared.  `MergeEnds` tells the ways in which a level can end.
-/

namespace ScriptCheck

namespace JoinM

variable {α β : Type}

theorem bind_eq_of_some {computation : JoinM α} {f : α → JoinM β} {store next : TypeStore}
    {result : α} (h : computation store = some (result, next)) :
    (computation >>= f) store = f result next := by
  change (computation store).bind _ = _
  rw [h]
  rfl

theorem bind_eq_none {computation : JoinM α} {f : α → JoinM β} {store : TypeStore}
    (h : computation store = none) : (computation >>= f) store = none := by
  change (computation store).bind _ = _
  rw [h]
  rfl

theorem of_bind {computation : JoinM α} {f : α → JoinM β} {store : TypeStore}
    {outcome : β × TypeStore} (h : (computation >>= f) store = some outcome) :
    ∃ result next, computation store = some (result, next) ∧ f result next = some outcome := by
  obtain ⟨⟨result, next⟩, hfirst, hrest⟩ := Option.bind_eq_some_iff.mp h
  exact ⟨result, next, hfirst, hrest⟩

/-- What comes after a condition is only done where the condition holds. -/
theorem of_guard_bind {condition : Bool} {computation : JoinM α} {store : TypeStore}
    {outcome : α × TypeStore}
    (h : (guard condition >>= fun _ => computation : JoinM α) store = some outcome) :
    condition = true ∧ computation store = some outcome := by
  cases condition with
  | true => exact ⟨rfl, h⟩
  | false => cases h

/-- Wherever the first computation has a result, the second has the same. -/
def Below (first second : JoinM α) : Prop :=
  ∀ store result, first store = some result → second store = some result

namespace Below

theorem refl (computation : JoinM α) : Below computation computation :=
  fun _ _ h => h

theorem trans {first second third : JoinM α} (h : Below first second)
    (hnext : Below second third) : Below first third :=
  fun store result hrun => hnext store result (h store result hrun)

theorem failure (computation : JoinM α) : Below failure computation := by
  intro store result h
  cases h

theorem bind {first second : JoinM α} {f g : α → JoinM β} (h : Below first second)
    (hf : ∀ result, Below (f result) (g result)) : Below (first >>= f) (second >>= g) := by
  intro store last hrun
  obtain ⟨⟨result, next⟩, hfirst, hrest⟩ := Option.bind_eq_some_iff.mp hrun
  have hsecond := h store (result, next) hfirst
  exact Option.bind_eq_some_iff.mpr ⟨(result, next), hsecond, hf result next last hrest⟩

theorem foldlM {items : List α} {f g : β → α → JoinM β} (h : ∀ b a, Below (f b a) (g b a))
    (start : β) : Below (items.foldlM f start) (items.foldlM g start) := by
  induction items generalizing start with
  | nil => exact .refl _
  | cons item rest ih =>
      rw [List.foldlM_cons, List.foldlM_cons]
      exact (h start item).bind ih

/-- The first computation goes on only where a condition holds. -/
theorem guard_bind {allowed permitted : Bool} {first second : JoinM α}
    (himp : allowed = true → permitted = true) (h : Below first second) :
    Below (guard allowed >>= fun _ => first) (guard permitted >>= fun _ => second) := by
  cases allowed with
  | false =>
      intro store result hrun
      cases hrun
  | true =>
      have hpermitted : permitted = true := himp rfl
      subst hpermitted
      exact (refl _).bind fun _ => h

end Below

end JoinM

namespace Ty

open TypeStore
open JoinM (ofTypes Below)

abbrev Merger := TypeId → TypeId → JoinM (Option TypeId)

/-- The join of two members: plain types are merged one level deeper, and types that do
not merge are joined from the start. -/
def joinMemberWith (deeper restart : Merger) : Ty → Ty → JoinM Ty
  | plain x, plain y => do
    match ← deeper x y with
    | some merged => return plain merged
    | none => joinWith restart (plain x) (plain y)
  | x, y => joinWith restart x y

/-- Merges two plain types, looking no further than one level.  Where the first of two
objects stands for both, loses no more than its constant, or lacks names that the second
declares, `keeps` must allow it. -/
def mergeStep (keeps : TypeId → TypeId → Bool) (tooDeep : Bool) (deeper restart : Merger) :
    Merger := fun a b => do
  if a = b then return some a
  let left ← ofTypes (shapeOf a)
  let right ← ofTypes (shapeOf b)
  if left.kind = .unknown ∨ right.kind = .unknown then
    return some (← ofTypes (alloc { kind := .unknown, mutable := true, lenient := true }))
  if callDifferently left right then return none
  if !(← ofTypes (equivalent (plain a) (plain b))) then return none
  if sameConstant left.constant right.constant then
    guard (left.kind.isPrimitive || keeps a b)
    return some a
  if left.kind.isPrimitive ∨ tooDeep then
    guard (left.kind.isPrimitive || keeps a b)
    return some (← ofTypes (widenPlain a))
  let names := (← ofTypes (shapeOf a)).memberNames
  let others := (← ofTypes (shapeOf b)).memberNames
  guard (others.all names.contains || keeps a b)
  let members ← joinMembers (joinMemberWith deeper restart) a b names []
  return some (← ofTypes (alloc { left with constant := none, members }))

def mergeWhere (keeps : TypeId → TypeId → Bool) : Nat → Nat → Merger
  | 0, _ => fun _ _ => failure
  | bound + 1, depth =>
      mergeStep keeps (structuralDepth < depth) (mergeWhere keeps bound (depth + 1))
        (mergeWhere keeps bound 0)

theorem guard_or_true (condition : Bool) :
    (guard (condition || true) : JoinM Unit) = pure () := by
  cases condition <;> rfl

theorem merge_succ (bound depth : Nat) (a b : TypeId) :
    merge (bound + 1) depth a b =
      mergeStep (fun _ _ => true) (structuralDepth < depth) (merge bound (depth + 1))
        (merge bound 0) a b := by
  rw [merge]
  simp only [mergeStep, guard_or_true, decide_eq_true_eq, pure_bind]
  rfl

/-- Two different plain types of which something is known and that call no different functions.
A merge has to compare them. -/
structure Comparable (store : TypeStore) (a b : TypeId) : Prop where
  ne : a ≠ b
  left : (store.shape a).kind ≠ .unknown
  right : (store.shape b).kind ≠ .unknown
  calls : callDifferently (store.shape a) (store.shape b) = false

/-- How one level of a merge of two plain types ends, with the result and the store after it.
Comparing them may declare members, so what comes after the comparison is done to the store that
this leaves. -/
inductive MergeEnds (keeps : TypeId → TypeId → Bool) (tooDeep : Bool) (deeper restart : Merger)
    (store : TypeStore) (a b : TypeId) : Option TypeId → TypeStore → Prop
  | same (eq : a = b) : MergeEnds keeps tooDeep deeper restart store a b (some a) store
  | unknown (either : (store.shape a).kind = .unknown ∨ (store.shape b).kind = .unknown) :
      MergeEnds keeps tooDeep deeper restart store a b (some store.shapes.size)
        (store.add { kind := .unknown, mutable := true, lenient := true })
  | apart (ne : a ≠ b) (calls : callDifferently (store.shape a) (store.shape b) = true) :
      MergeEnds keeps tooDeep deeper restart store a b none store
  | unlike {after : TypeStore} (comparable : Comparable store a b)
      (compared : equivalent (plain a) (plain b) store = (false, after)) :
      MergeEnds keeps tooDeep deeper restart store a b none after
  /-- The first stands for both. -/
  | kept {after : TypeStore} (comparable : Comparable store a b)
      (compared : equivalent (plain a) (plain b) store = (true, after))
      (constant : sameConstant (store.shape a).constant (store.shape b).constant = true)
      (allowed : ((store.shape a).kind.isPrimitive || keeps a b) = true) :
      MergeEnds keeps tooDeep deeper restart store a b (some a) after
  /-- The first without its constant stands for both. -/
  | widened {after last : TypeStore} {wide : TypeId} (comparable : Comparable store a b)
      (compared : equivalent (plain a) (plain b) store = (true, after))
      (constant : sameConstant (store.shape a).constant (store.shape b).constant = false)
      (flat : (store.shape a).kind.isPrimitive = true ∨ tooDeep = true)
      (allowed : ((store.shape a).kind.isPrimitive || keeps a b) = true)
      (widening : widenPlain a after = (wide, last)) :
      MergeEnds keeps tooDeep deeper restart store a b (some wide) last
  /-- Their members are joined. -/
  | joined {after last : TypeStore} {members : List (String × Ty)}
      (comparable : Comparable store a b)
      (compared : equivalent (plain a) (plain b) store = (true, after))
      (constant : sameConstant (store.shape a).constant (store.shape b).constant = false)
      (inside : (store.shape a).kind.isPrimitive = false ∧ tooDeep = false)
      (allowed : ((after.shape b).memberNames.all (after.shape a).memberNames.contains ||
        keeps a b) = true)
      (joining : joinMembers (joinMemberWith deeper restart) a b (after.shape a).memberNames []
        after = some (members, last)) :
      MergeEnds keeps tooDeep deeper restart store a b (some last.shapes.size)
        (last.add { store.shape a with constant := none, members })

theorem mergeStep_ends {keeps : TypeId → TypeId → Bool} {tooDeep : Bool} {deeper restart : Merger}
    {store next : TypeStore} {a b : TypeId} {result : Option TypeId}
    (h : mergeStep keeps tooDeep deeper restart a b store = some (result, next)) :
    MergeEnds keeps tooDeep deeper restart store a b result next := by
  have hshape : ∀ (id : TypeId) (store : TypeStore),
      ofTypes (shapeOf id) store = some (store.shape id, store) := fun _ _ => rfl
  unfold mergeStep at h
  split at h
  · rename_i heq
    cases h
    exact .same heq
  rename_i hne
  rw [JoinM.bind_eq_of_some (hshape a store), JoinM.bind_eq_of_some (hshape b store)] at h
  split at h
  · rename_i heither
    cases h
    exact .unknown heither
  rename_i hknown
  obtain ⟨hleft, hright⟩ := not_or.mp hknown
  split at h
  · rename_i hcalls
    cases h
    exact .apart hne hcalls
  rename_i hcalls
  have hcomparable : Comparable store a b := ⟨hne, hleft, hright, Bool.eq_false_iff.mpr hcalls⟩
  obtain ⟨found, after, hfound, hrest⟩ := JoinM.of_bind h
  have hcompared : equivalent (plain a) (plain b) store = (found, after) := Option.some.inj hfound
  cases found with
  | false =>
      cases hrest
      exact .unlike hcomparable hcompared
  | true =>
      change (if sameConstant _ _ then _ else _ : JoinM (Option TypeId)) after = _ at hrest
      split at hrest
      · rename_i hconstant
        obtain ⟨hallowed, hend⟩ := JoinM.of_guard_bind hrest
        cases hend
        exact .kept hcomparable hcompared hconstant hallowed
      rename_i hconstant
      rw [Bool.not_eq_true] at hconstant
      split at hrest
      · rename_i hflat
        obtain ⟨hallowed, hend⟩ := JoinM.of_guard_bind hrest
        cases hend
        exact .widened hcomparable hcompared hconstant hflat hallowed rfl
      rename_i hdeep
      rw [JoinM.bind_eq_of_some (hshape a after), JoinM.bind_eq_of_some (hshape b after)] at hrest
      obtain ⟨hallowed, hend⟩ := JoinM.of_guard_bind hrest
      obtain ⟨members, last, hjoining, hadd⟩ := JoinM.of_bind hend
      cases hadd
      exact .joined hcomparable hcompared hconstant (by simpa using hdeep) hallowed hjoining

@[simp] theorem variants_ofVariants (variants : List TypeId) :
    (ofVariants variants).variants = variants := by
  unfold ofVariants
  split <;> rfl

/-- Where something is known of two types, their join absorbs the variants of the second. -/
theorem joinWith_of_known {merger : Merger} {a b : Ty} {store : TypeStore}
    (hleft : (a.isUnknown store).1 = false) (hright : (b.isUnknown store).1 = false) :
    joinWith merger a b store = (do
      let variants ← b.variants.foldlM (fun variants incoming =>
        absorb merger incoming variants) a.variants
      return ofVariants variants) store := by
  have hlooks : ∀ ty : Ty, (ty.isUnknown store).1 = false →
      ofTypes ty.isUnknown store = some (false, store) := by
    intro ty hty
    cases ty <;> exact congrArg some (Prod.ext hty rfl)
  rw [joinWith, JoinM.bind_eq_of_some (hlooks a hleft), JoinM.bind_eq_of_some (hlooks b hright)]
  rfl

/-! ## Monotonicity -/

/-- One way to merge gives what another gives, wherever it gives anything. -/
def Merger.Below (first second : Merger) : Prop := ∀ a b, (first a b).Below (second a b)

variable {first second deeper deeper' restart restart' : Merger}

theorem Merger.Below.refl (merger : Merger) : merger.Below merger := fun _ _ => .refl _

theorem below_absorb (h : first.Below second) (incoming : TypeId) (variants : List TypeId) :
    Below (absorb first incoming variants) (absorb second incoming variants) := by
  induction variants with
  | nil => exact .refl _
  | cons existing rest ih =>
      apply (h existing incoming).bind
      intro merged
      cases merged with
      | some merged => exact .refl _
      | none => exact ih.bind fun _ => .refl _

theorem below_joinWith (h : first.Below second) (a b : Ty) :
    Below (joinWith first a b) (joinWith second a b) := by
  apply (Below.refl _).bind
  intro leftUnknown
  apply (Below.refl _).bind
  intro rightUnknown
  split
  · exact .refl _
  · exact (Below.foldlM (fun variants incoming => below_absorb h incoming variants) _).bind
      fun _ => .refl _

theorem below_joinMembers {join join' : Ty → Ty → JoinM Ty}
    (h : ∀ x y, Below (join x y) (join' x y)) (a b : TypeId) (names : List String)
    (record : List (String × Ty)) :
    Below (joinMembers join a b names record) (joinMembers join' a b names record) := by
  induction names generalizing record with
  | nil => exact .refl _
  | cons name rest ih =>
      apply (Below.refl _).bind
      intro left
      apply (Below.refl _).bind
      intro right
      split
      · exact (h _ _).bind fun _ => ih _
      · exact ih _
      · exact ih _
      · exact ih _

theorem below_joinMemberWith (hdeeper : deeper.Below deeper') (hrestart : restart.Below restart')
    (x y : Ty) : Below (joinMemberWith deeper restart x y)
    (joinMemberWith deeper' restart' x y) := by
  cases x with
  | union variants => exact below_joinWith hrestart _ _
  | plain x =>
      cases y with
      | union variants => exact below_joinWith hrestart _ _
      | plain y =>
          apply (hdeeper x y).bind
          intro merged
          cases merged with
          | some merged => exact .refl _
          | none => exact below_joinWith hrestart _ _

/-- A level gives at least as much when it may keep more and reaches further inside. -/
theorem below_mergeStep {keeps keeps' : TypeId → TypeId → Bool}
    (hkeeps : ∀ a b, keeps a b = true → keeps' a b = true) (tooDeep : Bool)
    (hdeeper : deeper.Below deeper') (hrestart : restart.Below restart') :
    (mergeStep keeps tooDeep deeper restart).Below
      (mergeStep keeps' tooDeep deeper' restart') := by
  intro a b
  have hguard : ∀ condition : Bool,
      (condition || keeps a b) = true → (condition || keeps' a b) = true := by
    intro condition h
    cases condition with
    | true => rfl
    | false => exact hkeeps a b h
  unfold mergeStep
  split
  · exact .refl _
  apply (Below.refl _).bind
  intro left
  apply (Below.refl _).bind
  intro right
  split
  · exact .refl _
  split
  · exact .refl _
  apply (Below.refl _).bind
  intro alike
  split
  · exact .refl _
  split
  · exact .guard_bind (hguard _) (.refl _)
  split
  · exact .guard_bind (hguard _) (.refl _)
  apply (Below.refl _).bind
  intro shape
  apply (Below.refl _).bind
  intro other
  apply Below.guard_bind (hguard _)
  apply (below_joinMembers (below_joinMemberWith hdeeper hrestart) a b _ []).bind
  exact fun _ => .refl _

/-- Keeping less never changes a result, it only takes results away. -/
theorem mergeWhere_below (keeps : TypeId → TypeId → Bool) (bound depth : Nat) :
    (mergeWhere keeps bound depth).Below (merge bound depth) := by
  induction bound generalizing depth with
  | zero => exact fun a b => .failure _
  | succ bound ih =>
      intro a b
      rw [merge_succ]
      exact below_mergeStep (fun _ _ _ => rfl) _ (ih _) (ih _) a b

end Ty

end ScriptCheck
