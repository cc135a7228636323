import Mathlib.Order.Defs.Unbundled
import ScriptCheck.Types.Access

/-!
# Where computations on types lead

A computation on types leads from one store to another.  What it can do to the store is
said by a preorder on stores, and whatever is put together from steps that respect the
preorder respects it.  Comparing types does nothing to the store but read members.
-/

namespace ScriptCheck

open TypeStore

theorem TypeM.bind_apply {α β : Type} (computation : TypeM α) (f : α → TypeM β)
    (store : TypeStore) :
    (computation >>= f) store = f (computation store).1 (computation store).2 := rfl

/-- A computation on types leads to a store that is related to where it began. -/
def TypeM.Follows {α : Type} (R : TypeStore → TypeStore → Prop) (store : TypeStore)
    (computation : TypeM α) : Prop :=
  R store (computation store).2

/-- A computation that may exceed its bound leads to a related store, if to any. -/
def JoinM.Follows {α : Type} (R : TypeStore → TypeStore → Prop) (store : TypeStore)
    (computation : JoinM α) : Prop :=
  ∀ result next, computation store = some (result, next) → R store next

namespace TypeM.Follows

variable {α β : Type} {R : TypeStore → TypeStore → Prop} {store : TypeStore}

theorem mono {S : TypeStore → TypeStore → Prop} {computation : TypeM α}
    (h : Follows R store computation) (himp : ∀ {next}, R store next → S store next) :
    Follows S store computation :=
  himp h

theorem shapeOf_bind {f : Shape → TypeM β} {id : TypeId}
    (hf : Follows R store (f (store.shape id))) : Follows R store (shapeOf id >>= f) :=
  hf

theorem get_bind {f : TypeStore → TypeM β} (hf : Follows R store (f store)) :
    Follows R store (get >>= f) :=
  hf

variable [IsPreorder TypeStore R]

theorem pure (result : α) : Follows R store (Pure.pure result) := refl_of R store

theorem of_same {computation : TypeM α} (h : (computation store).2 = store) :
    Follows R store computation := by
  unfold Follows
  rw [h]
  exact refl_of R store

theorem bind {computation : TypeM α} {f : α → TypeM β} (h : Follows R store computation)
    (hf : ∀ result next, R store next → Follows R next (f result)) :
    Follows R store (computation >>= f) :=
  trans_of R h (hf _ _ h)

theorem foldlM {items : List α} {f : β → α → TypeM β} {start : β}
    (hf : ∀ b a next, R store next → Follows R next (f b a)) :
    Follows R store (items.foldlM f start) := by
  induction items generalizing store start with
  | nil => exact .pure start
  | cons item rest ih =>
      rw [List.foldlM_cons]
      apply (hf start item store (refl_of R store)).bind
      intro _ next hnext
      exact ih fun b a after hafter => hf b a after (trans_of R hnext hafter)

theorem anyM {items : List α} {f : α → TypeM Bool}
    (hf : ∀ a next, R store next → Follows R next (f a)) : Follows R store (items.anyM f) := by
  induction items generalizing store with
  | nil => exact .pure false
  | cons item rest ih =>
      apply (hf item store (refl_of R store)).bind
      intro found next hnext
      cases found with
      | true => exact .pure true
      | false => exact ih fun a after hafter => hf a after (trans_of R hnext hafter)

theorem allM {items : List α} {f : α → TypeM Bool}
    (hf : ∀ a next, R store next → Follows R next (f a)) : Follows R store (items.allM f) := by
  induction items generalizing store with
  | nil => exact .pure true
  | cons item rest ih =>
      apply (hf item store (refl_of R store)).bind
      intro found next hnext
      cases found with
      | true => exact ih fun a after hafter => hf a after (trans_of R hnext hafter)
      | false => exact .pure false

/-- What holds of all items was found of each of them from some related store. -/
theorem exists_of_allM {items : List α} {f : α → TypeM Bool}
    (hf : ∀ a next, R store next → Follows R next (f a)) (h : (items.allM f store).1 = true) :
    ∀ a ∈ items, ∃ next, R store next ∧ (f a next).1 = true := by
  induction items generalizing store with
  | nil => exact fun a ha => absurd ha List.not_mem_nil
  | cons item rest ih =>
      have hitem := hf item store (refl_of R store)
      rw [List.allM_cons, bind_apply] at h
      by_cases hfound : (f item store).1 = true
      · rw [if_pos hfound] at h
        intro a ha
        rcases List.mem_cons.mp ha with rfl | hrest
        · exact ⟨store, refl_of R store, hfound⟩
        · obtain ⟨next, hnext, hlater⟩ :=
            ih (fun a after hafter => hf a after (trans_of R hitem hafter)) h a hrest
          exact ⟨next, trans_of R hitem hnext, hlater⟩
      · rw [if_neg hfound] at h
        cases h

end TypeM.Follows

namespace JoinM.Follows

variable {α β : Type} {R : TypeStore → TypeStore → Prop} {store : TypeStore}

theorem fail : Follows R store (failure : JoinM α) := by
  intro _ _ h
  cases h

theorem ofTypes {computation : TypeM α} (h : TypeM.Follows R store computation) :
    Follows R store (JoinM.ofTypes computation) := by
  intro result next hrun
  have hnext : (computation store).2 = next := congrArg Prod.snd (Option.some.inj hrun)
  rw [← hnext]
  exact h

theorem get_bind {f : TypeStore → JoinM β} (hf : Follows R store (f store)) :
    Follows R store (get >>= f) :=
  hf

variable [IsPreorder TypeStore R]

theorem pure (result : α) : Follows R store (Pure.pure result) := by
  intro _ _ h
  cases h
  exact refl_of R store

theorem bind {computation : JoinM α} {f : α → JoinM β} (h : Follows R store computation)
    (hf : ∀ result next, R store next → Follows R next (f result)) :
    Follows R store (computation >>= f) := by
  intro last after hrun
  obtain ⟨⟨result, next⟩, hfirst, hrest⟩ := Option.bind_eq_some_iff.mp hrun
  have hnext := h result next hfirst
  exact trans_of R hnext (hf result next hnext last after hrest)

theorem foldlM {items : List α} {f : β → α → JoinM β} {start : β}
    (hf : ∀ b a next, R store next → Follows R next (f b a)) :
    Follows R store (items.foldlM f start) := by
  induction items generalizing store start with
  | nil => exact .pure start
  | cons item rest ih =>
      rw [List.foldlM_cons]
      apply (hf start item store (refl_of R store)).bind
      intro _ next hnext
      exact ih fun b a after hafter => hf b a after (trans_of R hnext hafter)

end JoinM.Follows

namespace Ty

open TypeM (Follows)

variable {R : TypeStore → TypeStore → Prop} [IsPreorder TypeStore R] (store : TypeStore)

/-! ## Inspection -/

theorem follows_constant? (ty : Ty) : Follows R store ty.constant? := by
  cases ty <;> exact .of_same rfl

theorem follows_isKind (ty : Ty) (kind : Kind) : Follows R store (ty.isKind kind) := by
  cases ty <;> exact .of_same rfl

theorem follows_isUnknown (ty : Ty) : Follows R store ty.isUnknown := follows_isKind store ty _

theorem follows_isNot (ty : Ty) (kind : Kind) : Follows R store (ty.isNot kind) := .of_same rfl

theorem follows_keyName? (key : Ty) : Follows R store key.keyName? := by
  apply (follows_constant? store key).bind
  intro _ next _
  split <;> exact .pure _

theorem follows_accepts (indexer : Indexer) (key : Ty) : Follows R store (indexer.accepts key) :=
  (follows_isNot store key _).bind fun _ _ _ => .pure _

theorem follows_memberConstants (members : List (String × Ty)) :
    Follows R store (memberConstants members) := by
  induction members generalizing store with
  | nil => exact .pure _
  | cons member rest ih =>
      apply (follows_constant? store member.2).bind
      intro _ next _
      apply (ih next).bind
      intro _ after _
      split <;> exact .pure _

/-! ## Comparison -/

def ReaderFollows (R : TypeStore → TypeStore → Prop) (read : MemberReader) : Prop :=
  ∀ store id name, Follows R store (read id name)

variable {read : MemberReader} {nested : Ty → Ty → TypeM Bool}

def memberAssignable (read : MemberReader) (nested : Ty → Ty → TypeM Bool)
    (target source : TypeId) (name : String) : TypeM Bool := do
  let expected? ← read target name
  let actual? ← read source name
  match expected?, actual? with
  | some expected, some actual => nested expected actual
  | _, _ => pure false

theorem membersAssignable_eq_allM (read : MemberReader) (nested : Ty → Ty → TypeM Bool)
    (target source : TypeId) (names : List String) :
    membersAssignable read nested target source names =
      names.allM (memberAssignable read nested target source) := by
  induction names with
  | nil => rfl
  | cons name rest ih =>
      rw [membersAssignable, List.allM_cons, ← ih]
      simp only [memberAssignable, bind_assoc]
      refine bind_congr fun expected? => bind_congr fun actual? => ?_
      cases expected? with
      | none => rfl
      | some expected => cases actual? <;> rfl

theorem follows_memberAssignable (hread : ReaderFollows R read)
    (hnested : ∀ store a b, Follows R store (nested a b)) (target source : TypeId)
    (name : String) : Follows R store (memberAssignable read nested target source name) := by
  apply (hread store target name).bind
  intro _ next _
  apply (hread next source name).bind
  intro _ after _
  split
  · exact hnested after _ _
  · exact .pure _

theorem follows_membersAssignable (hread : ReaderFollows R read)
    (hnested : ∀ store a b, Follows R store (nested a b)) (target source : TypeId)
    (names : List String) :
    Follows R store (membersAssignable read nested target source names) := by
  rw [membersAssignable_eq_allM]
  exact .allM fun name next _ => follows_memberAssignable next hread hnested target source name

theorem follows_elementsAssignable (hnested : ∀ store a b, Follows R store (nested a b))
    (target source : Shape) : Follows R store (elementsAssignable nested target source) := by
  unfold elementsAssignable
  split
  · split
    · exact .pure _
    · exact hnested store _ _
    · exact .pure _
  · exact .pure _

theorem follows_plainAssignable (hread : ReaderFollows R read)
    (hnested : ∀ store a b, Follows R store (nested a b)) (target source : TypeId) :
    Follows R store (plainAssignable read nested target source) := by
  unfold plainAssignable
  split
  · exact .pure _
  apply Follows.shapeOf_bind
  apply Follows.shapeOf_bind
  split
  · exact .pure _
  split
  · exact .pure _
  split
  · exact .pure _
  apply (follows_elementsAssignable store hnested _ _).bind
  intro found next _
  split
  · exact .shapeOf_bind (follows_membersAssignable next hread hnested _ _ _)
  · exact .pure _

theorem follows_assignableWithin (hread : ReaderFollows R read) (depth : Nat)
    (target source : Ty) : Follows R store (assignableWithin read depth target source) := by
  induction depth generalizing store target source with
  | zero => exact .pure _
  | succ depth ih =>
      cases source with
      | union variants =>
          unfold assignableWithin
          exact .allM fun variant next _ => ih next _ _
      | plain source =>
          cases target with
          | union variants =>
              unfold assignableWithin
              exact .anyM fun variant next _ => ih next _ _
          | plain target => exact follows_plainAssignable store hread ih target source

theorem follows_equivalent (hread : ReaderFollows R declaredMember) (a b : Ty) :
    Follows R store (equivalent a b) := by
  apply (follows_assignableWithin store hread _ a b).bind
  intro _ next _
  split
  · exact follows_assignableWithin next hread _ b a
  · exact .pure _

theorem follows_incompatible (hread : ReaderFollows R declaredMember) (a b : Ty) :
    Follows R store (incompatible a b) := by
  apply (follows_assignableWithin store hread _ a b).bind
  intro _ next _
  split
  · exact .pure _
  · exact (follows_assignableWithin next hread _ b a).bind fun _ _ _ => .pure _

end Ty

end ScriptCheck
