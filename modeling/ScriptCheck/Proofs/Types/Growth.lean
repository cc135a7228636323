import ScriptCheck.Proofs.Types.Compute

/-!
# How the store of types grows

No computation on types takes a plain type back.  Of a shape only the constant and the
members change, and a new type calls nothing that no type called before, unless it is
made for a function.
-/

namespace ScriptCheck

namespace TypeStore

/-- A later store has all types of an earlier one, and calls what the earlier one calls
or what is in `made`. -/
structure Grows (made : Callable → Prop) (before after : TypeStore) : Prop where
  size_le : before.shapes.size ≤ after.shapes.size
  outline : ∀ {id : Nat}, id < before.shapes.size →
    (after.shape id).outline = (before.shape id).outline
  callable : ∀ {id : Nat} {callable : Callable}, (after.shape id).callable = some callable →
    made callable ∨ ∃ old, (before.shape old).callable = some callable

variable {made : Callable → Prop} {store next last : TypeStore}

namespace Grows

theorem refl (store : TypeStore) : Grows made store store :=
  ⟨Nat.le_refl _, fun _ => rfl, fun h => .inr ⟨_, h⟩⟩

theorem trans (h : Grows made store next) (hlast : Grows made next last) :
    Grows made store last where
  size_le := Nat.le_trans h.size_le hlast.size_le
  outline hid := (hlast.outline (Nat.lt_of_lt_of_le hid h.size_le)).trans (h.outline hid)
  callable hcallable := by
    rcases hlast.callable hcallable with hmade | ⟨old, hold⟩
    · exact .inl hmade
    · exact h.callable hold

instance : IsPreorder TypeStore (Grows made) where
  refl := refl
  trans _ _ _ := trans

theorem add {shape : Shape}
    (h : ∀ callable, shape.callable = some callable →
      made callable ∨ ∃ id, (store.shape id).callable = some callable) :
    Grows made store (store.add shape) where
  size_le := by simp [TypeStore.add]
  outline hid := by rw [shape_add_of_lt hid]
  callable {id callable} hcallable := by
    rcases Nat.lt_trichotomy id store.shapes.size with hlt | heq | hgt
    · rw [shape_add_of_lt hlt] at hcallable
      exact .inr ⟨id, hcallable⟩
    · subst heq
      rw [shape_add_self] at hcallable
      exact h callable hcallable
    · have hnone := lt_of_callable hcallable
      simp only [TypeStore.add, Array.size_push] at hnone
      omega

theorem modify (store : TypeStore) (id : TypeId) {f : Shape → Shape}
    (hf : ∀ shape, (f shape).outline = shape.outline) : Grows made store (store.modify id f) := by
  have houtline : ∀ other, ((store.modify id f).shape other).outline =
      (store.shape other).outline := by
    intro other
    by_cases heq : other = id
    · subst heq
      by_cases hlt : other < store.shapes.size
      · rw [shape_modify_self hlt, hf]
      · rw [shape_of_size_le (Nat.le_of_not_lt hlt), shape_of_size_le]
        rw [size_modify]
        exact Nat.le_of_not_lt hlt
    · rw [shape_modify_of_ne heq]
  refine ⟨Nat.le_of_eq (size_modify store id f).symm, fun _ => houtline _, ?_⟩
  intro other callable hcallable
  have hsame := callable_of_outline (houtline other)
  exact .inr ⟨other, by rw [← hsame, hcallable]⟩

theorem of_look (h : Look store next) : Grows made store next := by
  cases h with
  | declare => exact .modify store _ fun _ => rfl
  | make hmake =>
      cases hmake with
      | tag => exact ⟨Nat.le_refl _, fun _ => rfl, fun h => .inr ⟨_, h⟩⟩
      | bare _ _ hnone =>
          apply Grows.add
          intro callable hcallable
          rw [hnone] at hcallable
          cases hcallable
      | widened =>
          exact .add fun callable hcallable => .inr (calls_shape store _ callable hcallable)

end Grows

theorem Grows.of_compute (h : Compute store next) : Grows made store next := by
  cases h with
  | look hlook => exact .of_look hlook
  | general hcalls => exact .add fun callable hcallable => .inr (hcalls callable hcallable)

theorem Computes.grows (h : Computes store next) : Grows made store next := by
  induction h with
  | refl => exact .refl _
  | tail _ hstep ih => exact ih.trans (.of_compute hstep)

end TypeStore

open TypeStore

abbrev TypeM.GrowsFrom {α : Type} (made : Callable → Prop) (store : TypeStore)
    (computation : TypeM α) : Prop :=
  computation.Follows (Grows made) store

/-- A computation that may exceed its bound only lets the store grow. -/
abbrev JoinM.GrowsFrom {α : Type} (made : Callable → Prop) (store : TypeStore)
    (computation : JoinM α) : Prop :=
  computation.Follows (Grows made) store

namespace Ty

open TypeM (Follows GrowsFrom)

variable {made : Callable → Prop} (store : TypeStore)

theorem grows_of_makes {store : TypeStore} {α : Type} {computation : TypeM α}
    (h : Follows Makes store computation) : GrowsFrom made store computation :=
  (computes_of_makes h).grows

/-! ## Making types -/

theorem grows_alloc {store : TypeStore} {shape : Shape} (h : store.Calls shape) :
    GrowsFrom made store (alloc shape) :=
  Grows.add fun callable hcallable => .inr (h callable hcallable)

theorem grows_new {store : TypeStore} {shape : Shape} (h : store.Calls shape) :
    GrowsFrom made store (new shape) :=
  (grows_alloc h).bind fun _ _ _ => .pure _

theorem grows_freshTag : GrowsFrom made store freshTag := grows_of_makes (makes_freshTag store)

theorem grows_update {id : TypeId} {f : Shape → Shape}
    (hf : ∀ shape, (f shape).outline = shape.outline) : GrowsFrom made store (update id f) :=
  .modify store id hf

theorem grows_unknown : GrowsFrom made store unknown := grows_of_makes (makes_unknown store)

theorem grows_number : GrowsFrom made store number := grows_of_makes (makes_number store)

theorem grows_boolean : GrowsFrom made store boolean := grows_of_makes (makes_boolean store)

theorem grows_undefined : GrowsFrom made store undefined := grows_of_makes (makes_undefined store)

theorem grows_string : GrowsFrom made store string := grows_of_makes (makes_string store)

theorem grows_ofValue (value : Value) : GrowsFrom made store (ofValue value) :=
  grows_of_makes (makes_ofValue store value)

/-! ## Inspection -/

theorem grows_isConstant (ty : Ty) : GrowsFrom made store ty.isConstant := by
  cases ty <;> exact .of_same rfl

theorem grows_callable? (ty : Ty) : GrowsFrom made store ty.callable? := by
  cases ty <;> exact .of_same rfl

theorem grows_isMutable (ty : Ty) : GrowsFrom made store ty.isMutable := .of_same rfl

theorem grows_typeofName? (ty : Ty) : GrowsFrom made store ty.typeofName? := by
  apply Follows.get_bind
  split <;> exact .pure _

theorem grows_display (ty : Ty) : GrowsFrom made store ty.display := .of_same rfl

/-! ## Objects and functions -/

theorem grows_object (members : List (String × Ty)) : GrowsFrom made store (object members) := by
  apply (grows_freshTag store).bind
  intro _ next _
  apply (follows_memberConstants next members).bind
  intro _ after _
  apply grows_new
  intro callable hcallable
  cases hcallable

/-- A function is the one type that calls something new. -/
theorem grows_function {callable : Callable} (h : made callable) :
    GrowsFrom made store (function callable) := by
  apply (grows_object store []).bind
  intro _ next _
  refine Follows.bind (Grows.add fun found hfound => .inl ?_) fun _ _ _ => .pure _
  cases hfound
  exact h

theorem grows_toConstant (ty : Ty) (value : Value) :
    GrowsFrom made store (ty.toConstant value) := by
  cases ty with
  | plain id =>
      apply Follows.shapeOf_bind
      split
      · exact grows_new (calls_shape store id)
      · exact grows_ofValue store value
  | union variants => exact grows_ofValue store value

/-! ## Members -/

theorem grows_setMember (id : TypeId) (name : String) (member : Ty) :
    GrowsFrom made store (setMember id name member) := by
  apply (follows_constant? store member).bind
  intro _ next _
  apply (grows_freshTag next).bind
  intro _ after _
  exact grows_update after fun _ => rfl

theorem grows_members (ty : Ty) : GrowsFrom made store ty.members :=
  (computes_members store ty).grows

theorem grows_incompatible (a b : Ty) : GrowsFrom made store (incompatible a b) :=
  (computes_incompatible store a b).grows

theorem grows_lacks (ty key : Ty) : GrowsFrom made store (ty.lacks key) :=
  (computes_lacks store ty key).grows

theorem grows_setPlain (id : TypeId) (key value : Ty) :
    GrowsFrom made store (setPlain id key value) :=
  follows_setPlain (fun _ _ name => grows_setMember store id name value)
    fun _ _ => .modify store id fun _ => rfl

theorem grows_trySet (ty key value : Ty) : GrowsFrom made store (ty.trySet key value) :=
  .foldlM fun _ id next _ => (grows_setPlain next id key value).bind fun _ _ _ => .pure _

end Ty

namespace Ty

open JoinM (Follows GrowsFrom)

variable {made : Callable → Prop} (store : TypeStore)

/-! ## Joins -/

theorem grows_of_computes {store : TypeStore} {α : Type} {computation : JoinM α}
    (h : Follows Computes store computation) : GrowsFrom made store computation :=
  fun result next hrun => (h result next hrun).grows

theorem grows_join (bound : Nat) (a b : Ty) : GrowsFrom made store (join bound a b) :=
  grows_of_computes (computes_join store bound a b)

theorem grows_joinAll (bound : Nat) (types : List Ty) :
    GrowsFrom made store (joinAll bound types) :=
  grows_of_computes (computes_joinAll store bound types)

theorem grows_widen (bound : Nat) (ty : Ty) : GrowsFrom made store (widen bound ty) :=
  grows_of_computes (computes_widen store bound ty)

theorem grows_array (bound : Nat) (elements : List Ty) :
    GrowsFrom made store (array bound elements) :=
  grows_of_computes (computes_array store bound elements)

theorem grows_narrow (bound : Nat) (ty : Ty) (kind : Kind) :
    GrowsFrom made store (ty.narrow bound kind) :=
  grows_of_computes (computes_narrow store bound ty kind)

theorem grows_member? (bound : Nat) (ty key : Ty) :
    GrowsFrom made store (ty.member? bound key) :=
  grows_of_computes (computes_member? store bound ty key)

end Ty

end ScriptCheck
