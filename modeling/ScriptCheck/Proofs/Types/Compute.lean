import ScriptCheck.Proofs.Types.Access
import ScriptCheck.Proofs.Types.Look
import ScriptCheck.Proofs.Types.Merge

/-!
# Computing with types

Reading, comparing, widening and joining types writes to none of them.  Next to what looking at
types does, it makes types that have members and no constant, and that call nothing that was
not called before.
-/

namespace ScriptCheck

namespace TypeStore

/-- What a shape calls is called by some type of the store. -/
def Calls (store : TypeStore) (shape : Shape) : Prop :=
  ∀ callable, shape.callable = some callable → ∃ id, (store.shape id).callable = some callable

inductive Compute : TypeStore → TypeStore → Prop where
  | look {store next : TypeStore} (h : Look store next) : Compute store next
  | general (store : TypeStore) {shape : Shape} (hcalls : store.Calls shape)
      (hconstant : shape.constant = none) : Compute store (store.add shape)

def Computes : TypeStore → TypeStore → Prop := Relation.ReflTransGen Compute

instance : IsPreorder TypeStore Computes where
  refl _ := Relation.ReflTransGen.refl
  trans _ _ _ := Relation.ReflTransGen.trans

variable {store next last : TypeStore}

theorem lt_of_callable {id : Nat} {callable : Callable}
    (h : (store.shape id).callable = some callable) : id < store.shapes.size := by
  by_cases hlt : id < store.shapes.size
  · exact hlt
  · rw [shape_of_size_le (Nat.le_of_not_lt hlt)] at h
    cases h

theorem calls_shape (store : TypeStore) (id : TypeId) : store.Calls (store.shape id) :=
  fun _ h => ⟨id, h⟩

theorem Looks.computes (h : Looks store next) : Computes store next :=
  Relation.ReflTransGen.mono (fun _ _ => Compute.look) _ _ h

theorem Compute.later (h : Compute store next) : Later store next := by
  cases h with
  | look hlook => exact hlook.later
  | general => exact .add store _

theorem Computes.later (h : Computes store next) : Later store next := by
  induction h with
  | refl => exact .refl _
  | tail _ hstep ih => exact ih.trans hstep.later

theorem Computes.calls (h : Computes store next) {shape : Shape} (hcalls : store.Calls shape) :
    next.Calls shape := by
  intro callable hcallable
  obtain ⟨id, hid⟩ := hcalls callable hcallable
  exact ⟨id, (h.later.callable (lt_of_callable hid)).trans hid⟩

end TypeStore

open TypeStore

namespace Ty

open TypeM (Follows)

variable (store : TypeStore)

theorem makes_emptyObject : Follows Makes store (object []) := by
  apply (makes_freshTag store).bind
  intro tag next _
  exact makes_new next (by constructor <;> simp [hasMembers]) rfl rfl

theorem computes_of_makes {store : TypeStore} {α : Type} {computation : TypeM α}
    (h : Follows Makes store computation) : Follows Computes store computation :=
  (Makes.looks h).computes

theorem computes_alloc {store : TypeStore} {shape : Shape} (hcalls : store.Calls shape)
    (hconstant : shape.constant = none) : Follows Computes store (alloc shape) :=
  Relation.ReflTransGen.single (.general store hcalls hconstant)

theorem computes_unknown : Follows Computes store unknown := computes_of_makes (makes_unknown store)

theorem computes_number : Follows Computes store number := computes_of_makes (makes_number store)

theorem computes_ofValue (value : Value) : Follows Computes store (ofValue value) :=
  computes_of_makes (makes_ofValue store value)

theorem computes_widenPlain (id : TypeId) : Follows Computes store (widenPlain id) :=
  computes_of_makes (makes_widenPlain store id)

theorem computes_ofKind (kind : Kind) : Follows Computes store (ofKind kind) := by
  cases kind with
  | string => exact computes_of_makes (makes_string store)
  | number => exact computes_number store
  | boolean => exact computes_of_makes (makes_boolean store)
  | null => exact computes_of_makes (makes_null store)
  | undefined => exact computes_of_makes (makes_undefined store)
  | object => exact computes_of_makes (makes_emptyObject store)
  | function | unknown => exact computes_unknown store

/-! ## Members -/

theorem computes_declaredMember (id : TypeId) (name : String) :
    Follows Computes store (declaredMember id name) :=
  Looks.computes (looks_declaredMember store id name)

theorem computes_equivalent (a b : Ty) : Follows Computes store (equivalent a b) :=
  follows_equivalent store computes_declaredMember a b

theorem computes_builtinMember (id : TypeId) (name : String) :
    Follows Computes store (builtinMember id name) := by
  apply Follows.shapeOf_bind
  split
  · split
    · exact (computes_ofValue store _).bind fun _ _ _ => .pure _
    · exact (computes_number store).bind fun _ _ _ => .pure _
  · exact .pure _

theorem computes_ownMember (id : TypeId) (name : String) :
    Follows Computes store (ownMember id name) := by
  apply (computes_declaredMember store id name).bind
  intro _ next _
  split
  · exact .pure _
  · exact computes_builtinMember next id name

theorem computes_declaredMembers (id : TypeId) (names : List String) :
    Follows Computes store (declaredMembers id names) := by
  induction names generalizing store with
  | nil => exact .pure _
  | cons name rest ih =>
      apply (computes_declaredMember store id name).bind
      intro _ next _
      split
      · exact (ih next).bind fun _ _ _ => .pure _
      · exact ih next

theorem computes_members (ty : Ty) : Follows Computes store ty.members := by
  cases ty with
  | plain id =>
      exact .shapeOf_bind <| (computes_declaredMembers store id _).bind fun _ _ _ => .pure _
  | union variants => exact .pure _

theorem computes_incompatible (a b : Ty) : Follows Computes store (incompatible a b) :=
  follows_incompatible store computes_declaredMember a b

theorem computes_textMember (shape : Shape) (name : String) :
    Follows Computes store (textMember shape name) := by
  unfold textMember
  split
  · exact (computes_ofValue store _).bind fun _ _ _ => .pure _
  · exact .pure _

theorem computes_namedMember (id : TypeId) (name : String) :
    Follows Computes store (namedMember id name) := by
  apply (computes_ownMember store id name).bind
  intro _ next _
  split
  · exact .pure _
  · exact .shapeOf_bind <| computes_textMember next _ name

theorem computes_indexedMember (id : TypeId) (key : Ty) :
    Follows Computes store (indexedMember id key) := by
  apply Follows.shapeOf_bind
  split
  · exact .pure _
  · apply (follows_accepts store _ key).bind
    intro _ next _
    split
    · split
      · exact .pure _
      · exact (computes_unknown next).bind fun _ _ _ => .pure _
    · exact .pure _

theorem computes_plainMember (id : TypeId) (key : Ty) :
    Follows Computes store (plainMember id key) := by
  apply Follows.shapeOf_bind
  split
  · exact (computes_unknown store).bind fun _ _ _ => .pure _
  · apply (follows_keyName? store key).bind
    intro _ next _
    split
    · exact computes_indexedMember next id key
    · apply (computes_namedMember next id _).bind
      intro _ after _
      split
      · exact .pure _
      · exact computes_indexedMember after id key

theorem computes_variantMembers (key : Ty) (variants : List TypeId) :
    Follows Computes store (variantMembers key variants) := by
  induction variants generalizing store with
  | nil => exact .pure _
  | cons id rest ih =>
      apply (computes_plainMember store id key).bind
      intro _ next _
      split
      · exact (ih next).bind fun _ _ _ => .pure _
      · exact (computes_unknown next).bind fun _ after _ => (ih after).bind fun _ _ _ => .pure _

theorem computes_plainLacks (id : TypeId) (key : Ty) :
    Follows Computes store (plainLacks id key) :=
  follows_plainLacks fun name => computes_ownMember store id name

theorem computes_lacks (ty key : Ty) : Follows Computes store (ty.lacks key) :=
  .anyM fun id next _ => computes_plainLacks next id key

end Ty

namespace Ty

open JoinM (Follows)

variable (store : TypeStore)

/-! ## Joins -/

theorem computes_absorb {merge : TypeId → TypeId → JoinM (Option TypeId)}
    (hmerge : ∀ store a b, Follows Computes store (merge a b)) (incoming : TypeId)
    (variants : List TypeId) : Follows Computes store (absorb merge incoming variants) := by
  induction variants generalizing store with
  | nil => exact .pure _
  | cons existing rest ih =>
      apply (hmerge store existing incoming).bind
      intro _ next _
      split
      · exact .pure _
      · exact (ih next).bind fun _ _ _ => .pure _

theorem computes_joinWith {merge : TypeId → TypeId → JoinM (Option TypeId)}
    (hmerge : ∀ store a b, Follows Computes store (merge a b)) (a b : Ty) :
    Follows Computes store (joinWith merge a b) := by
  refine Follows.bind (.ofTypes (follows_isUnknown store a)) fun _ next _ => ?_
  refine Follows.bind (.ofTypes (follows_isUnknown next b)) fun _ after _ => ?_
  split
  · exact .ofTypes (computes_unknown after)
  · refine Follows.bind (.foldlM fun variants incoming last _ => ?_) fun _ _ _ => .pure _
    exact computes_absorb last hmerge incoming variants

theorem computes_joinMembers {joinMember : Ty → Ty → JoinM Ty}
    (hjoin : ∀ store a b, Follows Computes store (joinMember a b)) (a b : TypeId)
    (names : List String) (record : List (String × Ty)) :
    Follows Computes store (joinMembers joinMember a b names record) := by
  induction names generalizing store record with
  | nil => exact .pure _
  | cons name rest ih =>
      apply Follows.bind (.ofTypes (computes_declaredMember store a name))
      intro _ next _
      apply Follows.bind (.ofTypes (computes_declaredMember next b name))
      intro _ after _
      split
      · exact (hjoin after _ _).bind fun _ last _ => ih last _
      · exact ih after _
      · exact ih after _
      · exact ih after _

theorem computes_joinMemberWith {deeper restart : Merger}
    (hdeeper : ∀ store a b, Follows Computes store (deeper a b))
    (hrestart : ∀ store a b, Follows Computes store (restart a b)) (x y : Ty) :
    Follows Computes store (joinMemberWith deeper restart x y) := by
  unfold joinMemberWith
  split
  · apply (hdeeper store _ _).bind
    intro _ next _
    split
    · exact .pure _
    · exact computes_joinWith next hrestart _ _
  · exact computes_joinWith store hrestart _ _

theorem computes_mergeStep {keeps : TypeId → TypeId → Bool} {tooDeep : Bool}
    {deeper restart : Merger} (hdeeper : ∀ store a b, Follows Computes store (deeper a b))
    (hrestart : ∀ store a b, Follows Computes store (restart a b)) (a b : TypeId) :
    Follows Computes store (mergeStep keeps tooDeep deeper restart a b) := by
  intro result next hrun
  have hcomputes : ∀ {found : Bool} {after : TypeStore},
      equivalent (plain a) (plain b) store = (found, after) → Computes store after := by
    intro found after hcompared
    exact JoinM.Follows.ofTypes (computes_equivalent store _ _) found after
      (congrArg some hcompared)
  cases mergeStep_ends hrun with
  | same | apart => exact refl_of Computes store
  | unknown => exact computes_unknown store
  | unlike _ hcompared | kept _ hcompared => exact hcomputes hcompared
  | widened _ hcompared _ _ _ hwidening =>
      exact trans_of Computes (hcomputes hcompared)
        (JoinM.Follows.ofTypes (computes_widenPlain _ a) _ _ (congrArg some hwidening))
  | @joined after last members _ hcompared _ _ _ hjoining =>
      have hmember : ∀ store x y, Follows Computes store (joinMemberWith deeper restart x y) :=
        fun store => computes_joinMemberWith store hdeeper hrestart
      have hlast := trans_of Computes (hcomputes hcompared)
        (computes_joinMembers after hmember a b _ [] members last hjoining)
      have hcalls : last.Calls { store.shape a with constant := none, members } :=
        hlast.calls (calls_shape store a)
      exact trans_of Computes hlast (computes_alloc hcalls rfl)

theorem computes_merge (bound depth : Nat) (a b : TypeId) :
    Follows Computes store (merge bound depth a b) := by
  induction bound generalizing store depth a b with
  | zero => exact .fail
  | succ bound ih =>
      rw [merge_succ]
      exact computes_mergeStep store (fun store => ih store (depth + 1)) (fun store => ih store 0)
        a b

theorem computes_join (bound : Nat) (a b : Ty) : Follows Computes store (join bound a b) :=
  computes_joinWith store (fun store => computes_merge store bound 0) a b

theorem computes_joinAll (bound : Nat) (types : List Ty) :
    Follows Computes store (joinAll bound types) := by
  cases types with
  | nil => exact .pure _
  | cons first rest =>
      exact Follows.bind (.foldlM fun a b next _ => computes_join next bound a b)
        fun _ _ _ => .pure _

theorem computes_widen (bound : Nat) (ty : Ty) : Follows Computes store (widen bound ty) := by
  unfold widen
  split
  · exact Follows.bind (.ofTypes (computes_widenPlain store _)) fun _ _ _ => .pure _
  · exact .ofTypes (computes_unknown store)
  · apply Follows.bind (.ofTypes (computes_widenPlain store _))
    intro _ next _
    refine .foldlM fun joined id after _ => ?_
    exact Follows.bind (.ofTypes (computes_widenPlain after id)) fun _ last _ =>
      computes_join last bound _ _

theorem computes_joinWidened (bound : Nat) (types : List Ty) :
    Follows Computes store (joinWidened bound types) := by
  cases types with
  | nil => exact .pure _
  | cons first rest =>
      apply (computes_widen store bound first).bind
      intro _ next _
      refine Follows.bind (.foldlM fun joined item after _ => ?_) fun _ _ _ => .pure _
      exact (computes_widen after bound item).bind fun _ last _ => computes_join last bound _ _

theorem computes_array (bound : Nat) (elements : List Ty) :
    Follows Computes store (array bound elements) := by
  apply Follows.bind (.ofTypes (computes_of_makes (makes_elementConstants store elements)))
  intro _ next _
  apply (computes_joinWidened next bound elements).bind
  intro _ after _
  exact .ofTypes (computes_of_makes (makes_arrayOf after _ _))

theorem computes_narrow (bound : Nat) (ty : Ty) (kind : Kind) :
    Follows Computes store (ty.narrow bound kind) := by
  apply Follows.get_bind
  apply (computes_joinAll store bound _).bind
  intro _ next _
  split
  · exact .pure _
  · exact .ofTypes (computes_ofKind next kind)

theorem computes_member? (bound : Nat) (ty key : Ty) :
    Follows Computes store (ty.member? bound key) := by
  cases ty with
  | plain id => exact .ofTypes (computes_plainMember store id key)
  | union variants =>
      exact Follows.bind (.ofTypes (computes_variantMembers store key variants))
        fun _ next _ => computes_joinAll next bound _

end Ty

end ScriptCheck
