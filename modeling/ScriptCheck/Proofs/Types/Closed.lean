import ScriptCheck.Proofs.Types.Forms
import ScriptCheck.Proofs.Types.Operation

/-!
# Every store obtained is closed

Each operation leads from a closed store to a closed one, which has the types that come of the
operation.  So in every store that is obtained, both parts of a join are assignable to it, and so is
whatever is assignable to its first part.
-/

namespace ScriptCheck

open TypeStore

namespace Ty

open TypeM (Follows)
open JoinM (ofTypes Ensures Leads)

variable {store next : TypeStore}

theorem ensures_declaredMembers (hclosed : store.Closed) (id : Nat) (names : List String) :
    (ofTypes (declaredMembers id names)).Ensures store fun members next =>
      ∀ member ∈ members, next.Holds member.2 := by
  induction names generalizing store with
  | nil => exact Ensures.pure fun member hmember => (nomatch hmember)
  | cons name rest ih =>
      apply Ensures.ofTypes_bind
      apply (mayForm_declaredMember hclosed id name).bind
      intro found next hsteady hfound
      have hnext := (hsteady hclosed).1
      cases found with
      | none => exact ih hnext
      | some member =>
          apply Ensures.ofTypes_bind
          apply (ih hnext).bind
          intro members last hlast hmembers
          refine Ensures.pure ?_
          rw [List.forall_mem_cons]
          exact ⟨hlast.holds hnext (hfound member rfl), hmembers⟩

theorem ensures_members (hclosed : store.Closed) (ty : Ty) :
    (ofTypes ty.members).Ensures store fun members next =>
      ∀ member ∈ members, next.Holds member.2 := by
  cases ty with
  | union variants => exact Ensures.pure fun member hmember => (nomatch hmember)
  | plain id =>
      apply Ensures.ofTypes_bind
      apply Ensures.shapeOf_bind
      apply Ensures.ofTypes_bind
      refine (ensures_declaredMembers hclosed id _).bind fun members next _ hmembers => ?_
      exact Ensures.pure fun member hmember => hmembers member (Record.mem_of_mem_ofList hmember)

theorem leads_of_ensures {α : Type} {computation : JoinM α} {post : α → TypeStore → Prop}
    (h : computation.Ensures store post) : computation.Leads Closes store post :=
  fun result next hrun => ⟨(h result next hrun).1.closes, (h result next hrun).2⟩

theorem Forms.single {computation : JoinM Ty} (h : Forms store computation) :
    (do return [← computation] : JoinM (List Ty)).Leads Closes store fun made next =>
      ∀ ty ∈ made, next.Holds ty :=
  .single (leads_of_ensures h)

theorem MayForm.atMost {computation : JoinM (Option Ty)} (h : MayForm store computation) :
    (do return (← computation).toList : JoinM (List Ty)).Leads Closes store fun made next =>
      ∀ ty ∈ made, next.Holds ty :=
  .atMost (leads_of_ensures h)

theorem closes_run (bound : Nat) (hclosed : store.Closed) {operation : Operation}
    (hoperands : ∀ ty ∈ operation.operands, store.Holds ty) :
    (operation.run bound).Leads Closes store fun made next => ∀ ty ∈ made, next.Holds ty := by
  cases operation with
  | general kind => exact (forms_ofKind hclosed kind).single
  | known value => exact (forms_ofValue hclosed value).single
  | object members =>
      refine Forms.single (forms_object hclosed fun hmember => ?_)
      exact hoperands _ (List.mem_map_of_mem (Record.mem_of_get? hmember))
  | array elements => exact (forms_array bound hclosed hoperands).single
  | function callable => exact (forms_function hclosed callable).single
  | pin ty value => exact (forms_toConstant hclosed ty value).single
  | widen ty => exact (forms_widen bound hclosed (hoperands ty List.mem_cons_self)).single
  | join a b =>
      have ha := hoperands a (by simp [Operation.operands])
      have hb := hoperands b (by simp [Operation.operands])
      exact (forms_join bound hclosed ha hb).single
  | joinAll types => exact (mayForm_joinAll bound hclosed hoperands).atMost
  | variants ty =>
      have hty := hoperands ty List.mem_cons_self
      refine .pure fun variant hvariant => ?_
      obtain ⟨id, hid, rfl⟩ := List.mem_map.mp hvariant
      exact holds_plain (hty.lt hid)
  | narrow ty kind =>
      exact (forms_narrow bound hclosed (hoperands ty List.mem_cons_self) kind).single
  | read ty key => exact (mayForm_member? bound hclosed ty key).atMost
  | members ty =>
      refine leads_of_ensures (.ofTypes_bind ((ensures_members hclosed ty).bind
        fun members next _ hmembers => .pure ?_))
      rw [List.forall_mem_map]
      exact hmembers
  | lacks ty key => exact .nothing ((steady_lacks ty key).mono Steady.closes)
  | compare target source =>
      exact .nothing ((follows_assignableWithin store steady_declaredMember _ target source).mono
        Steady.closes)
  | write ty key value =>
      exact .nothing (closes_trySet hclosed ty key
        (hoperands value (by simp [Operation.operands])))
  | declare ty name member =>
      cases ty with
      | union variants => exact .pure nofun
      | plain id =>
          have hmember := hoperands member (by simp [Operation.operands])
          exact .nothing (closes_setMember hclosed id name hmember)

theorem closed_of_obtained {allowed : TypeStore → Operation → Prop} {types : List Ty}
    (h : Obtained allowed store types) : store.Closed ∧ ∀ ty ∈ types, store.Holds ty :=
  h.sustained Closed Holds closed_empty
    (fun hclosed hcloses => ⟨(hcloses hclosed).1, hcloses.holds hclosed⟩)
    fun bound hclosed hoperands _ => closes_run bound hclosed hoperands

/-! ## Upper bounds -/

/-- The stores that comparing types leads to. -/
def Compared : TypeStore → TypeStore → Prop :=
  Relation.ReflTransGen fun before after =>
    ∃ target source, after = (assignable target source before).2

theorem steady_compared (h : Compared store next) : Steady store next := by
  induction h with
  | refl => exact refl_of Steady store
  | tail _ hstep ih =>
      obtain ⟨target, source, rfl⟩ := hstep
      exact trans_of Steady ih (follows_assignableWithin _ steady_declaredMember _ target source)

/-- Both parts of a join are assignable to it, and so is whatever is assignable to its first part,
in whatever order they are compared.  Every store that is obtained is closed. -/
theorem join_upperBound {bound : Nat} {a b joined : Ty} (hclosed : store.Closed)
    (ha : store.Holds a) (hb : store.Holds b)
    (hjoin : join bound a b store = some (joined, next)) :
    next.Closed ∧ next.Holds joined ∧ ∀ last, Compared next last →
      (assignable joined a last).1 = true ∧ (assignable joined b last).1 = true ∧
        ∀ ty, last.Holds ty → (assignable a ty last).1 = true →
          (assignable joined ty last).1 = true := by
  obtain ⟨hsteady, hjoins⟩ := ensures_join bound hclosed ha hb joined next hjoin
  have hnext := (hsteady hclosed).1
  refine ⟨hnext, hjoins.holds, fun last hcompared => ?_⟩
  have hlast := steady_compared hcompared
  have hall := trans_of Steady hsteady hlast
  have hclosed' := (hlast hnext).1
  have ha' := hall.holds hclosed ha
  have hb' := hall.holds hclosed hb
  have hjoined := hlast.holds hnext hjoins.holds
  have hextends := hjoins.left.of_steady hlast hnext hjoins.holds (hsteady.holds hclosed ha)
  refine ⟨?_, ?_, fun ty hty hassignable => ?_⟩
  · exact (assignable_iff hclosed' hjoined ha').mpr ((accepts_refl _ a).of_extends hextends)
  · exact (assignable_iff hclosed' hjoined hb').mpr
      (hjoins.right.of_steady hlast hnext hjoins.holds (hsteady.holds hclosed hb))
  · exact (assignable_iff hclosed' hjoined hty).mpr
      (((assignable_iff hclosed' ha' hty).mp hassignable).of_extends hextends)

/-- Two objects that contain themselves and a known member that differs. -/
def rings : TypeM (Ty × Ty) := do
  let on ← ofValue (.bool true)
  let off ← ofValue (.bool false)
  let first ← object [("x", on)]
  let second ← object [("x", off)]
  setMember 2 "self" first
  setMember 3 "self" second
  return (first, second)

theorem obtained_rings : Obtained (fun _ _ => True) (rings {}).2
    [plain 0, plain 1, plain 2, plain 3] := by
  have hon : Obtained (fun _ _ => True) _ _ := .step .start (.known (.bool true)) 0 nofun
    trivial rfl
  have hoff := hon.step (.known (.bool false)) 0 nofun trivial rfl
  have hfirst := hoff.step (.object [("x", plain 0)]) 0 (by decide) trivial rfl
  have hsecond := hfirst.step (.object [("x", plain 1)]) 0 (by decide) trivial rfl
  have hring := hsecond.step (.declare (plain 2) "self" (plain 2)) 0 (by decide) trivial rfl
  exact hring.step (.declare (plain 3) "self" (plain 3)) 0 (by decide) trivial rfl

/-- The merge of the two goes round until it is as deep as types are compared. -/
theorem join_upperBound_rings : ∃ next,
    join 34 (plain 2) (plain 3) (rings {}).2 = some (plain 70, next) ∧
      (assignable (plain 70) (plain 2) next).1 = true ∧
      (assignable (plain 70) (plain 3) next).1 = true ∧
      ∀ ty, next.Holds ty → (assignable (plain 2) ty next).1 = true →
        (assignable (plain 70) ty next).1 = true := by
  have hjoin : (join 34 (plain 2) (plain 3) (rings {}).2).map Prod.fst = some (plain 70) := by
    decide +kernel
  obtain ⟨⟨joined, next⟩, hrun, hjoined⟩ := Option.map_eq_some_iff.mp hjoin
  cases hjoined
  obtain ⟨hclosed, hholds⟩ := closed_of_obtained obtained_rings
  obtain ⟨-, -, hbound⟩ := join_upperBound hclosed (hholds (plain 2) (by decide))
    (hholds (plain 3) (by decide)) hrun
  exact ⟨next, hrun, hbound next .refl⟩

end Ty

end ScriptCheck
