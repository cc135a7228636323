import ScriptCheck.Proofs.Types.Lead

/-!
# Operations on types

What can be done with types, one step after another from the empty store on: types are made for
kinds and values, put together, copied, joined, taken apart, narrowed, read, compared and written
to.  Each step works on types that earlier steps gave.
-/

namespace ScriptCheck

/-- Something that can be done with types. -/
inductive Operation where
  /-- The general type of a kind. -/
  | general (kind : Kind)
  /-- The type of a known value. -/
  | known (value : Value)
  | object (members : List (String × Ty))
  | array (elements : List Ty)
  | function (callable : Callable)
  /-- A copy of a type, pinned to a value. -/
  | pin (ty : Ty) (value : Value)
  | widen (ty : Ty)
  | join (a b : Ty)
  | joinAll (types : List Ty)
  /-- The plain types that a type is a choice between. -/
  | variants (ty : Ty)
  | narrow (ty : Ty) (kind : Kind)
  /-- The member of a type under a key. -/
  | read (ty key : Ty)
  /-- All declared members of a type. -/
  | members (ty : Ty)
  /-- Whether reading a member is a mistake. -/
  | lacks (ty key : Ty)
  | compare (target source : Ty)
  /-- A write that the type may refuse. -/
  | write (ty key value : Ty)
  /-- The declaration of a member, of whatever plain type. -/
  | declare (ty : Ty) (name : String) (member : Ty)

namespace Operation

open JoinM (ofTypes)
open Ty

def operands : Operation → List Ty
  | general _ | known _ | function _ => []
  | object fields => fields.map Prod.snd
  | array elements => elements
  | joinAll types => types
  | pin ty _ | widen ty | variants ty | narrow ty _ | members ty => [ty]
  | join a b | read a b | lacks a b | compare a b | declare a _ b => [a, b]
  | write ty key value => [ty, key, value]

/-- Does an operation, and gives the types that come of it. -/
def run (bound : Nat) : Operation → JoinM (List Ty)
  | general kind => ofTypes do return [← ofKind kind]
  | known value => ofTypes do return [← ofValue value]
  | object fields => ofTypes do return [← Ty.object fields]
  | array elements => do return [← Ty.array bound elements]
  | function callable => ofTypes do return [← Ty.function callable]
  | pin ty value => ofTypes do return [← toConstant ty value]
  | widen ty => do return [← Ty.widen bound ty]
  | join a b => do return [← Ty.join bound a b]
  | joinAll types => do return (← Ty.joinAll bound types).toList
  | variants ty => return ty.variants.map plain
  | narrow ty kind => do return [← Ty.narrow bound ty kind]
  | read ty key => do return (← member? bound ty key).toList
  | members ty => ofTypes do return (← Ty.members ty).map Prod.snd
  | lacks ty key => ofTypes do
    let _ ← Ty.lacks ty key
    return []
  | compare target source => ofTypes do
    let _ ← assignable target source
    return []
  | write ty key value => ofTypes do
    let _ ← trySet ty key value
    return []
  | declare (plain id) name member => ofTypes do
    setMember id name member
    return []
  | declare (union _) _ _ => return []

end Operation

/-- Some types are obtained from the empty store by operations, each on types obtained before
and allowed where it is done. -/
inductive Obtained (allowed : TypeStore → Operation → Prop) : TypeStore → List Ty → Prop where
  | start : Obtained allowed {} []
  | step {store next : TypeStore} {types made : List Ty} (h : Obtained allowed store types)
      (operation : Operation) (bound : Nat) (hoperands : ∀ ty ∈ operation.operands, ty ∈ types)
      (hallowed : allowed store operation)
      (hrun : operation.run bound store = some (made, next)) :
      Obtained allowed next (types ++ made)

namespace JoinM.Leads

variable {α : Type} {R : TypeStore → TypeStore → Prop} {good : TypeStore → Ty → Prop}
  {store : TypeStore} [IsPreorder TypeStore R]

theorem single {computation : JoinM Ty}
    (h : computation.Leads R store fun ty next => good next ty) :
    (do return [← computation] : JoinM (List Ty)).Leads R store fun made next =>
      ∀ ty ∈ made, good next ty :=
  h.bind fun ty next _ hty => .pure fun other hother => by rwa [List.mem_singleton.mp hother]

theorem atMost {computation : JoinM (Option Ty)}
    (h : computation.Leads R store fun found next => ∀ ty, found = some ty → good next ty) :
    (do return (← computation).toList : JoinM (List Ty)).Leads R store fun made next =>
      ∀ ty ∈ made, good next ty :=
  h.bind fun _ _ _ hfound => .pure fun ty hty => hfound ty (Option.mem_toList.mp hty)

/-- A computation that is done for what it does to the store. -/
theorem nothing {computation : TypeM α} (h : computation.Follows R store) :
    (JoinM.ofTypes (do let _ ← computation; return [])).Leads R store fun made next =>
      ∀ ty ∈ made, good next ty :=
  .ofTypes ((TypeM.Leads.of_follows h).bind fun _ _ _ _ => .pure nofun)

end JoinM.Leads

namespace Obtained

variable {allowed : TypeStore → Operation → Prop} {store : TypeStore} {types : List Ty}

/-- What every operation keeps up, of the store and of the types it works on, holds of every store
that is obtained and of all types obtained. -/
theorem sustained {R : TypeStore → TypeStore → Prop} (sound : TypeStore → Prop)
    (good : TypeStore → Ty → Prop) (hempty : sound {})
    (hkeep : ∀ {store next : TypeStore}, sound store → R store next →
      sound next ∧ ∀ {ty}, good store ty → good next ty)
    (hrun : ∀ {store : TypeStore} {operation : Operation} (bound : Nat), sound store →
      (∀ ty ∈ operation.operands, good store ty) → allowed store operation →
      (operation.run bound).Leads R store fun made next => ∀ ty ∈ made, good next ty)
    (h : Obtained allowed store types) : sound store ∧ ∀ ty ∈ types, good store ty := by
  induction h with
  | start => exact ⟨hempty, nofun⟩
  | step _ operation bound hoperands hallowed hstep ih =>
      obtain ⟨hsound, hgood⟩ := ih
      obtain ⟨hnext, hmade⟩ :=
        hrun bound hsound (fun ty hty => hgood ty (hoperands ty hty)) hallowed _ _ hstep
      obtain ⟨hsound', hkept⟩ := hkeep hsound hnext
      refine ⟨hsound', fun ty hty => ?_⟩
      rcases List.mem_append.mp hty with hold | hnew
      · exact hkept (hgood ty hold)
      · exact hmade ty hnew

theorem mono {weaker : TypeStore → Operation → Prop} (h : Obtained allowed store types)
    (himp : ∀ {store operation}, allowed store operation → weaker store operation) :
    Obtained weaker store types := by
  induction h with
  | start => exact .start
  | step _ operation bound hoperands hallowed hrun ih =>
      exact ih.step operation bound hoperands (himp hallowed) hrun

end Obtained

end ScriptCheck
