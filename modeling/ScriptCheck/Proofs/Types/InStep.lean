import ScriptCheck.Proofs.Types.Closed
import ScriptCheck.Proofs.Types.Compute
import ScriptCheck.Proofs.Types.Known

/-!
# Constants in step with members

The constant of a known object is kept beside its declared members.  Making, joining and reading
types keeps the two in step, and so does writing a member of the object itself.  A write to a
member is not seen by the objects that have it: their constants still have what it was.  Hence
whatever a constant has under a name is what is read there, but for members that were written to.
-/

namespace ScriptCheck

open TypeStore

def Shape.Pairs (shape : Shape) (member : Ty) (value : Value) : Prop :=
  ∃ name tag contents, shape.constant = some (.object tag contents) ∧
    Record.get? name shape.members = some member ∧ Record.get? name contents = some value

theorem Shape.not_pairs_of_general {shape : Shape} (h : shape.constant = none) {member : Ty}
    {value : Value} : ¬ shape.Pairs member value := by
  rintro ⟨name, tag, contents, hconstant, -⟩
  rw [h] at hconstant
  cases hconstant

theorem Shape.not_pairs_of_bare {shape : Shape} (h : shape.members = []) {member : Ty}
    {value : Value} : ¬ shape.Pairs member value := by
  rintro ⟨name, tag, contents, -, hmember, -⟩
  rw [h] at hmember
  cases hmember

namespace TypeStore

/-- The constant of a type is a value, up to identities. -/
def Tells (store : TypeStore) (ty : Ty) (value : Value) : Prop :=
  ∃ constant, (ty.constant? store).1 = some constant ∧ constant.untagged = value.untagged

/-- The constant of a type is a value, unless the type is one of those written to. -/
def TellsUnless (written : TypeId → Prop) (store : TypeStore) (ty : Ty) (value : Value) : Prop :=
  store.Tells ty value ∨ ∃ id, ty = .plain id ∧ written id

/-- What known objects have declared is what their constants have, unless it was written to. -/
def InStep (written : TypeId → Prop) (store : TypeStore) : Prop :=
  ∀ (id : Nat) (member : Ty) (value : Value), (store.shape id).Pairs member value →
    store.TellsUnless written member value

/-- A known object has a plain type declared under a name for which it has a value. -/
def IsPart (store : TypeStore) (part : TypeId) : Prop :=
  ∃ id value, (store.shape id).Pairs (.plain part) value

/-- A type that a member is written to is no part of a known object and is not put into itself,
unless it is one of those written to. -/
def Spares (written : TypeId → Prop) (store : TypeStore) (id : TypeId) (member : Ty) : Prop :=
  store.IsPart id ∨ member = .plain id → written id

structure Withstands (written : TypeId → Prop) (ty member : Ty) (store : TypeStore) : Prop where
  inStep : store.InStep written
  spares : ∀ id ∈ ty.variants, (store.shape id).mutable = true → store.Spares written id member

/-- A type pinned to a value agrees with it on what is declared. -/
def Suits (written : TypeId → Prop) (store : TypeStore) (id : TypeId) (constant : Value) : Prop :=
  ∀ member value, Shape.Pairs { store.shape id with constant := some constant } member value →
    store.TellsUnless written member value

/-- Whatever holds of the one store holds of the other. -/
def Maintains (P : TypeStore → Prop) (before after : TypeStore) : Prop := P before → P after

instance {P : TypeStore → Prop} : IsPreorder TypeStore (Maintains P) where
  refl _ h := h
  trans _ _ _ hfirst hnext h := hnext (hfirst h)

variable {written : TypeId → Prop} {store next : TypeStore} {ty member : Ty} {value : Value}

theorem Tells.of_later (h : store.Tells ty value) (hlater : Later store next) :
    next.Tells ty value := by
  obtain ⟨constant, hconstant, halike⟩ := h
  cases ty with
  | union variants => cases hconstant
  | plain id =>
      change (store.shape id).constant = some constant at hconstant
      have hid : id < store.shapes.size := by
        by_contra hge
        rw [shape_of_size_le (Nat.le_of_not_lt hge)] at hconstant
        cases hconstant
      exact ⟨constant, (hlater.constant hid).trans hconstant, halike⟩

theorem TellsUnless.of_later (h : store.TellsUnless written ty value) (hlater : Later store next) :
    next.TellsUnless written ty value :=
  h.imp_left fun htells => htells.of_later hlater

theorem Mirrors.tells (h : store.Mirrors ty value) : store.Tells ty value := by
  obtain ⟨id, rfl, hreflects⟩ := h.exists_reflects
  exact hreflects.constant

/-! ## Computing keeps constants in step -/

theorem InStep.add (h : store.InStep written) {shape : Shape}
    (hshape : ∀ {member : Ty} {value : Value}, shape.Pairs member value →
      store.TellsUnless written member value) : (store.add shape).InStep written := by
  intro id member value hpairs
  have hlater := Later.add store shape
  rcases shape_add_cases store shape id with hold | hnew
  · rw [hold] at hpairs
    exact (h id member value hpairs).of_later hlater
  · rw [hnew] at hpairs
    exact (hshape hpairs).of_later hlater

theorem InStep.of_make (h : store.InStep written) (hmake : Make store next) :
    next.InStep written := by
  have hlater := (Look.make hmake).later
  cases hmake with
  | tag => exact fun id member value hpairs => (h id member value hpairs).of_later hlater
  | bare _ hmembers => exact h.add fun hpairs => absurd hpairs (Shape.not_pairs_of_bare hmembers)
  | widened => exact h.add fun hpairs => absurd hpairs (Shape.not_pairs_of_general rfl)

/-- A member that is declared when it is asked for is made for its value. -/
theorem InStep.of_look (h : store.InStep written) (hlook : Look store next) :
    next.InStep written := by
  have hlater := hlook.later
  cases hlook with
  | make hmake => exact h.of_make hmake
  | @declare id name declared known hslot hrecord hmirrors =>
      rintro other member value ⟨key, tag, contents, hconstant, hmember, hvalue⟩
      have hid := lt_of_slot? hslot
      rw [constant_declare hid] at hconstant
      rcases get?_declare hid hmember with hold | ⟨rfl, rfl, rfl⟩
      · exact (h other _ _ ⟨key, tag, contents, hconstant, hold, hvalue⟩).of_later hlater
      · have hknown := (Shape.slot?_eq_known_iff.mp hslot).2
        rw [Shape.value?, if_pos (Shape.hasMembers_of_known hslot), hconstant] at hknown
        have hsame : Record.get? key contents = some known := hknown
        rw [hvalue] at hsame
        cases hsame
        exact .inl (hmirrors.tells.of_later hlater)

theorem InStep.of_compute (h : store.InStep written) (hcompute : Compute store next) :
    next.InStep written := by
  cases hcompute with
  | look hlook => exact h.of_look hlook
  | general _ hconstant =>
      exact h.add fun hpairs => absurd hpairs (Shape.not_pairs_of_general hconstant)

theorem Computes.inStep (h : Computes store next) : Maintains (InStep written) store next := by
  intro hstep
  induction h with
  | refl => exact hstep
  | tail _ hcompute ih => exact ih.of_compute hcompute

/-! ## Writes -/

/-- A store after a write of a member to one of its types.  What known objects have declared is
as it was, but for the member and its value, and the other types have the constants they had. -/
structure Wrote (store : TypeStore) (id : TypeId) (member : Ty) (next : TypeStore) : Prop where
  mutable : ∀ other : Nat, (next.shape other).mutable = (store.shape other).mutable
  constant : ∀ {other : Nat}, other ≠ id →
    (next.shape other).constant = (store.shape other).constant
  pairs : ∀ {other : Nat} {found : Ty} {value : Value}, (next.shape other).Pairs found value →
    (store.shape other).Pairs found value ∨ found = member ∧ store.Tells member value

namespace Wrote

variable {id other : Nat}

/-- What types other than the one written to have for their constants stays. -/
theorem tellsUnless (h : store.Wrote id member next) (hty : ty = .plain id → written id)
    (htells : store.TellsUnless written ty value) : next.TellsUnless written ty value := by
  rcases htells with htells | hwritten
  · by_cases heq : ty = .plain id
    · exact .inr ⟨id, heq, hty heq⟩
    obtain ⟨constant, hconstant, halike⟩ := htells
    refine .inl ⟨constant, ?_, halike⟩
    cases ty with
    | union variants => cases hconstant
    | plain inner =>
        have hne : inner ≠ id := fun hsame => heq (by rw [hsame])
        exact (h.constant hne).trans hconstant
  · exact .inr hwritten

theorem inStep (h : store.Wrote id member next) (hstep : store.InStep written)
    (hspares : store.Spares written id member) : next.InStep written := by
  intro other found value hpairs
  rcases h.pairs hpairs with hold | ⟨rfl, htells⟩
  · refine h.tellsUnless (fun hfound => hspares (.inl ⟨other, value, ?_⟩))
      (hstep other found value hold)
    rwa [← hfound]
  · exact h.tellsUnless (fun hfound => hspares (.inr hfound)) (.inl htells)

theorem spares (h : store.Wrote id member next) (hspares : store.Spares written other member) :
    next.Spares written other member := by
  rintro (⟨whole, value, hpairs⟩ | hsame)
  · rcases h.pairs hpairs with hold | ⟨hsame, -⟩
    · exact hspares (.inl ⟨whole, value, hold⟩)
    · exact hspares (.inr hsame.symm)
  · exact hspares (.inr hsame)

end Wrote

end TypeStore

namespace Ty

open TypeM (Follows)
open JoinM (ofTypes)

variable {written : TypeId → Prop} {store : TypeStore} {id : Nat}

theorem wrote_forget (store : TypeStore) (id : Nat) (member : Ty) :
    store.Wrote id member (store.forget id) := by
  refine ⟨fun other => ?_, fun hne => ?_, fun {other found value} hpairs => ?_⟩
  · rcases shape_modify_cases store id (fun shape => { shape with constant := none }) other with
      hold | ⟨rfl, hnew⟩
    · rw [forget, hold]
    · rw [forget, hnew]
  · rw [forget, shape_modify_of_ne hne]
  · rcases shape_modify_cases store id (fun shape => { shape with constant := none }) other with
      hold | ⟨rfl, hnew⟩
    · rw [forget, hold] at hpairs
      exact .inl hpairs
    · rw [forget, hnew] at hpairs
      exact absurd hpairs (Shape.not_pairs_of_general rfl)

def setShape (name : String) (member : Ty) (value : Option Value) (tag : Nat) (shape : Shape) :
    Shape :=
  let constant := match shape.constant, value with
    | some (.object _ members), some value =>
        some (.object tag (Record.insert name value members))
    | _, _ => none
  { shape with constant, members := Record.insert name member shape.members }

theorem setMember_apply (store : TypeStore) (id : TypeId) (name : String) (member : Ty) :
    setMember id name member store = ((), { store with nextTag := store.nextTag + 1 }.modify id
      (setShape name member (member.constant? store).1 store.nextTag)) := by
  cases member <;> rfl

/-- A constant that is left by setting a member has the value of the member and what it had. -/
theorem pairs_setShape {shape : Shape} {name : String} {member found : Ty} {known : Option Value}
    {value : Value} {tag : Nat} (h : (setShape name member known tag shape).Pairs found value) :
    shape.Pairs found value ∨ found = member ∧ known = some value := by
  obtain ⟨key, own, contents, hconstant, hmember, hvalue⟩ := h
  change Record.get? key (Record.insert name member shape.members) = some found at hmember
  simp only [setShape] at hconstant
  split at hconstant
  · rename_i _ _ old members inner hold
    cases hconstant
    by_cases hkey : key = name
    · subst hkey
      rw [Record.get?_insert_self] at hmember hvalue
      exact .inr ⟨(Option.some.inj hmember).symm, hvalue⟩
    · rw [Record.get?_insert_of_ne hkey] at hmember hvalue
      exact .inl ⟨key, old, members, hold, hmember, hvalue⟩
  · cases hconstant

theorem wrote_setMember (store : TypeStore) (id : Nat) (name : String) (member : Ty) :
    store.Wrote id member (setMember id name member store).2 := by
  rw [setMember_apply]
  let tagged : TypeStore := { store with nextTag := store.nextTag + 1 }
  let set := setShape name member (member.constant? store).1 store.nextTag
  change store.Wrote id member (tagged.modify id set)
  refine ⟨fun other => ?_, fun hne => ?_, fun {other found value} hpairs => ?_⟩
  · rcases shape_modify_cases tagged id set other with hold | ⟨rfl, hnew⟩
    · rw [hold]
      rfl
    · rw [hnew]
      rfl
  · rw [shape_modify_of_ne hne]
    rfl
  · rcases shape_modify_cases tagged id set other with hold | ⟨rfl, hnew⟩
    · rw [hold] at hpairs
      exact .inl hpairs
    · rw [hnew] at hpairs
      exact (pairs_setShape hpairs).imp_right fun ⟨hsame, hknown⟩ => ⟨hsame, value, hknown, rfl⟩

theorem maintains_setPlain {ty : Ty} (hid : id ∈ ty.variants) (key value : Ty) :
    Follows (Maintains (Withstands written ty value)) store (setPlain id key value) := by
  have hwrote : ∀ {next : TypeStore}, (store.shape id).mutable = true →
      store.Wrote id value next → Maintains (Withstands written ty value) store next := by
    intro next hmutable hwrote h
    refine ⟨hwrote.inStep h.inStep (h.spares id hid hmutable), fun other hother hmutable' => ?_⟩
    rw [hwrote.mutable] at hmutable'
    exact hwrote.spares (h.spares other hother hmutable')
  exact follows_setPlain
    (fun _ hmutable name => hwrote hmutable (wrote_setMember store id name value))
    fun _ hmutable => hwrote hmutable (wrote_forget store id value)

theorem maintains_trySet (ty key value : Ty) :
    Follows (Maintains (Withstands written ty value)) store (ty.trySet key value) := by
  have hleads : (ty.trySet key value).Leads (Maintains (Withstands written ty value)) store
      fun _ _ => True := by
    refine .foldlM trivial fun ok id hid next _ _ => ?_
    exact .of_follows ((maintains_setPlain hid key value).bind fun _ _ _ => .pure _)
  exact hleads.follows

/-! ## Objects and copies -/

theorem constant_of_memberConstants {members : List (String × Ty)} {values : List (String × Value)}
    (h : (memberConstants members store).1 = some values) {name : String} {member : Ty}
    {value : Value} (hmember : Record.get? name members = some member)
    (hvalue : Record.get? name values = some value) : (member.constant? store).1 = some value := by
  induction members generalizing values with
  | nil => cases hmember
  | cons head rest ih =>
      obtain ⟨key, first⟩ := head
      have hsame : (first.constant? store).2 = store :=
        (follows_constant? (R := Eq) store first).symm
      rw [memberConstants, TypeM.bind_apply, hsame, TypeM.bind_apply] at h
      cases hfirst : (first.constant? store).1 with
      | none =>
          rw [hfirst] at h
          cases h
      | some known =>
          cases hothers : (memberConstants rest store).1 with
          | none =>
              rw [hfirst, hothers] at h
              cases h
          | some others =>
              rw [hfirst, hothers] at h
              cases h
              rw [Record.get?] at hmember hvalue
              by_cases hname : key = name
              · rw [if_pos hname] at hmember hvalue
                cases hmember
                cases hvalue
                exact hfirst
              · rw [if_neg hname] at hmember hvalue
                exact ih hothers hmember hvalue

theorem maintains_new {shape : Shape} (hshape : ∀ {member : Ty} {value : Value},
    shape.Pairs member value → store.TellsUnless written member value) :
    Follows (Maintains (InStep written)) store (new shape) :=
  fun hstep => hstep.add hshape

theorem maintains_object (members : List (String × Ty)) :
    Follows (Maintains (InStep written)) store (object members) := by
  have htag : Follows (Maintains (InStep written)) store freshTag :=
    (computes_of_makes (makes_freshTag store)).inStep
  apply htag.bind
  intro tag next _
  have hsame : (memberConstants members next).2 = next :=
    (follows_memberConstants (R := Eq) next members).symm
  apply Follows.look_bind hsame
  refine maintains_new fun {member value} hpairs => ?_
  obtain ⟨name, own, contents, hconstant, hmember, hvalue⟩ := hpairs
  obtain ⟨values, hvalues, hobject⟩ := Option.map_eq_some_iff.mp hconstant
  cases hobject
  exact .inl ⟨value, constant_of_memberConstants hvalues hmember hvalue, rfl⟩

theorem maintains_function (callable : Callable) :
    Follows (Maintains (InStep written)) store (function callable) := by
  apply (maintains_object []).bind
  intro prototype next _
  exact maintains_new fun hpairs => absurd hpairs (Shape.not_pairs_of_general rfl)

theorem maintains_toConstant {ty : Ty} {constant : Value}
    (h : ∀ id, ty = plain id → store.Suits written id constant) :
    Follows (Maintains (InStep written)) store (ty.toConstant constant) := by
  have hvalue : Follows (Maintains (InStep written)) store (ofValue constant) :=
    (computes_ofValue store constant).inStep
  cases ty with
  | union variants => exact hvalue
  | plain id =>
      apply Follows.shapeOf_bind
      split
      · exact maintains_new fun hpairs => h id rfl _ _ hpairs
      · exact hvalue

/-! ## Operations -/

theorem maintains_of_computes {α : Type} {computation : JoinM α}
    (h : computation.Follows Computes store) :
    computation.Follows (Maintains (InStep written)) store :=
  fun result next hrun => (h result next hrun).inStep

end Ty

/-- An operation writes to no part of a known object and puts no type into itself, but where the
type counts as written to, and pins no type to a value that disagrees with what it declares. -/
def Operation.Sparing (written : TypeId → Prop) (store : TypeStore) : Operation → Prop
  | .pin ty value => ∀ id, ty = .plain id → store.Suits written id value
  | .write ty _ value =>
      ∀ id ∈ ty.variants, (store.shape id).mutable = true → store.Spares written id value
  | .declare ty _ member => ∀ id, ty = .plain id → store.Spares written id member
  | _ => True

namespace Ty

open JoinM (ofTypes)

variable {written : TypeId → Prop} {store : TypeStore}

theorem maintains_run (bound : Nat) {operation : Operation}
    (hsparing : operation.Sparing written store) :
    (operation.run bound).Follows (Maintains (InStep written)) store := by
  have hcomputes : ∀ {α β : Type} {computation : TypeM α} {f : α → β},
      computation.Follows Computes store → (ofTypes (do return f (← computation))).Follows
        (Maintains (InStep written)) store :=
    fun h => .ofTypes (h.bind fun _ _ _ => .pure _).inStep
  have hjoins : ∀ {α β : Type} {computation : JoinM α} {f : α → β},
      computation.Follows Computes store → (do return f (← computation) : JoinM β).Follows
        (Maintains (InStep written)) store :=
    fun h => (maintains_of_computes h).bind fun _ _ _ => .pure _
  cases operation with
  | general kind => exact hcomputes (computes_ofKind store kind)
  | known value => exact hcomputes (computes_ofValue store value)
  | object members => exact .ofTypes (maintains_object members)
  | array elements => exact hjoins (computes_array store bound elements)
  | function callable => exact .ofTypes (maintains_function callable)
  | pin ty value => exact .ofTypes (maintains_toConstant hsparing)
  | widen ty => exact hjoins (computes_widen store bound ty)
  | join a b => exact hjoins (computes_join store bound a b)
  | joinAll types => exact hjoins (computes_joinAll store bound types)
  | variants ty => exact .pure _
  | narrow ty kind => exact hjoins (computes_narrow store bound ty kind)
  | read ty key => exact hjoins (computes_member? store bound ty key)
  | members ty => exact hcomputes (computes_members store ty)
  | lacks ty key => exact hcomputes (computes_lacks store ty key)
  | compare target source =>
      exact hcomputes (follows_assignableWithin store computes_declaredMember _ target source)
  | write ty key value =>
      exact .ofTypes fun hstep => (maintains_trySet ty key value ⟨hstep, hsparing⟩).inStep
  | declare ty name member =>
      cases ty with
      | union variants => exact .pure _
      | plain id =>
          exact .ofTypes fun hstep =>
            (wrote_setMember store id name member).inStep hstep (hsparing id rfl)

theorem inStep_of_obtained {types : List Ty}
    (h : Obtained (Operation.Sparing written) store types) :
    store.InStep written := by
  induction h with
  | start =>
      intro id member value hpairs
      rw [shape_of_size_le (Nat.zero_le _)] at hpairs
      exact absurd hpairs (Shape.not_pairs_of_general rfl)
  | @step store next types made h operation bound _ hallowed hrun ih =>
      exact maintains_run bound hallowed made next hrun ih

/-! ## Reading -/

theorem declaredMember_of_inStep (hclosed : store.Closed) (hstep : store.InStep written) {id : Nat}
    {tag : Nat} {contents : List (String × Value)}
    (hconstant : (store.shape id).constant = some (.object tag contents)) {name : String}
    {value : Value} (hvalue : Record.get? name contents = some value) :
    ∃ member next, declaredMember id name store = (some member, next) ∧
      next.TellsUnless written member value := by
  have hrecord : (store.shape id).isRecord = true :=
    Shape.isRecord_iff.mpr ⟨tag, contents, hconstant⟩
  have hhas := (hclosed id).record hrecord
  have hknown : (store.shape id).value? name = some value := by
    rw [Shape.value?, if_pos hhas, hconstant]
    exact hvalue
  cases hmember : Record.get? name (store.shape id).members with
  | some member =>
      have hslot := Shape.slot?_eq_declared_iff.mpr hmember
      refine ⟨member, store, declaredMember_of_declared hslot, ?_⟩
      exact hstep id member value ⟨name, tag, contents, hconstant, hmember, hvalue⟩
  | none =>
      have hslot := Shape.slot?_eq_known_iff.mpr ⟨hmember, hknown⟩
      refine ⟨_, _, declaredMember_of_record hslot hrecord, .inl ?_⟩
      have hshape := (makes_ofValue store value).shape_eq (lt_of_slot? hslot)
      have hmirrors := mirrors_ofValue store value
      exact hmirrors.tells.of_later
        (.declare (by rw [hshape, hslot]) (by rw [hshape, hrecord]) hmirrors)

/-- After whatever is done with types, what is read of a type whose constant is an object, under a
name that this has a value for, has that value for its constant, unless it was itself written to
when it was part of a known object. -/
theorem constants_inStep_of_obtained {types : List Ty}
    (h : Obtained (Operation.Sparing written) store types) {id tag : Nat}
    {contents : List (String × Value)}
    (hconstant : (store.shape id).constant = some (.object tag contents)) {name : String}
    {value : Value} (hvalue : Record.get? name contents = some value) {key : Ty}
    (hkey : (key.keyName? store).1 = some name) (bound : Nat) :
    ∃ member next, member? bound (plain id) key store = some (some member, next) ∧
      ((∃ constant, (member.constant? next).1 = some constant ∧
        constant.untagged = value.untagged) ∨ ∃ part, member = plain part ∧ written part) := by
  obtain ⟨hclosed, -⟩ := closed_of_obtained h
  obtain ⟨member, next, hmember, htells⟩ :=
    declaredMember_of_inStep hclosed (inStep_of_obtained h) hconstant hvalue
  refine ⟨member, next, ?_, htells⟩
  have hhas := (hclosed id).record (Shape.isRecord_iff.mpr ⟨tag, contents, hconstant⟩)
  have hknown : (store.shape id).kind ≠ .unknown := by
    intro hunknown
    rw [hunknown] at hhas
    cases hhas
  have hkeyed : key.keyName? store = (some name, store) := Prod.ext hkey (keyName?_same key store)
  have hnamed : namedMember id name store = (some member, next) := by
    rw [namedMember, TypeM.bind_apply, ownMember_of_some (congrArg Prod.fst hmember), hmember]
    rfl
  have hplain : plainMember id key store = (some member, next) := by
    rw [plainMember, shapeOf_bind, if_neg hknown, TypeM.bind_apply, hkeyed]
    change (namedMember id name >>= _) store = _
    rw [TypeM.bind_apply, hnamed]
    rfl
  exact congrArg some hplain

/-! ## A write that is not seen -/

/-- An object inside another, after a write to the inner one. -/
def aliasedStore : TypeStore where
  shapes := #[
    { kind := .boolean, constant := some (.bool true) },
    { kind := .object, mutable := true, indexer := some ⟨.string, none⟩,
      members := [("c", plain 5)], constant := some (.object 2 [("c", .bool false)]) },
    { kind := .object, mutable := true, indexer := some ⟨.string, none⟩,
      members := [("a", plain 1), ("c", plain 0)],
      constant := some (.object 1 [("a", .object 0 [("c", .bool true)]), ("c", .bool true)]) },
    { kind := .string, lenient := true },
    { kind := .string, lenient := true, indexer := some ⟨.number, some (plain 3)⟩,
      constant := some (.string "c") },
    { kind := .boolean, constant := some (.bool false) },
    { kind := .string, lenient := true },
    { kind := .string, lenient := true, indexer := some ⟨.number, some (plain 6)⟩,
      constant := some (.string "a") }]
  nextTag := 3

theorem obtained_aliasedStore : Obtained (Operation.Sparing (· = 1)) aliasedStore
    [plain 0, plain 1, plain 2, plain 4, plain 5, plain 7] := by
  have htrue : Obtained (Operation.Sparing (· = 1)) _ _ :=
    .step .start (.known (.bool true)) 0 nofun trivial rfl
  have hinner := htrue.step (.object [("c", plain 0)]) 0 (by decide) trivial rfl
  have houter := hinner.step (.object [("a", plain 1), ("c", plain 0)]) 0 (by decide) trivial rfl
  have hkey := houter.step (.known (.string "c")) 0 nofun trivial rfl
  have hfalse := hkey.step (.known (.bool false)) 0 nofun trivial rfl
  have hwritten := hfalse.step (.write (plain 1) (plain 4) (plain 5)) 0 (by decide)
    (fun _ hid _ _ => List.mem_singleton.mp hid) rfl
  exact hwritten.step (.known (.string "a")) 0 nofun trivial rfl

/-- The member of the outer object that was not written to is in step. -/
theorem constants_inStep_aliasedStore :
    Obtained (Operation.Sparing (· = 1)) aliasedStore
      [plain 0, plain 1, plain 2, plain 4, plain 5, plain 7] ∧
    (aliasedStore.shape 2).constant =
      some (.object 1 [("a", .object 0 [("c", .bool true)]), ("c", .bool true)]) ∧
    ∃ member next, member? 0 (plain 2) (plain 4) aliasedStore = some (some member, next) ∧
      ((∃ constant, (member.constant? next).1 = some constant ∧
        constant.untagged = (Value.bool true).untagged) ∨ ∃ part, member = plain part ∧ part = 1) :=
  ⟨obtained_aliasedStore, rfl,
    constants_inStep_of_obtained obtained_aliasedStore
      (show (aliasedStore.shape 2).constant = _ from rfl)
      (show Record.get? "c" _ = _ from rfl)
        (show ((plain 4).keyName? aliasedStore).1 = _ from rfl) 0⟩

/-- What is read of the outer object under the name of the inner one is no longer what the constant
of the outer object has there. -/
theorem stale_aliasedStore :
    Obtained (fun _ _ => True) aliasedStore
      [plain 0, plain 1, plain 2, plain 4, plain 5, plain 7] ∧
    (aliasedStore.shape 2).constant =
      some (.object 1 [("a", .object 0 [("c", .bool true)]), ("c", .bool true)]) ∧
    ((plain 7).keyName? aliasedStore).1 = some "a" ∧
    member? 0 (plain 2) (plain 7) aliasedStore = some (some (plain 1), aliasedStore) ∧
    ((plain 1).constant? aliasedStore).1 = some (.object 2 [("c", .bool false)]) ∧
    ¬ aliasedStore.Tells (plain 1) (.object 0 [("c", .bool true)]) := by
  refine ⟨obtained_aliasedStore.mono fun _ => trivial, rfl, rfl, rfl, rfl, ?_⟩
  rintro ⟨constant, hconstant, halike⟩
  cases hconstant
  cases halike

end Ty

end ScriptCheck
