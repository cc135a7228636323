import ScriptCheck.Types.Member

/-!
# What types have under a name

A plain type has under a name a declared type, or a value that is known and for which a
type is made when it is asked for, or nothing.  A type that is widened has only what is
declared.
-/

namespace ScriptCheck

theorem Kind.hasMembers_of_primitive {kind : Kind} (h : kind.isPrimitive = true) :
    Ty.hasMembers kind = false := by
  cases kind <;> simp_all [isPrimitive, Ty.hasMembers]

theorem Kind.hasMembers_of_not_primitive {kind : Kind} (h : kind.isPrimitive = false)
    (hknown : kind ≠ .unknown) : Ty.hasMembers kind = true := by
  cases kind <;> simp_all [isPrimitive, Ty.hasMembers]

/-- What a plain type has under a name. -/
inductive Slot where
  | declared (ty : Ty)
  | known (value : Value)

namespace Shape

def value? (shape : Shape) (name : String) : Option Value :=
  if Ty.hasMembers shape.kind then shape.constant.bind (·.get? name) else none

/-- What a shape has under a name, if anything. -/
def slot? (shape : Shape) (name : String) : Option Slot :=
  match Record.get? name shape.members, shape.value? name with
  | some member, _ => some (.declared member)
  | none, some value => some (.known value)
  | none, none => none

def isRecord (shape : Shape) : Bool :=
  match shape.constant with
  | some (.object _ _) => true
  | _ => false

variable {shape : Shape} {name : String}

theorem slot?_eq_declared_iff {member : Ty} :
    shape.slot? name = some (.declared member) ↔
      Record.get? name shape.members = some member := by
  unfold slot?
  split <;> simp_all

theorem slot?_eq_known_iff {value : Value} :
    shape.slot? name = some (.known value) ↔
      Record.get? name shape.members = none ∧ shape.value? name = some value := by
  unfold slot?
  split <;> simp_all

theorem slot?_eq_none_iff :
    shape.slot? name = none ↔
      Record.get? name shape.members = none ∧ shape.value? name = none := by
  unfold slot?
  split <;> simp_all

theorem hasMembers_of_known {value : Value} (h : shape.slot? name = some (.known value)) :
    Ty.hasMembers shape.kind = true := by
  have hvalue := (slot?_eq_known_iff.mp h).2
  unfold value? at hvalue
  split at hvalue
  · assumption
  · cases hvalue

end Shape

/-- The store with one more member declared. -/
def TypeStore.declare (store : TypeStore) (id : TypeId) (name : String) (member : Ty) :
    TypeStore :=
  store.modify id fun shape => { shape with members := Record.insert name member shape.members }

namespace Ty

open TypeStore

variable {store : TypeStore} {id : TypeId} {name : String}

/-- The computation after the shape of a type is read. -/
theorem shapeOf_bind {α : Type} (id : TypeId) (f : Shape → TypeM α) (store : TypeStore) :
    (shapeOf id >>= f) store = f (store.shape id) store :=
  rfl

theorem declaredMember_of_declared {member : Ty}
    (h : (store.shape id).slot? name = some (.declared member)) :
    declaredMember id name store = (some member, store) := by
  rw [declaredMember, shapeOf_bind, Shape.slot?_eq_declared_iff.mp h]
  rfl

theorem declaredMember_of_none (h : (store.shape id).slot? name = none) :
    declaredMember id name store = (none, store) := by
  obtain ⟨hmember, hvalue⟩ := Shape.slot?_eq_none_iff.mp h
  rw [declaredMember, shapeOf_bind, hmember]
  unfold Shape.value? at hvalue
  by_cases hhas : hasMembers (store.shape id).kind = true
  · rw [if_pos hhas] at hvalue
    simp only [hhas, hvalue]
    rcases (store.shape id).constant with _ | constant
    · rfl
    · cases constant <;> rfl
  · simp only [hhas]
    rfl

/-- The type of a known member stays with a known object. -/
theorem declaredMember_of_record {value : Value}
    (h : (store.shape id).slot? name = some (.known value))
    (hrecord : (store.shape id).isRecord = true) :
    declaredMember id name store = (some (ofValue value store).1,
      (ofValue value store).2.declare id name (ofValue value store).1) := by
  obtain ⟨hmember, hvalue⟩ := Shape.slot?_eq_known_iff.mp h
  have hhas := Shape.hasMembers_of_known h
  rw [declaredMember, shapeOf_bind, hmember]
  rw [Shape.value?, if_pos hhas] at hvalue
  simp only [hhas, hvalue]
  unfold Shape.isRecord at hrecord
  generalize (store.shape id).constant = constant at hrecord ⊢
  rcases constant with _ | constant
  · cases hrecord
  · cases constant with
    | object tag members => rfl
    | _ => cases hrecord

/-- The type of a known member is forgotten by all that are not known objects. -/
theorem declaredMember_of_not_record {value : Value}
    (h : (store.shape id).slot? name = some (.known value))
    (hrecord : (store.shape id).isRecord = false) :
    declaredMember id name store = (some (ofValue value store).1, (ofValue value store).2) := by
  obtain ⟨hmember, hvalue⟩ := Shape.slot?_eq_known_iff.mp h
  have hhas := Shape.hasMembers_of_known h
  rw [declaredMember, shapeOf_bind, hmember]
  rw [Shape.value?, if_pos hhas] at hvalue
  simp only [hhas, hvalue]
  unfold Shape.isRecord at hrecord
  generalize (store.shape id).constant = constant at hrecord ⊢
  rcases constant with _ | constant
  · rfl
  · cases constant with
    | object tag members => cases hrecord
    | _ => rfl

/-! ## Widening -/

/-- A type without a constant is general as it is. -/
theorem widenPlain_of_none (h : (store.shape id).constant = none) :
    widenPlain id store = (id, store) := by
  rw [widenPlain, shapeOf_bind, h]
  rfl

theorem widenPlain_of_null (h : (store.shape id).kind = .null ∨
    (store.shape id).kind = .undefined) :
    widenPlain id store = (id, store) := by
  rw [widenPlain, shapeOf_bind]
  rcases h with h | h <;> rw [h] <;> cases (store.shape id).constant <;> rfl

theorem widenPlain_of_some {constant : Value} (h : (store.shape id).constant = some constant)
    (hnull : (store.shape id).kind ≠ .null) (hundefined : (store.shape id).kind ≠ .undefined) :
    widenPlain id store =
      (store.shapes.size, store.add { store.shape id with constant := none }) := by
  rw [widenPlain, shapeOf_bind, h]
  dsimp only
  cases hkind : (store.shape id).kind with
  | null => exact absurd hkind hnull
  | undefined => exact absurd hkind hundefined
  | _ => rfl

end Ty

end ScriptCheck
