import ScriptCheck.Proofs.Types.Known
import ScriptCheck.Proofs.Types.Lossless
import ScriptCheck.Proofs.Types.Obtain

/-!
# What types lack

Whether reading a member by a known text is a mistake can be told from the shapes alone: it is one
for a variant that has nothing under the name and is not indulgent about it.  Looking at types
changes none of that.
-/

namespace ScriptCheck

open TypeStore

namespace Shape

/-- Whether no declaration is needed for a member to be there: any will do for a lenient shape, and
texts and arrays have a length. -/
def forgives (shape : Shape) (name : String) : Bool :=
  shape.lenient || (name = "length" && (shape.kind = .string || shape.isArray))

/-- Whether reading a member by its name is a mistake. -/
def lacksName (shape : Shape) (name : String) : Bool :=
  match shape.kind with
  | .unknown => false
  | .null | .undefined => true
  | _ => (shape.slot? name).isNone && !shape.forgives name

theorem lacksName_of_known {shape : Shape} {name : String} (hunknown : shape.kind ≠ .unknown)
    (hnull : shape.kind ≠ .null) (hundefined : shape.kind ≠ .undefined) :
    shape.lacksName name = ((shape.slot? name).isNone && !shape.forgives name) := by
  unfold lacksName
  split
  · exact absurd ‹_› hunknown
  · exact absurd ‹_› hnull
  · exact absurd ‹_› hundefined
  · rfl

end Shape

namespace TypeStore

def Spells (store : TypeStore) (key : Ty) (name : String) : Prop :=
  ∃ inner, key = .plain inner ∧ (store.shape inner).constant = some (.string name) ∧
    (store.shape inner).kind = .string

variable {store next : TypeStore} {key : Ty} {name : String}

/-- Every constant is of the kind of its type. -/
def ConstantsFit (store : TypeStore) : Prop :=
  ∀ id value, (store.shape id).constant = some value → value.kind = (store.shape id).kind

theorem Orderly.constantsFit (h : store.Orderly) : store.ConstantsFit :=
  fun id _ => (h id).constant

/-- A known type is plain and of the kind of its constant. -/
theorem ConstantsFit.exists_plain (h : store.ConstantsFit) {value : Value}
    (hknown : (key.constant? store).1 = some value) :
    ∃ inner, key = .plain inner ∧ (store.shape inner).constant = some value ∧
      (store.shape inner).kind = value.kind := by
  cases key with
  | union variants => cases hknown
  | plain inner => exact ⟨inner, rfl, hknown, (h inner value hknown).symm⟩

theorem ConstantsFit.spells (h : store.ConstantsFit)
    (htext : (key.constant? store).1 = some (.string name)) : store.Spells key name :=
  h.exists_plain htext

namespace Spells

theorem names (h : store.Spells key name) : Ty.Names store key name := by
  obtain ⟨inner, rfl, htext, -⟩ := h
  have hknown : (Ty.plain inner).constant? store = (some (.string name), store) :=
    Prod.ext htext rfl
  rw [Ty.Names, Ty.keyName?, TypeM.bind_apply, hknown]
  rfl

theorem isKind (h : store.Spells key name) : key.isKind .string store = (true, store) := by
  obtain ⟨inner, rfl, -, hkind⟩ := h
  change (decide (some (store.shape inner).kind = some .string), store) = _
  rw [hkind]
  rfl

theorem of_later (h : store.Spells key name) (hlater : Later store next) : next.Spells
    key name := by
  obtain ⟨inner, rfl, htext, hkind⟩ := h
  have hlt : inner < store.shapes.size := by
    by_contra hge
    rw [shape_of_size_le (Nat.le_of_not_lt hge)] at htext
    cases htext
  exact ⟨inner, rfl, (hlater.constant hlt).trans htext, (hlater.kind hlt).trans hkind⟩

end Spells

theorem Later.forgives (h : Later store next) {id : Nat} (hlt : id < store.shapes.size) :
    (next.shape id).forgives name = (store.shape id).forgives name := by
  have hlenient := congrArg Shape.lenient (h.outline hlt)
  have hindexer := congrArg Shape.indexer (h.outline hlt)
  change (next.shape id).lenient = (store.shape id).lenient at hlenient
  change (next.shape id).indexer = (store.shape id).indexer at hindexer
  unfold Shape.forgives Shape.isArray
  rw [hlenient, hindexer, h.kind hlt]

theorem Later.lacksName (h : Later store next) {id : Nat} (hlt : id < store.shapes.size) :
    (next.shape id).lacksName name = (store.shape id).lacksName name := by
  have hslot : ((next.shape id).slot? name).isNone = ((store.shape id).slot? name).isNone := by
    rw [Bool.eq_iff_iff, Option.isNone_iff_eq_none, Option.isNone_iff_eq_none,
      h.slot?_eq_none_iff hlt]
  unfold Shape.lacksName
  rw [h.kind hlt, h.forgives hlt, hslot]

end TypeStore

namespace Ty

variable {store : TypeStore} {id : TypeId} {key : Ty} {name : String}

/-- A member is found where a shape has something under the name, and where it goes without
saying. -/
theorem isSome_ownMember (store : TypeStore) (id : TypeId) (name : String) :
    (ownMember id name store).1.isSome = (((store.shape id).slot? name).isSome ||
      (name = "length" && ((store.shape id).kind = .string || (store.shape id).isArray))) := by
  cases held : (store.shape id).slot? name with
  | none =>
      rw [ownMember_of_none held, builtinMember, shapeOf_bind]
      by_cases hlength : name = "length" ∧
          ((store.shape id).kind = .string ∨ (store.shape id).isArray = true)
      · rw [if_pos hlength]
        have hbuiltin : (name = "length" && ((store.shape id).kind = .string ||
            (store.shape id).isArray)) = true := by simpa using hlength
        rw [hbuiltin]
        cases (store.shape id).constant.bind (·.get? name) <;> rfl
      · rw [if_neg hlength]
        have hbuiltin : (name = "length" && ((store.shape id).kind = .string ||
            (store.shape id).isArray)) = false := by simpa using hlength
        rw [hbuiltin]
        rfl
  | some slot =>
      have hfound : (declaredMember id name store).1.isSome = true := by
        cases slot with
        | declared member => rw [declaredMember_of_declared held]; rfl
        | known value =>
            cases hrecord : (store.shape id).isRecord with
            | true => rw [declaredMember_of_record held hrecord]; rfl
            | false => rw [declaredMember_of_not_record held hrecord]; rfl
      obtain ⟨member, hgiven⟩ := Option.isSome_iff_exists.mp hfound
      rw [ownMember_of_some hgiven, hfound]
      rfl

/-- What is asked of a plain type that is neither unknown nor a single value without members. -/
theorem plainLacks_of_known (hunknown : (store.shape id).kind ≠ .unknown)
    (hnull : (store.shape id).kind ≠ .null) (hundefined : (store.shape id).kind ≠ .undefined) :
    plainLacks id key store = (do
      match ← key.keyName? with
      | some name =>
          let found := (← ownMember id name).isSome
          if ← key.isKind .string then return !found && !(store.shape id).lenient
          else if found then return false
          else notIndexed (store.shape id).indexer key
      | none => notIndexed (store.shape id).indexer key : TypeM Bool) store := by
  rw [plainLacks, shapeOf_bind]
  cases hkind : (store.shape id).kind with
  | unknown => exact absurd hkind hunknown
  | null => exact absurd hkind hnull
  | undefined => exact absurd hkind hundefined
  | _ => rfl

theorem plainLacks_of_spells (hspells : store.Spells key name) (id : TypeId) :
    (plainLacks id key store).1 = (store.shape id).lacksName name := by
  by_cases hunknown : (store.shape id).kind = .unknown
  · rw [plainLacks, shapeOf_bind, Shape.lacksName, hunknown]
    rfl
  by_cases hnull : (store.shape id).kind = .null
  · rw [plainLacks, shapeOf_bind, Shape.lacksName, hnull]
    rfl
  by_cases hundefined : (store.shape id).kind = .undefined
  · rw [plainLacks, shapeOf_bind, Shape.lacksName, hundefined]
    rfl
  rw [plainLacks_of_known hunknown hnull hundefined,
    Shape.lacksName_of_known hunknown hnull hundefined,
    TypeM.bind_apply, hspells.names]
  change ((ownMember id name >>= _ : TypeM Bool) store).1 = _
  have hlater := (computes_ownMember store id name).later
  rw [TypeM.bind_apply, TypeM.bind_apply, (hspells.of_later hlater).isKind]
  change (!(ownMember id name store).1.isSome && !(store.shape id).lenient) = _
  rw [isSome_ownMember, Shape.forgives, ← Option.not_isSome]
  generalize ((store.shape id).slot? name).isSome = held
  generalize (store.shape id).lenient = lenient
  cases held <;> cases lenient <;> simp

/-- A type lacks a member if one of its variants does. -/
theorem lacks_iff_of_spells (hspells : store.Spells key name) (ty : Ty)
    (hlt : ∀ id ∈ ty.variants, id < store.shapes.size) :
    (lacks ty key store).1 = true ↔ ∃ id ∈ ty.variants, (store.shape id).lacksName name = true := by
  unfold lacks
  generalize ty.variants = variants at hlt ⊢
  induction variants generalizing store with
  | nil => exact ⟨nofun, nofun⟩
  | cons id rest ih =>
      obtain ⟨hltId, hltRest⟩ := List.forall_mem_cons.mp hlt
      have hfirst := plainLacks_of_spells hspells id
      have hlater := (computes_plainLacks store id key).later
      rw [List.anyM_cons, TypeM.bind_apply, List.exists_mem_cons_iff, ← hfirst]
      cases (plainLacks id key store).1 with
      | true => exact ⟨fun _ => .inl rfl, fun _ => rfl⟩
      | false =>
          have hothers := ih (hspells.of_later hlater) fun other hmem =>
            hlater.lt (hltRest other hmem)
          have hsame : (∃ other ∈ rest,
              ((plainLacks id key store).2.shape other).lacksName name = true) ↔
              ∃ other ∈ rest, (store.shape other).lacksName name = true :=
            exists_congr fun other => and_congr_right fun hmem => by
              rw [hlater.lacksName (hltRest other hmem)]
          exact hothers.trans (hsame.trans ⟨.inr, fun heither => heither.resolve_left nofun⟩)

end Ty

end ScriptCheck
