import ScriptCheck.Proofs.Types.Look

/-!
# Names of equivalent types

Types that are assignable both ways are of one kind, and what one declares the other has.
-/

namespace ScriptCheck

theorem Record.mem_keys_iff {α : Type} {name : String} {record : List (String × α)} :
    name ∈ keys record ↔ ∃ member, get? name record = some member := by
  induction record with
  | nil => simp [keys, get?]
  | cons entry rest ih =>
      obtain ⟨key, member⟩ := entry
      have hcons : keys ((key, member) :: rest) = key :: keys rest := rfl
      rw [hcons, List.mem_cons, get?]
      by_cases hkey : key = name
      · simp [hkey]
      · rw [if_neg hkey, ih]
        exact ⟨fun h => h.resolve_left fun heq => hkey heq.symm, .inr⟩

theorem Shape.isRecord_iff {shape : Shape} :
    shape.isRecord = true ↔ ∃ tag members, shape.constant = some (.object tag members) := by
  cases hconstant : shape.constant with
  | none => simp [isRecord, hconstant]
  | some constant => cases constant <;> simp [isRecord, hconstant]

theorem Shape.mem_memberNames {shape : Shape} (hhas : Ty.hasMembers shape.kind = true)
    {name : String} :
    name ∈ shape.memberNames ↔ (∃ member, Record.get? name shape.members = some member) ∨
      shape.isRecord = true ∧ ∃ value, shape.value? name = some value := by
  unfold memberNames value?
  rw [if_pos hhas, isRecord_iff]
  split
  · rename_i tag members hconstant
    have hget : (some (Value.object tag members)).bind (·.get? name) =
        Record.get? name members := rfl
    rw [hconstant, hget, List.mem_append, List.mem_filter, Record.mem_keys_iff,
      Record.mem_keys_iff]
    constructor
    · rintro (hdeclared | ⟨hknown, -⟩)
      · exact .inl hdeclared
      · exact .inr ⟨⟨tag, members, rfl⟩, hknown⟩
    · rintro (hdeclared | ⟨-, hknown⟩)
      · exact .inl hdeclared
      · by_cases hdeclared : name ∈ Record.keys shape.members
        · exact .inl (Record.mem_keys_iff.mp hdeclared)
        · exact .inr ⟨hknown, by simpa using hdeclared⟩
  · rename_i hother
    rw [Record.mem_keys_iff]
    constructor
    · exact .inl
    · rintro (hdeclared | ⟨⟨tag, members, hconstant⟩, -⟩)
      · exact hdeclared
      · exact (hother tag members hconstant).elim

theorem Shape.slot?_ne_none_of_mem {shape : Shape} (hhas : Ty.hasMembers shape.kind = true)
    {name : String} (h : name ∈ shape.memberNames) : shape.slot? name ≠ none := by
  intro hnone
  obtain ⟨hmember, hvalue⟩ := Shape.slot?_eq_none_iff.mp hnone
  rcases (mem_memberNames hhas).mp h with ⟨member, hfound⟩ | ⟨-, value, hfound⟩
  · rw [hmember] at hfound
    cases hfound
  · rw [hvalue] at hfound
    cases hfound

namespace TypeStore

variable {store next : TypeStore}

theorem Later.mem_memberNames (h : Later store next) {id : Nat} (hid : id < store.shapes.size)
    (hhas : Ty.hasMembers (store.shape id).kind = true) {name : String} :
    name ∈ (next.shape id).memberNames ↔ name ∈ (store.shape id).memberNames := by
  have hhas' : Ty.hasMembers (next.shape id).kind = true := by
    rw [h.kind hid]
    exact hhas
  rw [Shape.mem_memberNames hhas, Shape.mem_memberNames hhas', h.isRecord hid, h.value? hid]
  constructor
  · rintro (⟨member, hmember⟩ | hknown)
    · cases hold : Record.get? name (store.shape id).members with
      | some old => exact .inl ⟨old, rfl⟩
      | none =>
          obtain ⟨hrecord, value, hvalue, -⟩ := h.mirrors hid hold hmember
          exact .inr ⟨hrecord, value, hvalue⟩
    · exact .inr hknown
  · rintro (⟨member, hmember⟩ | hknown)
    · exact .inl ⟨member, h.declared hid hmember⟩
    · exact .inr hknown

end TypeStore

namespace Ty

open TypeStore
open TypeM (Follows)

variable {store : TypeStore} {nested : Ty → Ty → TypeM Bool} {a b : Nat}

theorem slot?_ne_none_of_declaredMember {id : TypeId} {name : String} {member : Ty}
    (h : (declaredMember id name store).1 = some member) :
    (store.shape id).slot? name ≠ none := by
  intro hnone
  rw [declaredMember_of_none hnone] at h
  cases h

theorem slot?_ne_none_of_membersAssignable
    (hnested : ∀ store x y, Follows Looks store (nested x y)) (hb : b < store.shapes.size)
    {names : List String}
    (h : (membersAssignable declaredMember nested a b names store).1 = true) :
    ∀ name ∈ names, (store.shape b).slot? name ≠ none := by
  intro name hname
  rw [membersAssignable_eq_allM] at h
  obtain ⟨next, hnext, hfound⟩ := Follows.exists_of_allM (fun name next _ =>
    follows_memberAssignable next looks_declaredMember hnested a b name) h name hname
  have hlater := (Looks.later hnext).trans (Looks.later (looks_declaredMember next a name))
  rw [memberAssignable, TypeM.bind_apply, TypeM.bind_apply] at hfound
  rcases hactual : declaredMember b name (declaredMember a name next).2 with ⟨actual?, after⟩
  rw [hactual] at hfound
  generalize (declaredMember a name next).1 = expected? at hfound
  cases actual? with
  | none => cases expected? <;> cases hfound
  | some actual =>
      have hslot := slot?_ne_none_of_declaredMember (congrArg Prod.fst hactual)
      rwa [ne_eq, hlater.slot?_eq_none_iff hb] at hslot

/-- A plain type that another is assignable to is of the same kind and declares nothing
that the other has not. -/
theorem of_plainAssignable (hnested : ∀ store x y, Follows Looks store (nested x y))
    (hne : a ≠ b) (ha : a < store.shapes.size) (hb : b < store.shapes.size)
    (hleft : (store.shape a).kind ≠ .unknown) (hright : (store.shape b).kind ≠ .unknown)
    (h : (plainAssignable declaredMember nested a b store).1 = true) :
    (store.shape a).kind = (store.shape b).kind ∧
      (hasMembers (store.shape a).kind = true →
        ∀ name ∈ (store.shape a).memberNames, (store.shape b).slot? name ≠ none) := by
  rw [plainAssignable, if_neg hne, TypeM.bind_apply, TypeM.bind_apply] at h
  change ((if (store.shape a).kind = .unknown ∨ (store.shape b).kind = .unknown then pure true
    else _ : TypeM Bool) store).1 = true at h
  rw [if_neg (not_or.mpr ⟨hleft, hright⟩)] at h
  split at h
  · cases h
  rename_i hkind
  split at h
  · cases h
  rw [TypeM.bind_apply] at h
  split at h
  · have hlater := Looks.later
      (follows_elementsAssignable store hnested (store.shape a) (store.shape b))
    have hnames := slot?_ne_none_of_membersAssignable hnested (hlater.lt hb) h
    refine ⟨Decidable.not_not.mp hkind, fun hhas name hname => ?_⟩
    have hfound := hnames name ((hlater.mem_memberNames ha hhas).mpr hname)
    rwa [ne_eq, hlater.slot?_eq_none_iff hb] at hfound
  · cases h

theorem of_equivalent (hne : a ≠ b) (ha : a < store.shapes.size) (hb : b < store.shapes.size)
    (hleft : (store.shape a).kind ≠ .unknown) (hright : (store.shape b).kind ≠ .unknown)
    (h : (equivalent (plain a) (plain b) store).1 = true) :
    (store.shape a).kind = (store.shape b).kind ∧
      (hasMembers (store.shape a).kind = true →
        ∀ name ∈ (store.shape a).memberNames, (store.shape b).slot? name ≠ none) := by
  rw [equivalent, TypeM.bind_apply] at h
  split at h
  · rename_i hassignable
    have hnested := fun store => follows_assignableWithin store looks_declaredMember structuralDepth
    exact of_plainAssignable hnested hne ha hb hleft hright hassignable
  · cases h

end Ty

end ScriptCheck
