import ScriptCheck.Proofs.Types.Fresh

/-!
# Reading the members of known types

The type of a known value answers for every member that the value has: asking for it is no
mistake, and what is read is the type of the member.
-/

namespace ScriptCheck

namespace TypeStore

/-- A type stands for a known value, and its identities are handed out from `first` on. -/
structure Settled (store : TypeStore) (first : Nat) (ty : Ty) (value : Value) : Prop where
  mirrors : store.Mirrors ty value
  fresh : ∃ id, ty = .plain id ∧ store.Fresh first id

variable {store next : TypeStore} {first : Nat} {ty key : Ty} {value inner : Value}

structure Shows (store : TypeStore) (first id : Nat) (value shown : Value) : Prop where
  lt : id < store.shapes.size
  kind : (store.shape id).kind = value.kind
  constant : (store.shape id).constant = some shown
  untagged : shown.untagged = value.untagged
  identity : ∀ tag ∈ shown.identities, first ≤ tag ∧ tag < store.nextTag

theorem Settled.shows (h : store.Settled first ty value) :
    ∃ id constant, ty = .plain id ∧ store.Shows first id value constant := by
  obtain ⟨id, rfl, hreflects⟩ := h.mirrors.exists_reflects
  obtain ⟨other, hother, hfresh⟩ := h.fresh
  cases hother
  obtain ⟨constant, hconstant, huntagged⟩ := hreflects.constant
  exact ⟨id, constant, rfl, hreflects.lt, hreflects.kind, hconstant, huntagged,
    (madeFrom_fresh store first).identity hfresh hconstant⟩

theorem Settled.of_evolves (h : store.Settled first ty value) (hevolves : Evolves store next) :
    next.Settled first ty value := by
  obtain ⟨id, rfl, hfresh⟩ := h.fresh
  exact ⟨h.mirrors.of_later hevolves.later, id, rfl, hevolves.fresh hfresh⟩

theorem Shows.of_evolves {id : Nat} {shown : Value} (h : store.Shows first id value shown)
    (hevolves : Evolves store next) : next.Shows first id value shown where
  lt := hevolves.later.lt h.lt
  kind := by rw [hevolves.later.kind h.lt, h.kind]
  constant := by rw [hevolves.later.constant h.lt, h.constant]
  untagged := h.untagged
  identity tag htag := by
    have hbounds := h.identity tag htag
    exact ⟨hbounds.1, Nat.lt_of_lt_of_le hbounds.2 hevolves.tag_le⟩

/-- A text or a number has no identities, so nothing but itself has its contents. -/
theorem Shows.constant_eq {id : Nat} {constant : Value} (h : store.Shows first id value constant)
    (hprimitive : value.isPrimitive = true) : constant = value := by
  have huntagged := h.untagged
  have hconstant : constant.isPrimitive = true := by
    rw [← Value.isPrimitive_untagged, huntagged, Value.isPrimitive_untagged, hprimitive]
  rwa [Value.untagged_of_isPrimitive hconstant, Value.untagged_of_isPrimitive hprimitive]
    at huntagged

end TypeStore

open TypeStore

namespace Ty

open TypeM (Follows)

variable {store : TypeStore} {first : Nat} {id : TypeId} {key : Ty} {name : String}
  {value inner keyValue : Value}

/-- The type of a value, all of whose identities are handed out in a range. -/
theorem settled_ofValue (hfirst : first ≤ store.nextTag)
    (hidentities : ∀ tag ∈ value.identities, first ≤ tag ∧ tag < store.nextTag) :
    (ofValue value store).2.Settled first (ofValue value store).1 value := by
  obtain ⟨id, hid, hcopies⟩ := copies_ofValue store value
  refine ⟨mirrors_ofValue store value, id, hid, ?_⟩
  exact hcopies.fresh hidentities hfirst (makes_ofValue store value).evolves.tag_le

theorem settled_ofValue_of_untagged {other : Value} (hfirst : first ≤ store.nextTag)
    (hidentities : ∀ tag ∈ value.identities, first ≤ tag ∧ tag < store.nextTag)
    (huntagged : value.untagged = other.untagged) :
    (ofValue value store).2.Settled first (ofValue value store).1 other := by
  have hsettled := settled_ofValue hfirst hidentities
  exact ⟨fun depth => (hsettled.mirrors depth).congr huntagged, hsettled.fresh⟩

theorem settled_ofValue_of_isPrimitive (hfirst : first ≤ store.nextTag)
    (hprimitive : inner.isPrimitive = true) :
    (ofValue inner store).2.Settled first (ofValue inner store).1 inner := by
  refine settled_ofValue hfirst fun tag htag => ?_
  rw [Value.identities_of_isPrimitive hprimitive] at htag
  cases htag

theorem evolves_ofValue (value : Value) : Follows Evolves store (ofValue value) :=
  Makes.evolves (makes_ofValue store value)

def GivesMember (store : TypeStore) (first : Nat) (computation : TypeM (Option Ty))
    (inner : Value) : Prop :=
  Follows Evolves store computation ∧ ∃ member, (computation store).1 = some member ∧
    (computation store).2.Settled first member inner

/-! ## By name -/

/-- A member of a known type is declared, or it is known from the value. -/
theorem givesMember_declaredMember (hfirst : first ≤ store.nextTag)
    (h : store.Settled first (plain id) value) (hget : value.get? name = some inner)
    (hslot : (store.shape id).slot? name ≠ none) :
    GivesMember store first (declaredMember id name) inner := by
  refine ⟨evolves_declaredMember store id name, ?_⟩
  obtain ⟨_, hid, hreflects⟩ := h.mirrors.exists_reflects
  cases hid
  obtain ⟨_, hid, hfresh⟩ := h.fresh
  cases hid
  have hmade := madeFrom_fresh store first
  cases hfound : (store.shape id).slot? name with
  | none => exact absurd hfound hslot
  | some slot =>
      cases slot with
      | declared member =>
          rw [declaredMember_of_declared hfound]
          have hmember := Shape.slot?_eq_declared_iff.mp hfound
          obtain ⟨other, hother, hmirrors⟩ := hreflects.member name member hmember
          rw [hget] at hother
          cases hother
          exact ⟨member, rfl, hmirrors, hmade.member hfresh hmember⟩
      | known found =>
          obtain ⟨constant, hconstant, huntagged⟩ := hreflects.constant
          have hknown : constant.get? name = some found := by
            have hvalue := (Shape.slot?_eq_known_iff.mp hfound).2
            rw [Shape.value?, if_pos (Shape.hasMembers_of_known hfound), hconstant] at hvalue
            exact hvalue
          have hinner : found.untagged = inner.untagged := by
            obtain ⟨other, hother, hsame⟩ := Value.get?_of_untagged huntagged hknown
            rw [hget] at hother
            cases hother
            exact hsame
          have hmakes := settled_ofValue_of_untagged hfirst (fun tag htag =>
            hmade.identity hfresh hconstant tag (Value.mem_identities_of_get? hknown htag)) hinner
          cases hrecord : (store.shape id).isRecord with
          | false =>
              rw [declaredMember_of_not_record hfound hrecord]
              exact ⟨_, rfl, hmakes⟩
          | true =>
              have hevolves := evolves_declaredMember store id name
              unfold Follows at hevolves
              rw [declaredMember_of_record hfound hrecord] at hevolves ⊢
              have hlt := Nat.lt_of_lt_of_le (lt_of_slot? hfound)
                (makes_ofValue store found).size_le
              have hshape := (makes_ofValue store found).shape_eq (lt_of_slot? hfound)
              have hdeclare := Later.declare (by rw [hshape, hfound]) (by rw [hshape, hrecord])
                (mirrors_ofValue store found)
              have hmember : Record.get? name (((ofValue found store).2.declare id name
                  (ofValue found store).1).shape id).members = some (ofValue found store).1 := by
                rw [shape_declare_self hlt]
                exact Record.get?_insert_self name _ _
              exact ⟨_, rfl, hmakes.mirrors.of_later hdeclare,
                (madeFrom_fresh _ first).member (hevolves.fresh hfresh) hmember⟩

theorem kind_of_get? (hget : value.get? name = some inner) :
    value.kind = .object ∨ ∃ s, value = .string s := by
  cases value with
  | object | array => exact .inl rfl
  | string s => exact .inr ⟨s, rfl⟩
  | _ => cases hget

theorem slot?_ne_none_of_object (h : store.Settled first (plain id) value)
    (hget : value.get? name = some inner) (hkind : value.kind = .object) :
    (store.shape id).slot? name ≠ none := by
  obtain ⟨_, constant, hid, hshows⟩ := h.shows
  cases hid
  obtain ⟨found, hfound, -⟩ := Value.get?_of_untagged hshows.untagged.symm hget
  have hvalue : (store.shape id).value? name = some found := by
    rw [Shape.value?, hshows.kind, hkind, hshows.constant]
    exact hfound
  intro hnone
  rw [(Shape.slot?_eq_none_iff.mp hnone).2] at hvalue
  cases hvalue

theorem ownMember_of_some {member : Ty}
    (h : (declaredMember id name store).1 = some member) :
    ownMember id name store = declaredMember id name store := by
  rw [ownMember, TypeM.bind_apply, h]
  exact Prod.ext h.symm rfl

theorem ownMember_of_none (h : (store.shape id).slot? name = none) :
    ownMember id name store = builtinMember id name store := by
  rw [ownMember, TypeM.bind_apply, declaredMember_of_none h]

/-- The members of a known text that it does not declare: its length and its characters. -/
theorem ownMember_of_text {s : String} (h : store.Settled first (plain id) (.string s))
    (hslot : (store.shape id).slot? name = none) (hget : (Value.string s).get? name = some inner) :
    ownMember id name store =
      if name = "length" then (some (ofValue inner store).1, (ofValue inner store).2)
      else (none, store) := by
  obtain ⟨_, constant, hid, hshows⟩ := h.shows
  cases hid
  have hconstant : constant = .string s := hshows.constant_eq rfl
  rw [hconstant] at hshows
  rw [ownMember_of_none hslot, builtinMember, shapeOf_bind, hshows.constant, hshows.kind,
    Option.bind_some, hget]
  by_cases hlength : name = "length"
  · rw [if_pos ⟨hlength, .inl rfl⟩, if_pos hlength]
    rfl
  · rw [if_neg (fun hboth => hlength hboth.1), if_neg hlength]
    rfl

theorem isPrimitive_of_text {s : String} (h : (Value.string s).get? name = some inner) :
    inner.isPrimitive = true := by
  rw [Value.get?] at h
  split at h
  · cases h
    rfl
  · obtain ⟨index, -, hfound⟩ := Option.bind_eq_some_iff.mp h
    obtain ⟨c, -, rfl⟩ := Option.map_eq_some_iff.mp hfound
    rfl

/-- What a value has under a name can be read from its type by this name. -/
theorem givesMember_namedMember (hfirst : first ≤ store.nextTag)
    (h : store.Settled first (plain id) value) (hget : value.get? name = some inner) :
    GivesMember store first (namedMember id name) inner := by
  by_cases hslot : (store.shape id).slot? name = none
  · rcases kind_of_get? hget with hkind | ⟨s, rfl⟩
    · exact absurd hslot (slot?_ne_none_of_object h hget hkind)
    · have hsettled := settled_ofValue_of_isPrimitive hfirst (isPrimitive_of_text hget)
      have hrun : namedMember id name store =
          (some (ofValue inner store).1, (ofValue inner store).2) := by
        rw [namedMember, TypeM.bind_apply, ownMember_of_text h hslot hget]
        by_cases hlength : name = "length"
        · rw [if_pos hlength]
          rfl
        · obtain ⟨_, constant, hid, hshows⟩ := h.shows
          cases hid
          have hconstant : constant = .string s := hshows.constant_eq rfl
          rw [hconstant] at hshows
          rw [if_neg hlength]
          change textMember (store.shape id) name store = _
          rw [textMember, hshows.kind, hshows.constant, Option.bind_some, hget]
          rfl
      unfold GivesMember Follows
      rw [hrun]
      exact ⟨evolves_ofValue inner, _, rfl, hsettled⟩
  · obtain ⟨hfollows, member, hmember, hsettled⟩ := givesMember_declaredMember hfirst h hget hslot
    have hrun : namedMember id name store = declaredMember id name store := by
      rw [namedMember, TypeM.bind_apply, ownMember_of_some hmember, hmember]
      exact Prod.ext hmember.symm rfl
    unfold GivesMember Follows
    rw [hrun]
    exact ⟨hfollows, member, hmember, hsettled⟩

/-! ## By a key -/

theorem keyName?_of_settled (h : store.Settled first key keyValue)
    (hkind : keyValue.kind = .string ∨ keyValue.kind = .number) :
    key.keyName? store = (some keyValue.text, store) := by
  obtain ⟨id, constant, rfl, hshows⟩ := h.shows
  have hprimitive : keyValue.isPrimitive = true := by
    cases keyValue with
    | array | object => rcases hkind with hkind | hkind <;> cases hkind
    | _ => rfl
  have hconstant : constant? (plain id) store = (some keyValue, store) := by
    rw [← hshows.constant_eq hprimitive, ← hshows.constant]
    rfl
  rw [keyName?, TypeM.bind_apply, hconstant]
  cases keyValue with
  | string s => rfl
  | number x => rfl
  | _ => rcases hkind with hkind | hkind <;> cases hkind

theorem isKind_of_settled (h : store.Settled first key keyValue) (kind : Kind) :
    key.isKind kind store = (decide (keyValue.kind = kind), store) := by
  obtain ⟨id, constant, rfl, hshows⟩ := h.shows
  rw [← hshows.kind]
  refine Prod.ext ?_ rfl
  change decide (some (store.shape id).kind = some kind) = _
  simp

theorem isNot_of_settled (h : store.Settled first key keyValue) (kind : Kind) :
    key.isNot kind store = (decide (keyValue.kind ≠ kind), store) := by
  obtain ⟨id, constant, rfl, hshows⟩ := h.shows
  have hknown : keyValue.kind ≠ .unknown := by cases keyValue <;> simp [Value.kind]
  refine Prod.ext ?_ rfl
  change ([id].any fun id =>
    (store.shape id).kind != .unknown && (store.shape id).kind != kind) = _
  by_cases hkind : keyValue.kind = kind
  · simp [hshows.kind, hkind]
  · simp [hshows.kind, hkind, hknown]

theorem not_notIndexed_of_number {indexer : Option Indexer}
    (hindexer : indexer.map Indexer.key = some .number) (h : store.Settled first key keyValue)
    (hkind : keyValue.kind = .number) : notIndexed indexer key store = (false, store) := by
  obtain ⟨found, rfl, hfound⟩ := Option.map_eq_some_iff.mp hindexer
  refine Prod.ext ?_ rfl
  change (!(!(key.isNot found.key store).1)) = false
  rw [isNot_of_settled h, hfound, hkind]
  rfl

/-- What a value has under a name is not missing from its type. -/
theorem plainLacks_of_settled (h : store.Settled first (plain id) value)
    (hfirst : first ≤ store.nextTag) (hkey : store.Settled first key keyValue)
    (hkind : keyValue.kind = .string ∨ keyValue.kind = .number)
    (hget : value.get? keyValue.text = some inner) :
    Follows Evolves store (plainLacks id key) ∧ (plainLacks id key store).1 = false := by
  obtain ⟨_, hid, hreflects⟩ := h.mirrors.exists_reflects
  cases hid
  let answer : Bool → TypeM Bool := fun found => do
    if ← key.isKind .string then return !found && !(store.shape id).lenient
    else if found then return false
    else notIndexed (store.shape id).indexer key
  have hrun : plainLacks id key store =
      answer (ownMember id keyValue.text store).1.isSome (ownMember id keyValue.text store).2 := by
    rw [plainLacks, shapeOf_bind, hreflects.kind]
    rcases kind_of_get? hget with hobject | ⟨s, rfl⟩
    · rw [hobject]
      change (key.keyName? >>= _) store = _
      rw [TypeM.bind_apply, keyName?_of_settled hkey hkind]
      rfl
    · change (key.keyName? >>= _) store = _
      rw [TypeM.bind_apply, keyName?_of_settled hkey hkind]
      rfl
  have hfound : ∀ {next}, Evolves store next → answer true next = (false, next) := by
    intro next hnext
    change (key.isKind .string >>= _) next = _
    rw [TypeM.bind_apply, isKind_of_settled (hkey.of_evolves hnext)]
    split <;> rfl
  have hmissing : value.kind = .string → answer false store = (false, store) := by
    intro hstring
    obtain ⟨hlenient, hindexer⟩ := hreflects.textual hstring
    change (key.isKind .string >>= _) store = _
    rw [TypeM.bind_apply, isKind_of_settled hkey]
    rcases hkind with hkind | hkind
    · rw [hkind, hlenient]
      rfl
    · rw [hkind]
      exact not_notIndexed_of_number hindexer hkey hkind
  have hlacks : ∃ next, Evolves store next ∧ plainLacks id key store = (false, next) := by
    rw [hrun]
    by_cases hslot : (store.shape id).slot? keyValue.text = none
    · rcases kind_of_get? hget with hobject | ⟨s, rfl⟩
      · exact absurd hslot (slot?_ne_none_of_object h hget hobject)
      · rw [ownMember_of_text h hslot hget]
        by_cases hlength : keyValue.text = "length"
        · rw [if_pos hlength]
          exact ⟨_, evolves_ofValue inner, hfound (evolves_ofValue inner)⟩
        · rw [if_neg hlength]
          exact ⟨_, refl_of Evolves store, hmissing rfl⟩
    · obtain ⟨hfollows, member, hmember, -⟩ := givesMember_declaredMember hfirst h hget hslot
      rw [ownMember_of_some hmember, hmember]
      exact ⟨_, hfollows, hfound hfollows⟩
  obtain ⟨next, hnext, hresult⟩ := hlacks
  unfold Follows
  rw [hresult]
  exact ⟨hnext, rfl⟩

/-- What a value has under a name can be read from its type by a key that stands for the
name. -/
theorem givesMember_plainMember (hfirst : first ≤ store.nextTag)
    (h : store.Settled first (plain id) value) (hkey : store.Settled first key keyValue)
    (hkind : keyValue.kind = .string ∨ keyValue.kind = .number)
    (hget : value.get? keyValue.text = some inner) :
    GivesMember store first (plainMember id key) inner := by
  obtain ⟨hfollows, member, hmember, hsettled⟩ := givesMember_namedMember hfirst h hget
  obtain ⟨_, constant, hid, hshows⟩ := h.shows
  cases hid
  have hknown : (store.shape id).kind ≠ .unknown := by
    rw [hshows.kind]
    cases value <;> simp [Value.kind]
  have hrun : plainMember id key store = namedMember id keyValue.text store := by
    rw [plainMember, shapeOf_bind, if_neg hknown, TypeM.bind_apply, keyName?_of_settled hkey hkind]
    change (namedMember id keyValue.text >>= _) store = _
    rw [TypeM.bind_apply, hmember]
    exact Prod.ext hmember.symm rfl
  unfold GivesMember Follows
  rw [hrun]
  exact ⟨hfollows, member, hmember, hsettled⟩

end Ty

end ScriptCheck
