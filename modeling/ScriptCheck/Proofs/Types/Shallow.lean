import ScriptCheck.Proofs.Types.Fresh
import ScriptCheck.Proofs.Types.Lead
import ScriptCheck.Proofs.Types.Restart

/-!
# Joins of types that do not lead around in circles

From a plain type its members lead to others.  Where no way along members goes on for ever, the
longest one bounds how often a join can nest, whatever unions lie on it: joins of such types
always end.  Whether a type is shallow in this sense can be computed from the store.
-/

namespace ScriptCheck

namespace Value

mutual

/-- How many arrays and objects of a value lie inside one another. -/
def levels : Value → Nat
  | array _ elements => elementLevels elements + 1
  | object _ members => memberLevels members + 1
  | _ => 0

def elementLevels : List Value → Nat
  | [] => 0
  | element :: rest => max element.levels (elementLevels rest)

def memberLevels : List (String × Value) → Nat
  | [] => 0
  | (_, member) :: rest => max member.levels (memberLevels rest)

end

mutual

theorem levels_untagged : (value : Value) → value.untagged.levels = value.levels
  | array _ elements => congrArg (· + 1) (elementLevels_untagged elements)
  | object _ members => congrArg (· + 1) (memberLevels_untagged members)
  | undefined | null | bool _ | number _ | string _ => rfl

theorem elementLevels_untagged : (elements : List Value) →
    elementLevels (untaggedElements elements) = elementLevels elements
  | [] => rfl
  | element :: rest => by
      rw [untaggedElements, elementLevels, elementLevels, levels_untagged element,
        elementLevels_untagged rest]

theorem memberLevels_untagged : (members : List (String × Value)) →
    memberLevels (untaggedMembers members) = memberLevels members
  | [] => rfl
  | (_, member) :: rest => by
      rw [untaggedMembers, memberLevels, memberLevels, levels_untagged member,
        memberLevels_untagged rest]

end

theorem levels_le_of_mem_elements {element : Value} {elements : List Value}
    (h : element ∈ elements) : element.levels ≤ elementLevels elements := by
  induction elements with
  | nil => cases h
  | cons first rest ih =>
      rw [elementLevels]
      rcases List.mem_cons.mp h with rfl | hrest
      · exact Nat.le_max_left _ _
      · exact Nat.le_trans (ih hrest) (Nat.le_max_right _ _)

theorem levels_le_of_mem_members {name : String} {member : Value}
    {members : List (String × Value)} (h : (name, member) ∈ members) :
    member.levels ≤ memberLevels members := by
  induction members with
  | nil => cases h
  | cons first rest ih =>
      rw [memberLevels]
      rcases List.mem_cons.mp h with rfl | hrest
      · exact Nat.le_max_left _ _
      · exact Nat.le_trans (ih hrest) (Nat.le_max_right _ _)

theorem isPrimitive_of_hasMembers {value : Value} (h : Ty.hasMembers value.kind = true) :
    value.isPrimitive = false := by
  cases value <;> simp_all [kind, Ty.hasMembers, isPrimitive]

/-- What an array or an object has under a name is less deep than itself. -/
theorem levels_lt_of_get? {value inner : Value} {name : String} (h : value.get? name = some inner)
    (hprimitive : value.isPrimitive = false) : inner.levels < value.levels := by
  cases value with
  | object tag members =>
      exact Nat.lt_succ_of_le (levels_le_of_mem_members (Record.mem_of_get? h))
  | array tag elements =>
      apply Nat.lt_succ_of_le
      simp only [get?] at h
      split at h
      · cases h
        exact Nat.zero_le _
      · obtain ⟨index, -, hinner⟩ := Option.bind_eq_some_iff.mp h
        exact levels_le_of_mem_elements (List.mem_of_getElem? hinner)
  | _ => cases hprimitive

end Value

namespace TypeStore

/-- Whether every way from a plain type along members ends after fewer levels than given, also
through members that are known and not declared yet. -/
def shallow (store : TypeStore) : Nat → TypeId → Bool
  | 0, _ => false
  | levels + 1, id =>
      let shape := store.shape id
      decide (id < store.shapes.size) &&
        ((Record.keys shape.members).all fun name =>
          (Record.get? name shape.members).all fun member =>
            member.variants.all (store.shallow levels)) &&
        (!Ty.hasMembers shape.kind ||
          shape.constant.all fun value => !value.isPrimitive && decide (value.levels ≤ levels))

def shallowType (store : TypeStore) (levels : Nat) (ty : Ty) : Bool :=
  ty.variants.all (store.shallow levels)

def ShallowRecord (store : TypeStore) (levels : Nat) (record : List (String × Ty)) : Prop :=
  ∀ name member, Record.get? name record = some member → store.shallowType levels member

variable {store next : TypeStore} {levels id : Nat} {ty : Ty} {name : String}

/-- What is said of a plain type by its being shallow. -/
structure LeadsWithin (store : TypeStore) (levels id : Nat) : Prop where
  lt : id < store.shapes.size
  members : store.ShallowRecord levels (store.shape id).members
  known : ∀ {value : Value}, Ty.hasMembers (store.shape id).kind = true →
    (store.shape id).constant = some value → value.isPrimitive = false ∧ value.levels ≤ levels

/-- What is known of a member is less deep than what is known of the whole. -/
theorem LeadsWithin.levels_lt_of_known (h : store.LeadsWithin levels id) {value : Value}
    (hslot : (store.shape id).slot? name = some (.known value)) : value.levels < levels := by
  have hhas := Shape.hasMembers_of_known hslot
  have hvalue := (Shape.slot?_eq_known_iff.mp hslot).2
  rw [Shape.value?, if_pos hhas] at hvalue
  obtain ⟨constant, hconstant, hget⟩ := Option.bind_eq_some_iff.mp hvalue
  obtain ⟨hprimitive, hle⟩ := h.known hhas hconstant
  exact Nat.lt_of_lt_of_le (Value.levels_lt_of_get? hget hprimitive) hle

theorem shallow_succ_iff : store.shallow (levels + 1) id ↔ store.LeadsWithin levels id := by
  constructor
  · intro h
    simp only [shallow, Bool.and_eq_true, decide_eq_true_eq, List.all_eq_true,
      Option.all_eq_true, Bool.or_eq_true, Bool.not_eq_true'] at h
    obtain ⟨⟨hlt, hmember⟩, hknown⟩ := h
    refine ⟨hlt, fun name member hfound => ?_, fun hhas hconstant => ?_⟩
    · exact List.all_eq_true.mpr
        (hmember name (List.mem_map_of_mem (Record.mem_of_get? hfound)) member hfound)
    · exact hknown.resolve_left (by rw [hhas]; simp) _ hconstant
  · rintro ⟨hlt, hmembers, hknown⟩
    simp only [shallow, Bool.and_eq_true, decide_eq_true_eq, List.all_eq_true,
      Option.all_eq_true, Bool.or_eq_true, Bool.not_eq_true']
    refine ⟨⟨hlt, fun name _ member hfound => ?_⟩, ?_⟩
    · exact List.all_eq_true.mp (hmembers name member hfound)
    cases hhas : Ty.hasMembers (store.shape id).kind with
    | false => exact .inl rfl
    | true => exact .inr fun value hconstant => hknown hhas hconstant

theorem shallowType_iff :
    store.shallowType levels ty ↔ ∀ id ∈ ty.variants, store.shallow levels id :=
  List.all_eq_true

theorem shallowType_plain : store.shallowType levels (.plain id) = store.shallow levels id := by
  simp [shallowType, Ty.variants]

/-- Plain types that lead nowhere far still do so in a later store. -/
def KeepsShallow (before after : TypeStore) : Prop :=
  ∀ levels id, before.shallow levels id → after.shallow levels id

instance : IsPreorder TypeStore KeepsShallow where
  refl _ _ _ h := h
  trans _ _ _ h hlast levels id hshallow := hlast levels id (h levels id hshallow)

theorem KeepsShallow.type (h : KeepsShallow store next) (hty : store.shallowType levels ty) :
    next.shallowType levels ty :=
  shallowType_iff.mpr fun variant hvariant => h _ _ (shallowType_iff.mp hty variant hvariant)

theorem KeepsShallow.record (h : KeepsShallow store next) {record : List (String × Ty)}
    (hrecord : store.ShallowRecord levels record) : next.ShallowRecord levels record :=
  fun name member hfound => h.type (hrecord name member hfound)

theorem shallowRecord_nil (store : TypeStore) (levels : Nat) : store.ShallowRecord levels [] := by
  intro name member hfound
  cases hfound

theorem ShallowRecord.insert {record : List (String × Ty)} (h : store.ShallowRecord levels record)
    {key : String} (hty : store.shallowType levels ty) :
    store.ShallowRecord levels (Record.insert key ty record) := by
  intro name member hfound
  by_cases hname : name = key
  · subst hname
    rw [Record.get?_insert_self] at hfound
    exact Option.some.inj hfound ▸ hty
  · rw [Record.get?_insert_of_ne hname] at hfound
    exact h name member hfound

theorem keepsShallow_of_shape_eq (hsize : store.shapes.size ≤ next.shapes.size)
    (hshape : ∀ {id : Nat}, id < store.shapes.size → next.shape id = store.shape id) :
    KeepsShallow store next := by
  intro levels id h
  induction levels generalizing id with
  | zero => cases h
  | succ levels ih =>
      obtain ⟨hlt, hmembers, hknown⟩ := shallow_succ_iff.mp h
      rw [shallow_succ_iff]
      refine ⟨Nat.lt_of_lt_of_le hlt hsize, fun name member hfound => ?_, ?_⟩
      · rw [hshape hlt] at hfound
        exact shallowType_iff.mpr fun variant hvariant =>
          ih variant (shallowType_iff.mp (hmembers name member hfound) variant hvariant)
      · rwa [hshape hlt]

theorem keepsShallow_add (store : TypeStore) (shape : Shape) :
    KeepsShallow store (store.add shape) :=
  keepsShallow_of_shape_eq (by simp [add]) fun hid => shape_add_of_lt hid shape

/-- A new type without a constant leads one level further than its members. -/
theorem shallow_add {shape : Shape} (hconstant : shape.constant = none)
    (hmembers : store.ShallowRecord levels shape.members) :
    (store.add shape).shallow (levels + 1) store.shapes.size := by
  rw [shallow_succ_iff]
  constructor
  · simp [add]
  · rw [shape_add_self]
    exact (keepsShallow_add store shape).record hmembers
  · intro value _ hfound
    rw [shape_add_self, hconstant] at hfound
    cases hfound

/-- A known member that is declared leads no further than the known object did. -/
theorem keepsShallow_declare {member : Ty} {value : Value}
    (hslot : (store.shape id).slot? name = some (.known value))
    (hmember : ∀ {levels : Nat}, value.levels < levels → store.shallowType levels member) :
    KeepsShallow store (store.declare id name member) := by
  have hid := lt_of_slot? hslot
  have hkind : ∀ other, ((store.declare id name member).shape other).kind =
      (store.shape other).kind :=
    fun other => kind_of_outline (outline_declare hid other)
  intro levels other h
  induction levels generalizing other with
  | zero => cases h
  | succ levels ih =>
      have hwhole := shallow_succ_iff.mp h
      rw [shallow_succ_iff]
      have hkeeps : ∀ {found : Ty}, store.shallowType levels found →
          (store.declare id name member).shallowType levels found :=
        fun hfound => shallowType_iff.mpr fun variant hvariant =>
          ih variant (shallowType_iff.mp hfound variant hvariant)
      refine ⟨by rw [size_declare]; exact hwhole.lt, fun key found hfound => hkeeps ?_, ?_⟩
      · rcases get?_declare hid hfound with hold | ⟨rfl, rfl, rfl⟩
        · exact hwhole.members key found hold
        · exact hmember (hwhole.levels_lt_of_known hslot)
      · rw [hkind, constant_declare hid]
        exact hwhole.known

end TypeStore

open TypeStore

/-- A computation that may exceed its bound does not, and leads to a related store and to a result
as described. -/
def JoinM.Ends {α : Type} (R : TypeStore → TypeStore → Prop) (store : TypeStore)
    (computation : JoinM α) (post : α → TypeStore → Prop) : Prop :=
  ∃ result next, computation store = some (result, next) ∧ R store next ∧ post result next

namespace JoinM.Ends

variable {α β : Type} {R : TypeStore → TypeStore → Prop} {store : TypeStore}
  {post : α → TypeStore → Prop} {rest : β → TypeStore → Prop}

theorem ofTypes {computation : TypeM α} (h : TypeM.Leads R store computation post) :
    Ends R store (JoinM.ofTypes computation) post :=
  ⟨_, _, rfl, h⟩

theorem shapeOf_bind {f : Shape → JoinM β} {id : TypeId}
    (hf : Ends R store (f (store.shape id)) rest) :
    Ends R store (JoinM.ofTypes (shapeOf id) >>= f) rest :=
  hf

variable [IsPreorder TypeStore R]

theorem pure {result : α} (h : post result store) : Ends R store (Pure.pure result) post :=
  ⟨result, store, rfl, refl_of R store, h⟩

theorem bind {computation : JoinM α} {f : α → JoinM β} (h : Ends R store computation post)
    (hf : ∀ result next, R store next → post result next → Ends R next (f result) rest) :
    Ends R store (computation >>= f) rest := by
  obtain ⟨result, next, hrun, hnext, hpost⟩ := h
  obtain ⟨last, after, hlast, hafter, hrest⟩ := hf result next hnext hpost
  exact ⟨last, after, (bind_eq_of_some hrun).trans hlast, trans_of R hnext hafter, hrest⟩

end JoinM.Ends

namespace Ty

open TypeM (Follows Leads)
open JoinM (ofTypes Ends)

variable {store next : TypeStore} {levels : Nat}

theorem shallow_ofValue {value : Value} (h : value.levels < levels) :
    Leads KeepsShallow store (ofValue value) fun ty next => next.shallowType levels ty := by
  have hmakes : Makes store (ofValue value store).2 := makes_ofValue store value
  refine ⟨keepsShallow_of_shape_eq hmakes.size_le hmakes.shape_eq, ?_⟩
  obtain ⟨id, hid, hcopy⟩ := copies_ofValue store value
  obtain ⟨other, hother, hreflects⟩ := (mirrors_ofValue store value).exists_reflects
  obtain ⟨constant, hconstant, halike⟩ := hreflects.constant
  rw [hid] at hother ⊢
  cases hother
  cases levels with
  | zero => cases h
  | succ levels =>
      rw [shallowType_plain, shallow_succ_iff]
      refine ⟨hcopy.lt, fun name member hfound => ?_, fun hhas hfound => ?_⟩
      · rw [hcopy.members] at hfound
        cases hfound
      · rw [hconstant] at hfound
        cases hfound
        rw [← Value.levels_untagged, ← Value.isPrimitive_untagged, halike, Value.levels_untagged,
          Value.isPrimitive_untagged]
        exact ⟨Value.isPrimitive_of_hasMembers (hreflects.kind ▸ hhas), Nat.le_of_lt_succ h⟩

theorem shallow_declaredMember (id : Nat) (name : String) :
    Leads KeepsShallow store (declaredMember id name) fun result next =>
      ∀ {levels : Nat} {member : Ty}, store.shallow (levels + 1) id → result = some member →
        next.shallowType levels member := by
  cases hslot : (store.shape id).slot? name with
  | none =>
      rw [TypeM.Leads, declaredMember_of_none hslot]
      exact ⟨refl_of KeepsShallow store, fun _ h => (nomatch h)⟩
  | some slot =>
      cases slot with
      | declared member =>
          rw [TypeM.Leads, declaredMember_of_declared hslot]
          refine ⟨refl_of KeepsShallow store, fun hshallow h => ?_⟩
          cases h
          exact (shallow_succ_iff.mp hshallow).members name member
            (Shape.slot?_eq_declared_iff.mp hslot)
      | known value =>
          have hvalue : ∀ {levels : Nat}, value.levels < levels →
              (ofValue value store).2.shallowType levels (ofValue value store).1 :=
            fun hlevels => (shallow_ofValue hlevels).2
          have hmade : KeepsShallow store (ofValue value store).2 :=
            (shallow_ofValue (Nat.lt_succ_self value.levels)).1
          have hinner : ∀ {levels : Nat}, store.shallow (levels + 1) id → value.levels < levels :=
            fun hshallow => (shallow_succ_iff.mp hshallow).levels_lt_of_known hslot
          cases hrecord : (store.shape id).isRecord with
          | false =>
              rw [TypeM.Leads, declaredMember_of_not_record hslot hrecord]
              refine ⟨hmade, fun hshallow h => ?_⟩
              cases h
              exact hvalue (hinner hshallow)
          | true =>
              have hmakes : Makes store (ofValue value store).2 := makes_ofValue store value
              have hshape := hmakes.shape_eq (lt_of_slot? hslot)
              have hdeclare := keepsShallow_declare (hshape ▸ hslot) hvalue
              rw [TypeM.Leads, declaredMember_of_record hslot hrecord]
              refine ⟨trans_of KeepsShallow hmade hdeclare, fun hshallow h => ?_⟩
              cases h
              exact hdeclare.type (hvalue (hinner hshallow))

theorem keepsShallow_equivalent (a b : Ty) : Follows KeepsShallow store (equivalent a b) :=
  follows_equivalent (R := KeepsShallow) store
    (fun _ id name => (shallow_declaredMember id name).1) a b

/-- A type without its constant leads no further than with it. -/
theorem shallow_widenPlain {id : Nat} (h : store.shallow levels id) :
    Leads KeepsShallow store (widenPlain id) fun wide next => next.shallow levels wide := by
  obtain heq | heq : widenPlain id store = (id, store) ∨ widenPlain id store =
      (store.shapes.size, store.add { store.shape id with constant := none }) := by
    cases hconstant : (store.shape id).constant with
    | none => exact .inl (widenPlain_of_none hconstant)
    | some constant =>
        by_cases hnull : (store.shape id).kind = .null ∨ (store.shape id).kind = .undefined
        · exact .inl (widenPlain_of_null hnull)
        · rw [not_or] at hnull
          exact .inr (widenPlain_of_some hconstant hnull.1 hnull.2)
  · rw [TypeM.Leads, heq]
    exact ⟨refl_of KeepsShallow store, h⟩
  · rw [TypeM.Leads, heq]
    refine ⟨keepsShallow_add store _, ?_⟩
    cases levels with
    | zero => cases h
    | succ levels => exact shallow_add rfl (shallow_succ_iff.mp h).members

theorem shallow_alloc {shape : Shape} (hconstant : shape.constant = none)
    (hmembers : store.ShallowRecord levels shape.members) :
    Leads KeepsShallow store (alloc shape) fun id next => next.shallow (levels + 1) id :=
  ⟨keepsShallow_add store shape, shallow_add hconstant hmembers⟩

theorem shallow_unknown (store : TypeStore) (levels : Nat) :
    Leads KeepsShallow store unknown fun ty next => next.shallowType (levels + 1) ty := by
  apply (shallow_alloc rfl (shallowRecord_nil store levels)).bind
  intro id next _ hid
  exact .pure (by rwa [shallowType_plain])

/-! ## Joining -/

def Merger.EndsWithin (levels : Nat) (merger : Merger) : Prop :=
  ∀ {store : TypeStore} {a b : Nat}, store.shallow levels a → store.shallow levels b →
    (merger a b).Ends KeepsShallow store fun result next =>
      ∀ merged, result = some merged → next.shallow levels merged

variable {merger deeper restart : Merger}

theorem ends_absorb (h : merger.EndsWithin levels) {incoming : Nat}
    (hincoming : store.shallow levels incoming) {variants : List Nat}
    (hvariants : ∀ id ∈ variants, store.shallow levels id) :
    (absorb merger incoming variants).Ends KeepsShallow store fun result next =>
      ∀ id ∈ result, next.shallow levels id := by
  induction variants generalizing store with
  | nil => exact .pure fun id hid => List.mem_singleton.mp hid ▸ hincoming
  | cons existing rest ih =>
      rw [List.forall_mem_cons] at hvariants
      apply (h hvariants.1 hincoming).bind
      intro merged? next hnext hmerged
      have hexisting := hnext _ _ hvariants.1
      have hrest := fun id hid => hnext _ _ (hvariants.2 id hid)
      cases merged? with
      | some merged => exact .pure (List.forall_mem_cons.mpr ⟨hmerged merged rfl, hrest⟩)
      | none =>
          apply (ih (hnext _ _ hincoming) hrest).bind
          intro variants last hlast hvariants
          exact .pure (List.forall_mem_cons.mpr ⟨hlast _ _ hexisting, hvariants⟩)

theorem ends_foldlM_absorb (h : merger.EndsWithin levels) {incoming variants : List Nat}
    (hincoming : ∀ id ∈ incoming, store.shallow levels id)
    (hvariants : ∀ id ∈ variants, store.shallow levels id) :
    (incoming.foldlM (fun variants id => absorb merger id variants) variants).Ends KeepsShallow
      store fun result next => ∀ id ∈ result, next.shallow levels id := by
  induction incoming generalizing store variants with
  | nil => exact .pure hvariants
  | cons first rest ih =>
      rw [List.forall_mem_cons] at hincoming
      rw [List.foldlM_cons]
      apply (ends_absorb h hincoming.1 hvariants).bind
      intro absorbed next hnext habsorbed
      exact ih (fun id hid => hnext _ _ (hincoming.2 id hid)) habsorbed

theorem levels_pos_of_isUnknown {ty : Ty} (hty : store.shallowType levels ty)
    (h : (ty.isUnknown store).1 = true) : 0 < levels := by
  cases ty with
  | union variants => cases h
  | plain id =>
      rw [shallowType_plain] at hty
      exact Nat.pos_of_ne_zero (by rintro rfl; cases hty)

theorem ends_joinWith (h : merger.EndsWithin levels) {a b : Ty} (ha : store.shallowType levels a)
    (hb : store.shallowType levels b) :
    (joinWith merger a b).Ends KeepsShallow store fun joined next =>
      next.shallowType levels joined := by
  have hunknown : ∀ {ty : Ty} (store : TypeStore), store.shallowType levels ty →
      (ofTypes ty.isUnknown).Ends KeepsShallow store fun found _ => found = true → 0 < levels :=
    fun store hty =>
      .ofTypes ⟨follows_isUnknown (R := KeepsShallow) store _, levels_pos_of_isUnknown hty⟩
  apply (hunknown store ha).bind
  intro left next hnext hleft
  apply (hunknown next (hnext.type hb)).bind
  intro right after hafter hright
  have hall := trans_of KeepsShallow hnext hafter
  split
  · rename_i heither
    obtain ⟨fewer, rfl⟩ := Nat.exists_eq_add_of_lt
      ((Bool.or_eq_true_iff.mp heither).elim hleft hright)
    rw [Nat.zero_add]
    exact .ofTypes (shallow_unknown after fewer)
  · apply (ends_foldlM_absorb h (shallowType_iff.mp (hall.type hb))
      (shallowType_iff.mp (hall.type ha))).bind
    intro variants last _ hvariants
    exact .pure (shallowType_iff.mpr (by rwa [variants_ofVariants]))

theorem ends_joinMemberWith (hdeeper : deeper.EndsWithin levels)
    (hrestart : restart.EndsWithin levels) {x y : Ty} (hx : store.shallowType levels x)
    (hy : store.shallowType levels y) :
    (joinMemberWith deeper restart x y).Ends KeepsShallow store fun joined next =>
      next.shallowType levels joined := by
  unfold joinMemberWith
  split
  · rename_i x y
    rw [shallowType_plain] at hx hy
    apply (hdeeper hx hy).bind
    intro merged? next hnext hmerged
    cases merged? with
    | some merged => exact .pure (by rw [shallowType_plain]; exact hmerged merged rfl)
    | none =>
        rw [← shallowType_plain] at hx hy
        exact ends_joinWith hrestart (hnext.type hx) (hnext.type hy)
  · exact ends_joinWith hrestart hx hy

theorem ends_joinMembers {joinMember : Ty → Ty → JoinM Ty}
    (hjoin : ∀ {store : TypeStore} {x y : Ty}, store.shallowType levels x →
      store.shallowType levels y → (joinMember x y).Ends KeepsShallow store fun joined next =>
        next.shallowType levels joined)
    {a b : Nat} (ha : store.shallow (levels + 1) a) (hb : store.shallow (levels + 1) b)
    (names : List String) {record : List (String × Ty)}
    (hrecord : store.ShallowRecord levels record) :
    (joinMembers joinMember a b names record).Ends KeepsShallow store fun result next =>
      next.ShallowRecord levels result := by
  induction names generalizing store record with
  | nil => exact .pure hrecord
  | cons name rest ih =>
      apply (Ends.ofTypes (shallow_declaredMember a name)).bind
      intro left next hnext hleft
      apply (Ends.ofTypes (shallow_declaredMember b name)).bind
      intro right after hafter hright
      have hall := trans_of KeepsShallow hnext hafter
      have hrecord := hall.record hrecord
      have hleft : ∀ x, left = some x → after.shallowType levels x :=
        fun x hx => hafter.type (hleft ha hx)
      have hright : ∀ y, right = some y → after.shallowType levels y :=
        fun y hy => hright (hnext _ _ hb) hy
      have ha := hall _ _ ha
      have hb := hall _ _ hb
      match left, right with
      | some x, some y =>
          apply (hjoin (hleft x rfl) (hright y rfl)).bind
          intro joined last hlast hjoined
          exact ih (hlast _ _ ha) (hlast _ _ hb) ((hlast.record hrecord).insert hjoined)
      | some only, none => exact ih ha hb (hrecord.insert (hleft only rfl))
      | none, some only => exact ih ha hb (hrecord.insert (hright only rfl))
      | none, none => exact ih ha hb hrecord

theorem ends_mergeStep (hdeeper : deeper.EndsWithin levels) (hrestart : restart.EndsWithin levels)
    (tooDeep : Bool) :
    (mergeStep (fun _ _ => true) tooDeep deeper restart).EndsWithin (levels + 1) := by
  intro store a b ha hb
  unfold mergeStep
  simp only [guard_or_true, pure_bind]
  split
  · exact .pure fun merged h => Option.some.inj h ▸ ha
  refine Ends.shapeOf_bind (Ends.shapeOf_bind ?_)
  split
  · apply Ends.bind (.ofTypes (shallow_alloc rfl (shallowRecord_nil store levels)))
    intro unknown next _ hunknown
    exact .pure fun merged h => Option.some.inj h ▸ hunknown
  split
  · exact .pure fun merged h => (nomatch h)
  apply (Ends.ofTypes (TypeM.Leads.of_follows (keepsShallow_equivalent _ _))).bind
  intro same next hnext _
  have ha := hnext _ _ ha
  have hb := hnext _ _ hb
  split
  · exact .pure fun merged h => (nomatch h)
  split
  · exact Ends.pure fun merged h => Option.some.inj h ▸ ha
  split
  · apply (Ends.ofTypes (shallow_widenPlain ha)).bind
    intro wide last _ hwide
    exact .pure fun merged h => Option.some.inj h ▸ hwide
  refine Ends.shapeOf_bind (Ends.shapeOf_bind ?_)
  apply (ends_joinMembers (ends_joinMemberWith hdeeper hrestart) ha hb _
    (shallowRecord_nil next levels)).bind
  intro members last _ hmembers
  apply Ends.bind (.ofTypes (shallow_alloc rfl hmembers))
  intro merged after _ hmerged
  exact .pure fun _ h => Option.some.inj h ▸ hmerged

theorem ends_merge (levels depth : Nat) : Merger.EndsWithin levels (merge levels depth) := by
  induction levels generalizing depth with
  | zero => exact fun ha _ => (nomatch ha)
  | succ levels ih =>
      intro store a b ha hb
      rw [merge_succ]
      exact ends_mergeStep (ih (depth + 1)) (ih 0) _ ha hb

/-- **Joins of types that do not lead around in circles end.**  If every way along members ends
after fewer levels than given, so often a join need not nest, and what it gives leads no further. -/
theorem join_of_shallow {a b : Ty} (ha : store.shallowType levels a)
    (hb : store.shallowType levels b) :
    ∃ joined next, next.shallowType levels joined ∧
      ∀ bound, levels ≤ bound → join bound a b store = some (joined, next) := by
  obtain ⟨joined, next, hrun, -, hjoined⟩ := ends_joinWith (ends_merge levels 0) ha hb
  refine ⟨joined, next, hjoined, fun bound hle => ?_⟩
  exact below_joinWith (merge_below_of_le hle 0) a b store (joined, next) hrun

example : knotted.shallowType 1 (plain 0) = true ∧ knotted.shallowType 16 (plain 1) = false := by
  decide +kernel

end Ty

end ScriptCheck
