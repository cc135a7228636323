import ScriptCheck.Proofs.Types.Make
import ScriptCheck.Proofs.Types.Slot

/-!
# Looking at types

Looking at the members of types makes types and, for known objects, declares the members
that are asked for.  What a plain type has under a name stays the same all the while, but
for a known value that becomes the type that mirrors it.
-/

namespace ScriptCheck

namespace TypeStore

inductive Look : TypeStore → TypeStore → Prop where
  | make {store next : TypeStore} (h : Make store next) : Look store next
  | declare {store : TypeStore} {id : TypeId} {name : String} {member : Ty} {value : Value}
      (hslot : (store.shape id).slot? name = some (.known value))
      (hrecord : (store.shape id).isRecord = true) (hmirrors : store.Mirrors member value) :
      Look store (store.declare id name member)

def Looks : TypeStore → TypeStore → Prop := Relation.ReflTransGen Look

instance : IsPreorder TypeStore Looks where
  refl _ := Relation.ReflTransGen.refl
  trans _ _ _ := Relation.ReflTransGen.trans

variable {store next last : TypeStore}

theorem Makes.looks (h : Makes store next) : Looks store next :=
  Relation.ReflTransGen.mono (fun _ _ => Look.make) _ _ h

/-- A later store has all the types of an earlier one.  They are what they were, but that
some of their known members have been declared. -/
structure Later (before after : TypeStore) : Prop where
  size_le : before.shapes.size ≤ after.shapes.size
  outline : ∀ {id : Nat}, id < before.shapes.size →
    (after.shape id).outline = (before.shape id).outline
  constant : ∀ {id : Nat}, id < before.shapes.size →
    (after.shape id).constant = (before.shape id).constant
  declared : ∀ {id : Nat} {name : String} {member : Ty}, id < before.shapes.size →
    Record.get? name (before.shape id).members = some member →
      Record.get? name (after.shape id).members = some member
  mirrors : ∀ {id : Nat} {name : String} {member : Ty}, id < before.shapes.size →
    Record.get? name (before.shape id).members = none →
      Record.get? name (after.shape id).members = some member →
        (before.shape id).isRecord = true ∧
          ∃ value, (before.shape id).value? name = some value ∧ after.Mirrors member value

theorem kind_of_outline {a b : Shape} (h : a.outline = b.outline) : a.kind = b.kind := by
  have hsame := congrArg Shape.kind h
  exact hsame

theorem callable_of_outline {a b : Shape} (h : a.outline = b.outline) :
    a.callable = b.callable := by
  have hsame := congrArg Shape.callable h
  exact hsame

theorem lt_of_slot? {id : TypeId} {name : String} {slot : Slot}
    (h : (store.shape id).slot? name = some slot) : id < store.shapes.size := by
  by_contra hge
  rw [shape_of_size_le (Nat.le_of_not_lt hge)] at h
  cases h

section declare

variable {id : TypeId} {name : String} {member : Ty}

theorem size_declare : (store.declare id name member).shapes.size = store.shapes.size :=
  size_modify store id _

theorem shape_declare_of_ne {other : Nat} (h : other ≠ id) :
    (store.declare id name member).shape other = store.shape other :=
  shape_modify_of_ne h _ store

theorem shape_declare_self (hid : id < store.shapes.size) :
    (store.declare id name member).shape id =
      { store.shape id with members := Record.insert name member (store.shape id).members } :=
  shape_modify_self hid _

theorem outline_declare (hid : id < store.shapes.size) (other : Nat) :
    ((store.declare id name member).shape other).outline = (store.shape other).outline := by
  by_cases heq : other = id
  · subst heq
    rw [shape_declare_self hid]
    rfl
  · rw [shape_declare_of_ne heq]

theorem constant_declare (hid : id < store.shapes.size) (other : Nat) :
    ((store.declare id name member).shape other).constant = (store.shape other).constant := by
  by_cases heq : other = id
  · subst heq
    rw [shape_declare_self hid]
  · rw [shape_declare_of_ne heq]

theorem get?_declare (hid : id < store.shapes.size) {other : Nat} {key : String} {found : Ty}
    (h : Record.get? key ((store.declare id name member).shape other).members = some found) :
    Record.get? key (store.shape other).members = some found ∨
      other = id ∧ key = name ∧ found = member := by
  by_cases heq : other = id
  · subst heq
    rw [shape_declare_self hid] at h
    by_cases hkey : key = name
    · subst hkey
      rw [Record.get?_insert_self] at h
      exact .inr ⟨rfl, rfl, (Option.some.inj h).symm⟩
    · rw [Record.get?_insert_of_ne hkey] at h
      exact .inl h
  · rw [shape_declare_of_ne heq] at h
    exact .inl h

/-- What was declared before stays, if the new member has a name of its own. -/
theorem get?_declare_of_some (hid : id < store.shapes.size)
    (hnew : Record.get? name (store.shape id).members = none) {other : Nat} {key : String}
    {found : Ty} (h : Record.get? key (store.shape other).members = some found) :
    Record.get? key ((store.declare id name member).shape other).members = some found := by
  by_cases heq : other = id
  · subst heq
    have hkey : key ≠ name := by
      rintro rfl
      rw [hnew] at h
      cases h
    rw [shape_declare_self hid, Record.get?_insert_of_ne hkey, h]
  · rw [shape_declare_of_ne heq, h]

end declare

namespace Later

theorem kind (h : Later store next) {id : Nat} (hid : id < store.shapes.size) :
    (next.shape id).kind = (store.shape id).kind :=
  kind_of_outline (h.outline hid)

theorem callable (h : Later store next) {id : Nat} (hid : id < store.shapes.size) :
    (next.shape id).callable = (store.shape id).callable :=
  callable_of_outline (h.outline hid)

theorem value? (h : Later store next) {id : Nat} (hid : id < store.shapes.size) (name : String) :
    (next.shape id).value? name = (store.shape id).value? name := by
  unfold Shape.value?
  rw [h.kind hid, h.constant hid]

theorem isRecord (h : Later store next) {id : Nat} (hid : id < store.shapes.size) :
    (next.shape id).isRecord = (store.shape id).isRecord := by
  unfold Shape.isRecord
  rw [h.constant hid]

theorem lt (h : Later store next) {id : Nat} (hid : id < store.shapes.size) :
    id < next.shapes.size :=
  Nat.lt_of_lt_of_le hid h.size_le

end Later

/-- Types go on to mirror values one level further, given that what was declared in the
meantime does. -/
theorem Mirrors.succ {depth : Nat} {ty : Ty} {value : Value} (h : store.Mirrors ty value)
    (hsize : store.shapes.size ≤ next.shapes.size)
    (houtline : ∀ {id : Nat}, id < store.shapes.size →
      (next.shape id).outline = (store.shape id).outline)
    (hconstant : ∀ {id : Nat}, id < store.shapes.size →
      (next.shape id).constant = (store.shape id).constant)
    (hmember : ∀ {id : Nat} {name : String} {member : Ty}, id < store.shapes.size →
      Record.get? name (next.shape id).members = some member →
        Record.get? name (store.shape id).members = some member ∨
        ∃ value, (store.shape id).value? name = some value ∧ next.MirrorsTo depth member value)
    (hdepth : ∀ {ty : Ty} {value : Value}, store.Mirrors ty value →
      next.MirrorsTo depth ty value) : next.MirrorsTo (depth + 1) ty value := by
  obtain ⟨id, rfl, hreflects⟩ := h.exists_reflects
  obtain ⟨constant, hfound, halike⟩ := hreflects.constant
  refine ⟨id, rfl, Nat.lt_of_lt_of_le hreflects.lt hsize, ?_, ?_, ?_, ?_, ?_⟩
  · rw [kind_of_outline (houtline hreflects.lt), hreflects.kind]
  · exact fun hstring =>
      Shape.isTextual_of_outline (houtline hreflects.lt) (hreflects.textual hstring)
  · rw [callable_of_outline (houtline hreflects.lt), hreflects.callable]
  · rw [hconstant hreflects.lt]
    exact hreflects.constant
  · intro name member hget
    rcases hmember hreflects.lt hget with hold | ⟨found, hvalue, hnew⟩
    · obtain ⟨inner, hinner, hmirrors⟩ := hreflects.member name member hold
      exact ⟨inner, hinner, hdepth hmirrors⟩
    · have hinner : constant.get? name = some found := by
        unfold Shape.value? at hvalue
        rw [hfound] at hvalue
        split at hvalue
        · exact hvalue
        · cases hvalue
      obtain ⟨inner, hsome, hsame⟩ := Value.get?_of_untagged halike hinner
      exact ⟨inner, hsome, hnew.congr hsame⟩

theorem Mirrors.of_later {ty : Ty} {value : Value} (h : store.Mirrors ty value)
    (hlater : Later store next) : next.Mirrors ty value := by
  intro depth
  induction depth generalizing ty value with
  | zero => trivial
  | succ depth ih =>
      refine h.succ hlater.size_le hlater.outline hlater.constant ?_ ih
      intro id name member hid hmember
      cases hold : Record.get? name (store.shape id).members with
      | none =>
          obtain ⟨-, found, hvalue, hmirrors⟩ := hlater.mirrors hid hold hmember
          exact .inr ⟨found, hvalue, hmirrors depth⟩
      | some old =>
          have hsame := hlater.declared hid hold
          rw [hmember] at hsame
          exact .inl hsame.symm

namespace Later

theorem refl (store : TypeStore) : Later store store where
  size_le := Nat.le_refl _
  outline _ := rfl
  constant _ := rfl
  declared _ h := h
  mirrors _ hnone hsome := by
    rw [hnone] at hsome
    cases hsome

theorem trans (h : Later store next) (hlast : Later next last) : Later store last where
  size_le := Nat.le_trans h.size_le hlast.size_le
  outline hid := (hlast.outline (h.lt hid)).trans (h.outline hid)
  constant hid := (hlast.constant (h.lt hid)).trans (h.constant hid)
  declared hid hmember := hlast.declared (h.lt hid) (h.declared hid hmember)
  mirrors {id name member} hid hnone hsome := by
    cases hold : Record.get? name (next.shape id).members with
    | none =>
        obtain ⟨hrecord, value, hvalue, hmirrors⟩ := hlast.mirrors (h.lt hid) hold hsome
        exact ⟨by rw [← h.isRecord hid, hrecord], value, by rw [← h.value? hid, hvalue], hmirrors⟩
    | some old =>
        obtain ⟨hrecord, value, hvalue, hmirrors⟩ := h.mirrors hid hnone hold
        have hsame := hlast.declared (h.lt hid) hold
        rw [hsome] at hsame
        cases hsame
        exact ⟨hrecord, value, hvalue, hmirrors.of_later hlast⟩

theorem slot?_of_declared (h : Later store next) {id : Nat} {name : String} {member : Ty}
    (hslot : (store.shape id).slot? name = some (.declared member)) :
    (next.shape id).slot? name = some (.declared member) :=
  Shape.slot?_eq_declared_iff.mpr
    (h.declared (lt_of_slot? hslot) (Shape.slot?_eq_declared_iff.mp hslot))

theorem slot?_of_known (h : Later store next) {id : Nat} {name : String} {value : Value}
    (hslot : (store.shape id).slot? name = some (.known value))
    (hrecord : (store.shape id).isRecord = false) :
    (next.shape id).slot? name = some (.known value) := by
  have hid := lt_of_slot? hslot
  obtain ⟨hnone, hvalue⟩ := Shape.slot?_eq_known_iff.mp hslot
  apply Shape.slot?_eq_known_iff.mpr
  cases hmember : Record.get? name (next.shape id).members with
  | none => exact ⟨rfl, by rw [h.value? hid, hvalue]⟩
  | some member =>
      obtain ⟨htrue, -⟩ := h.mirrors hid hnone hmember
      rw [hrecord] at htrue
      cases htrue

theorem slot?_eq_none_iff (h : Later store next) {id : Nat} (hid : id < store.shapes.size)
    (name : String) : (next.shape id).slot? name = none ↔ (store.shape id).slot? name = none := by
  rw [Shape.slot?_eq_none_iff, Shape.slot?_eq_none_iff, h.value? hid]
  constructor
  · rintro ⟨hnone, hvalue⟩
    refine ⟨?_, hvalue⟩
    cases hmember : Record.get? name (store.shape id).members with
    | none => rfl
    | some member =>
        rw [h.declared hid hmember] at hnone
        cases hnone
  · rintro ⟨hnone, hvalue⟩
    refine ⟨?_, hvalue⟩
    cases hmember : Record.get? name (next.shape id).members with
    | none => rfl
    | some member =>
        obtain ⟨-, found, hfound, -⟩ := h.mirrors hid hnone hmember
        rw [hvalue] at hfound
        cases hfound

/-- Types that keep their shapes are what they were. -/
theorem of_shape_eq (hsize : store.shapes.size ≤ next.shapes.size)
    (h : ∀ {id : Nat}, id < store.shapes.size → next.shape id = store.shape id) :
    Later store next where
  size_le := hsize
  outline hid := by rw [h hid]
  constant hid := by rw [h hid]
  declared hid hmember := by rwa [h hid]
  mirrors hid hnone hsome := by
    rw [h hid, hnone] at hsome
    cases hsome

theorem add (store : TypeStore) (shape : Shape) : Later store (store.add shape) :=
  of_shape_eq (by simp [TypeStore.add]) fun hid => shape_add_of_lt hid shape

theorem declare {id : TypeId} {name : String} {member : Ty} {value : Value}
    (hslot : (store.shape id).slot? name = some (.known value))
    (hrecord : (store.shape id).isRecord = true) (hmirrors : store.Mirrors member value) :
    Later store (store.declare id name member) := by
  have hid := lt_of_slot? hslot
  obtain ⟨hnew, hvalue⟩ := Shape.slot?_eq_known_iff.mp hslot
  have hsize : store.shapes.size ≤ (store.declare id name member).shapes.size :=
    Nat.le_of_eq size_declare.symm
  have hstays : ∀ depth {ty : Ty} {value : Value}, store.Mirrors ty value →
      (store.declare id name member).MirrorsTo depth ty value := by
    intro depth
    induction depth with
    | zero => exact fun _ => trivial
    | succ depth ih =>
        intro ty value h
        refine h.succ hsize (fun _ => outline_declare hid _) (fun _ => constant_declare hid _) ?_ ih
        intro other key found _ hfound
        rcases get?_declare hid hfound with hold | ⟨rfl, rfl, rfl⟩
        · exact .inl hold
        · exact .inr ⟨_, hvalue, ih hmirrors⟩
  refine ⟨hsize, fun _ => outline_declare hid _, fun _ => constant_declare hid _,
    fun _ => get?_declare_of_some hid hnew, ?_⟩
  intro other key found _ hnone hfound
  rcases get?_declare hid hfound with hold | ⟨rfl, rfl, rfl⟩
  · rw [hnone] at hold
    cases hold
  · exact ⟨hrecord, value, hvalue, fun depth => hstays depth hmirrors⟩

end Later

theorem Look.later (h : Look store next) : Later store next := by
  cases h with
  | make h => exact .of_shape_eq h.size_le h.shape_eq
  | declare hslot hrecord hmirrors => exact .declare hslot hrecord hmirrors

theorem Looks.later (h : Looks store next) : Later store next := by
  induction h with
  | refl => exact .refl _
  | tail _ hstep ih => exact ih.trans hstep.later

/-! ## Lawful stores -/

/-- A store has all variants of a type, and something is known of each where there are
several. -/
structure Has (store : TypeStore) (ty : Ty) : Prop where
  lt : ∀ {id : Nat}, id ∈ ty.variants → id < store.shapes.size
  known : ty.isUnion = true → ∀ {id : Nat}, id ∈ ty.variants → (store.shape id).kind ≠ .unknown

def Knows (store : TypeStore) (id : Nat) : Prop :=
  id < store.shapes.size ∧ (store.shape id).kind ≠ .unknown

/-- The shapes of a store are lawful, and the store has the types of their members. -/
structure Lawful (store : TypeStore) : Prop where
  shape : ∀ {id : Nat}, (store.shape id).Lawful
  has : ∀ {id : Nat} {name : String} {member : Ty},
    Record.get? name (store.shape id).members = some member → store.Has member

theorem Has.of_later {ty : Ty} (h : store.Has ty) (hlater : Later store next) : next.Has ty where
  lt hid := hlater.lt (h.lt hid)
  known hunion id hid := by
    rw [hlater.kind (h.lt hid)]
    exact h.known hunion hid

theorem has_plain {id : Nat} (h : id < store.shapes.size) : store.Has (.plain id) where
  lt hother := by rwa [List.mem_singleton.mp hother]
  known hunion := by cases hunion

theorem Knows.of_later {id : Nat} (h : store.Knows id) (hlater : Later store next) :
    next.Knows id := by
  refine ⟨hlater.lt h.1, ?_⟩
  rw [hlater.kind h.1]
  exact h.2

theorem has_union {variants : List TypeId} :
    store.Has (.union variants) ↔ ∀ id ∈ variants, store.Knows id :=
  ⟨fun h _ hid => ⟨h.lt hid, h.known rfl hid⟩,
    fun h => ⟨fun hid => (h _ hid).1, fun _ _ hid => (h _ hid).2⟩⟩

theorem has_union_cons {id : TypeId} {variants : List TypeId} :
    store.Has (.union (id :: variants)) ↔ store.Knows id ∧ store.Has (.union variants) := by
  rw [has_union, has_union, List.forall_mem_cons]

theorem Mirrors.has {ty : Ty} {value : Value} (h : store.Mirrors ty value) : store.Has ty := by
  obtain ⟨id, rfl, hreflects⟩ := h.exists_reflects
  exact has_plain hreflects.lt

namespace Lawful

theorem add (h : store.Lawful) {shape : Shape} (hshape : shape.Lawful)
    (hmembers : ∀ name member, Record.get? name shape.members = some member → store.Has member) :
    (store.add shape).Lawful := by
  have hlater := Later.add store shape
  constructor
  · intro id
    rcases shape_add_cases store shape id with hold | hself
    · rw [hold]
      exact h.shape
    · rwa [hself]
  · intro id name member hmember
    rcases shape_add_cases store shape id with hold | hself
    · rw [hold] at hmember
      exact (h.has hmember).of_later hlater
    · rw [hself] at hmember
      exact (hmembers name member hmember).of_later hlater

theorem of_make (h : store.Lawful) (hmake : Make store next) : next.Lawful := by
  have hlater := (Look.make hmake).later
  cases hmake with
  | tag => exact ⟨h.shape, fun hmember => (h.has hmember).of_later hlater⟩
  | bare hlawful hmembers =>
      apply h.add hlawful
      intro name member hmember
      rw [hmembers] at hmember
      cases hmember
  | widened hnull hundefined =>
      exact h.add (h.shape.general hnull hundefined h.shape.members) fun _ _ => h.has

theorem of_look (h : store.Lawful) (hlook : Look store next) : next.Lawful := by
  have hlater := hlook.later
  cases hlook with
  | make hmake => exact h.of_make hmake
  | @declare id name member value hslot hrecord hmirrors =>
      have hid := lt_of_slot? hslot
      have hhas := Shape.hasMembers_of_known hslot
      constructor
      · intro other
        by_cases heq : other = id
        · subst heq
          rw [shape_declare_self hid]
          exact { h.shape with members := fun hnone => by rw [hhas] at hnone; cases hnone }
        · rw [shape_declare_of_ne heq]
          exact h.shape
      · intro other key found hfound
        rcases get?_declare hid hfound with hold | ⟨rfl, rfl, rfl⟩
        · exact (h.has hold).of_later hlater
        · exact hmirrors.has.of_later hlater

theorem of_looks (h : store.Lawful) (hlooks : Looks store next) : next.Lawful := by
  induction hlooks with
  | refl => exact h
  | tail _ hstep ih => exact ih.of_look hstep

end Lawful

end TypeStore

open TypeStore

namespace Ty

open TypeM (Follows)

variable (store : TypeStore)

/-- Reading a member of a known object declares it. -/
theorem looks_declaredMember (id : TypeId) (name : String) :
    Follows Looks store (declaredMember id name) := by
  unfold Follows
  cases hslot : (store.shape id).slot? name with
  | none =>
      rw [declaredMember_of_none hslot]
      exact refl_of Looks store
  | some slot =>
      cases slot with
      | declared member =>
          rw [declaredMember_of_declared hslot]
          exact refl_of Looks store
      | known value =>
          have hmakes : Makes store (ofValue value store).2 := makes_ofValue store value
          have hshape := hmakes.shape_eq (lt_of_slot? hslot)
          cases hrecord : (store.shape id).isRecord with
          | false =>
              rw [declaredMember_of_not_record hslot hrecord]
              exact hmakes.looks
          | true =>
              rw [declaredMember_of_record hslot hrecord]
              refine Relation.ReflTransGen.tail hmakes.looks
                (.declare ?_ ?_ (mirrors_ofValue store value))
              · rw [hshape, hslot]
              · rw [hshape, hrecord]

theorem looks_equivalent (a b : Ty) : Follows Looks store (equivalent a b) :=
  follows_equivalent store looks_declaredMember a b

end Ty

end ScriptCheck
