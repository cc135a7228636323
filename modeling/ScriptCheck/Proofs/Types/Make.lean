import Mathlib.Data.List.Forall2
import Mathlib.Logic.Relation
import ScriptCheck.Proofs.Types.Follow
import ScriptCheck.Proofs.Value.Alike

/-!
# Making types

Types are made for values and for the general kinds, and a type may be copied without its
constant.  None of this touches the types that were there before.  The type made for a
value mirrors it: it has the value as its constant, up to identities, and whatever members
it declares mirror those of the value.
-/

namespace ScriptCheck

def Shape.outline (shape : Shape) : Shape := { shape with members := [], constant := none }

/-- Whether any member may be asked for, by a name or by a number. -/
def Shape.IsTextual (shape : Shape) : Prop :=
  shape.lenient = true ∧ shape.indexer.map Indexer.key = some .number

theorem Shape.isTextual_of_outline {a b : Shape} (h : a.outline = b.outline) (hb : b.IsTextual) :
    a.IsTextual := by
  have hlenient := congrArg Shape.lenient h
  have hindexer := congrArg Shape.indexer h
  change a.lenient = b.lenient at hlenient
  change a.indexer = b.indexer at hindexer
  unfold IsTextual
  rwa [hlenient, hindexer]

/-- Exactly functions call something, types without members declare none and cannot be
written to, and kinds with one value or with nothing known of them have the constant that
goes with that. -/
structure Shape.Lawful (shape : Shape) : Prop where
  callable : shape.kind = .function ↔ shape.callable.isSome
  members : Ty.hasMembers shape.kind = false → shape.members = []
  null : shape.kind = .null → shape.constant = some .null
  undefined : shape.kind = .undefined → shape.constant = some .undefined
  unknown : shape.kind = .unknown → shape.constant = none
  mutable : shape.mutable = true → shape.kind = .unknown ∨ Ty.hasMembers shape.kind = true

/-- A lawful shape stays lawful without its constant, unless its kind asks for one. -/
theorem Shape.Lawful.general {shape : Shape} (h : shape.Lawful) (hnull : shape.kind ≠ .null)
    (hundefined : shape.kind ≠ .undefined) {members : List (String × Ty)}
    (hmembers : Ty.hasMembers shape.kind = false → members = []) :
    ({ shape with constant := none, members } : Shape).Lawful where
  callable := h.callable
  members := hmembers
  null hkind := absurd hkind hnull
  undefined hkind := absurd hkind hundefined
  unknown _ := rfl
  mutable := h.mutable

namespace TypeStore

theorem shape_of_size_le {store : TypeStore} {id : Nat} (h : store.shapes.size ≤ id) :
    store.shape id = default := by
  simp [TypeStore.shape, Array.getElem?_eq_none h]

theorem shape_add_cases (store : TypeStore) (shape : Shape) (id : Nat) :
    (store.add shape).shape id = store.shape id ∨ (store.add shape).shape id = shape := by
  rcases Nat.lt_trichotomy id store.shapes.size with hlt | heq | hgt
  · exact .inl (shape_add_of_lt hlt shape)
  · exact .inr (by rw [heq, shape_add_self])
  · left
    rw [shape_of_size_le (Nat.le_of_lt hgt), shape_of_size_le]
    simpa [TypeStore.add] using Nat.succ_le_of_lt hgt

/-- A shape in a store that was written to is an old one or the one that was written. -/
theorem shape_modify_cases (store : TypeStore) (id : Nat) (f : Shape → Shape) (other : Nat) :
    (store.modify id f).shape other = store.shape other ∨
      other = id ∧ (store.modify id f).shape other = f (store.shape id) := by
  by_cases heq : other = id
  · subst heq
    by_cases hlt : other < store.shapes.size
    · exact .inr ⟨rfl, shape_modify_self hlt f⟩
    · have hge := Nat.le_of_not_lt hlt
      exact .inl (by rw [shape_of_size_le hge, shape_of_size_le (by rwa [size_modify])])
  · exact .inl (shape_modify_of_ne heq f store)

inductive Make : TypeStore → TypeStore → Prop where
  | tag (store : TypeStore) : Make store { store with nextTag := store.nextTag + 1 }
  | bare (store : TypeStore) {shape : Shape} (hlawful : shape.Lawful)
      (hmembers : shape.members = []) (hcallable : shape.callable = none) :
      Make store (store.add shape)
  | widened (store : TypeStore) {id : TypeId} (hnull : (store.shape id).kind ≠ .null)
      (hundefined : (store.shape id).kind ≠ .undefined) :
      Make store (store.add { store.shape id with constant := none })

def Makes : TypeStore → TypeStore → Prop := Relation.ReflTransGen Make

instance : IsPreorder TypeStore Makes where
  refl _ := Relation.ReflTransGen.refl
  trans _ _ _ := Relation.ReflTransGen.trans

variable {store next : TypeStore}

theorem Make.shape_eq (h : Make store next) {id : Nat} (hid : id < store.shapes.size) :
    next.shape id = store.shape id := by
  cases h with
  | tag => rfl
  | bare => exact shape_add_of_lt hid _
  | widened => exact shape_add_of_lt hid _

theorem Make.size_le (h : Make store next) : store.shapes.size ≤ next.shapes.size := by
  cases h with
  | tag => exact Nat.le_refl _
  | bare => simp [TypeStore.add]
  | widened => simp [TypeStore.add]

namespace Makes

theorem single (h : Make store next) : Makes store next := Relation.ReflTransGen.single h

theorem size_le (h : Makes store next) : store.shapes.size ≤ next.shapes.size := by
  induction h with
  | refl => exact Nat.le_refl _
  | tail _ hstep ih => exact Nat.le_trans ih hstep.size_le

theorem shape_eq (h : Makes store next) {id : Nat} (hid : id < store.shapes.size) :
    next.shape id = store.shape id := by
  induction h with
  | refl => rfl
  | tail hsteps hstep ih =>
      have hlt := Nat.lt_of_lt_of_le hid (Makes.size_le hsteps)
      rw [hstep.shape_eq hlt, ih]

end Makes

end TypeStore

open TypeStore

namespace Ty

open TypeM (Follows)

variable (store : TypeStore)

theorem makes_freshTag : Follows Makes store freshTag := .single (.tag store)

theorem makes_new {shape : Shape} (hlawful : shape.Lawful) (hmembers : shape.members = [])
    (hcallable : shape.callable = none) : Follows Makes store (new shape) :=
  Makes.single (.bare store hlawful hmembers hcallable)

theorem makes_unknown : Follows Makes store unknown :=
  makes_new store (by constructor <;> simp) rfl rfl

theorem makes_number : Follows Makes store number :=
  makes_new store (by constructor <;> simp) rfl rfl

theorem makes_boolean : Follows Makes store boolean :=
  makes_new store (by constructor <;> simp) rfl rfl

theorem makes_null : Follows Makes store null :=
  makes_new store (by constructor <;> simp) rfl rfl

theorem makes_undefined : Follows Makes store undefined :=
  makes_new store (by constructor <;> simp) rfl rfl

theorem makes_text (constant : Option Value) : Follows Makes store (do
    let shape ← stringShape
    new { shape with constant }) := by
  change Follows Makes store (new _ >>= fun element => new _)
  apply (makes_new store (by constructor <;> simp) rfl rfl).bind
  intro element next _
  exact makes_new next (by constructor <;> simp) rfl rfl

theorem makes_string : Follows Makes store string := makes_text store none

theorem makes_widenPlain (id : TypeId) : Follows Makes store (widenPlain id) := by
  apply Follows.shapeOf_bind
  split
  · exact .pure _
  · exact .pure _
  · exact .pure _
  · rename_i _ hnull hundefined
    exact Makes.single (.widened store hnull hundefined)

theorem makes_elementConstants (elements : List Ty) :
    Follows Makes store (elementConstants elements) :=
  (makes_freshTag store).bind fun _ _ _ => .pure _

theorem makes_arrayOf (constant : Option Value) (element : Option Ty) :
    Follows Makes store (arrayOf constant element) :=
  makes_new store (by constructor <;> simp [hasMembers]) rfl rfl

theorem makes_interchangeable (a b : TypeId) : Follows Makes store (interchangeable a b) := by
  have hread : ReaderFollows Makes noMembers := fun _ _ _ => .pure _
  apply (follows_assignableWithin store hread _ _ _).bind
  intro found next _
  split
  · exact follows_assignableWithin next hread _ _ _
  · exact .pure _

theorem makes_addGeneral (variants : List TypeId) (incoming : TypeId) :
    Follows Makes store (addGeneral variants incoming) := by
  apply (Follows.anyM fun existing next _ => makes_interchangeable next existing incoming).bind
  intro found next _
  split <;> exact .pure _

theorem makes_generalElement (elements : List Ty) :
    Follows Makes store (generalElement elements) := by
  refine Follows.bind (.foldlM fun variants id next _ => ?_) fun _ _ _ => .pure _
  exact (makes_widenPlain next id).bind fun _ after _ => makes_addGeneral after variants _

mutual

theorem makes_ofValue (start : TypeStore) (value : Value) :
    Follows Makes start (ofValue value) := by
  cases value with
  | undefined =>
      unfold ofValue
      exact makes_undefined start
  | null =>
      unfold ofValue
      exact makes_null start
  | bool b =>
      unfold ofValue
      exact makes_new start (by constructor <;> simp) rfl rfl
  | number x =>
      unfold ofValue
      exact makes_new start (by constructor <;> simp) rfl rfl
  | string s =>
      unfold ofValue
      exact makes_text start _
  | array tag values =>
      unfold ofValue
      apply (makes_ofValues start values).bind
      intro elements next _
      apply (makes_elementConstants next elements).bind
      intro constant after _
      exact (makes_generalElement after elements).bind fun _ last _ => makes_arrayOf last _ _
  | object tag members =>
      unfold ofValue
      exact makes_new start (by constructor <;> simp [hasMembers]) rfl rfl

theorem makes_ofValues (start : TypeStore) (values : List Value) :
    Follows Makes start (ofValues values) := by
  cases values with
  | nil =>
      unfold ofValues
      exact .pure _
  | cons value rest =>
      unfold ofValues
      apply (makes_ofValue start value).bind
      intro first next _
      exact (makes_ofValues next rest).bind fun _ _ _ => .pure _

end

end Ty

/-! ## Types that mirror values -/

namespace TypeStore

/-- A plain type stands for a known value, as far as its declared members stand for
those of the value. -/
structure Reflects (store : TypeStore) (inside : Ty → Value → Prop) (id : Nat) (value : Value) :
    Prop where
  lt : id < store.shapes.size
  kind : (store.shape id).kind = value.kind
  textual : value.kind = .string → (store.shape id).IsTextual
  callable : (store.shape id).callable = none
  constant : ∃ constant, (store.shape id).constant = some constant ∧
    constant.untagged = value.untagged
  member : ∀ name member, Record.get? name (store.shape id).members = some member →
    ∃ inner, value.get? name = some inner ∧ inside member inner

def MirrorsTo (store : TypeStore) : Nat → Ty → Value → Prop
  | 0, _, _ => True
  | depth + 1, ty, value => ∃ id, ty = .plain id ∧ store.Reflects (store.MirrorsTo depth) id value

/-- A type stands for a known value, and so do its members, however deep. -/
def Mirrors (store : TypeStore) (ty : Ty) (value : Value) : Prop :=
  ∀ depth, store.MirrorsTo depth ty value

variable {store next : TypeStore} {ty : Ty} {v w : Value}

theorem Mirrors.exists_reflects (h : store.Mirrors ty v) :
    ∃ id, ty = .plain id ∧ store.Reflects store.Mirrors id v := by
  obtain ⟨id, rfl, hreflects⟩ := h 1
  refine ⟨id, rfl, hreflects.lt, hreflects.kind, hreflects.textual, hreflects.callable,
    hreflects.constant, ?_⟩
  intro name member hmember
  obtain ⟨inner, hinner, -⟩ := hreflects.member name member hmember
  refine ⟨inner, hinner, fun depth => ?_⟩
  obtain ⟨_, hid, hdeep⟩ := h (depth + 1)
  cases hid
  obtain ⟨other, hother, hmirrors⟩ := hdeep.member name member hmember
  rw [hinner] at hother
  cases hother
  exact hmirrors

theorem MirrorsTo.congr {depth : Nat} (h : store.MirrorsTo depth ty v)
    (hsame : v.untagged = w.untagged) : store.MirrorsTo depth ty w := by
  induction depth generalizing ty v w with
  | zero => trivial
  | succ depth ih =>
      obtain ⟨id, rfl, hreflects⟩ := h
      obtain ⟨constant, hconstant, halike⟩ := hreflects.constant
      have hkind := Value.kind_eq_of_untagged hsame
      refine ⟨id, rfl, hreflects.lt, hreflects.kind.trans hkind, ?_, hreflects.callable, ?_, ?_⟩
      · rw [← hkind]
        exact hreflects.textual
      · exact ⟨constant, hconstant, halike.trans hsame⟩
      · intro name member hmember
        obtain ⟨inner, hinner, hmirrors⟩ := hreflects.member name member hmember
        obtain ⟨other, hother, hsame'⟩ := Value.get?_of_untagged hsame hinner
        exact ⟨other, hother, ih hmirrors hsame'⟩

theorem Mirrors.of_makes (h : store.Mirrors ty v) (hmakes : Makes store next) :
    next.Mirrors ty v := by
  intro depth
  induction depth generalizing ty v with
  | zero => trivial
  | succ depth ih =>
      obtain ⟨id, rfl, hreflects⟩ := h.exists_reflects
      have hshape := hmakes.shape_eq hreflects.lt
      refine ⟨id, rfl, Nat.lt_of_lt_of_le hreflects.lt hmakes.size_le, ?_, ?_, ?_, ?_, ?_⟩
      · rw [hshape, hreflects.kind]
      · rw [hshape]
        exact hreflects.textual
      · rw [hshape, hreflects.callable]
      · rw [hshape]
        exact hreflects.constant
      · intro name member hmember
        rw [hshape] at hmember
        obtain ⟨inner, hinner, hmirrors⟩ := hreflects.member name member hmember
        exact ⟨inner, hinner, ih hmirrors⟩

theorem mirrors_add {shape : Shape} {constant : Value} (hkind : shape.kind = v.kind)
    (htextual : v.kind = .string → shape.IsTextual) (hmembers : shape.members = [])
    (hcallable : shape.callable = none) (hconstant : shape.constant = some constant)
    (halike : constant.untagged = v.untagged) :
    (store.add shape).Mirrors (.plain store.shapes.size) v := by
  intro depth
  cases depth with
  | zero => trivial
  | succ depth =>
      refine ⟨store.shapes.size, rfl, by simp [TypeStore.add], ?_, ?_, ?_, ?_, ?_⟩
      · rw [shape_add_self, hkind]
      · rwa [shape_add_self]
      · rw [shape_add_self, hcallable]
      · rw [shape_add_self]
        exact ⟨constant, hconstant, halike⟩
      · intro name member hmember
        rw [shape_add_self, hmembers] at hmember
        cases hmember

end TypeStore

namespace Ty

theorem elementConstants_apply (elements : List Ty) (store : TypeStore) :
    elementConstants elements store =
      ((elements.mapM fun ty : Ty => (ty.constant? store).1).map (Value.array store.nextTag),
        { store with nextTag := store.nextTag + 1 }) := by
  refine Prod.ext ?_ rfl
  change Option.map _ (elements.mapM _) = _
  congr 2
  funext ty
  cases ty <;> rfl

theorem mapM_constant_of_mirrors {store : TypeStore} {elements : List Ty} {values : List Value}
    (h : List.Forall₂ store.Mirrors elements values) :
    ∃ constants : List Value, elements.mapM (fun ty => (ty.constant? store).1) = some constants ∧
      constants.map Value.untagged = values.map Value.untagged := by
  induction h with
  | nil => exact ⟨[], rfl, rfl⟩
  | cons hfirst _ ih =>
      obtain ⟨constants, hrest, halike⟩ := ih
      obtain ⟨id, rfl, hreflects⟩ := hfirst.exists_reflects
      obtain ⟨constant, hconstant, hsame⟩ := hreflects.constant
      have hfound : ((plain id).constant? store).1 = some constant := hconstant
      refine ⟨constant :: constants, ?_, ?_⟩
      · rw [List.mapM_cons, hfound, hrest]
        rfl
      · rw [List.map_cons, List.map_cons, hsame, halike]

mutual

theorem mirrors_ofValue (start : TypeStore) (value : Value) :
    (ofValue value start).2.Mirrors (ofValue value start).1 value := by
  cases value with
  | undefined | null | bool b | number x | object tag members =>
      unfold ofValue
      exact mirrors_add rfl (fun hstring => by cases hstring) rfl rfl rfl rfl
  | string s =>
      unfold ofValue
      exact mirrors_add rfl (fun _ => ⟨rfl, rfl⟩) rfl rfl rfl rfl
  | array tag values =>
      unfold ofValue
      obtain ⟨constants, hconstants, halike⟩ :=
        mapM_constant_of_mirrors (mirrors_ofValues start values)
      let fresh := (ofValues values start).2.nextTag
      have hconstant : (elementConstants (ofValues values start).1 (ofValues values start).2).1 =
          some (.array fresh constants) := by
        rw [elementConstants_apply, hconstants]
        rfl
      have hsame : (Value.array fresh constants).untagged = (Value.array tag values).untagged := by
        simp only [Value.untagged, Value.untaggedElements_eq_map, halike]
      exact mirrors_add rfl (fun hstring => by cases hstring) rfl rfl hconstant hsame

theorem mirrors_ofValues (start : TypeStore) (values : List Value) :
    List.Forall₂ (ofValues values start).2.Mirrors (ofValues values start).1 values := by
  cases values with
  | nil =>
      unfold ofValues
      exact .nil
  | cons value rest =>
      unfold ofValues
      have hfirst := (mirrors_ofValue start value).of_makes
        (makes_ofValues (ofValue value start).2 rest)
      exact .cons hfirst (mirrors_ofValues (ofValue value start).2 rest)

end

end Ty

end ScriptCheck
